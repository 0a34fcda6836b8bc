import Mis.Proofs.Frame
import Mis.Proofs.Program

/-!
Typing and generation with a symbol table that knows more. What succeeds with one
table succeeds with every table above it and gives the same: a name is asked for
only where the answer is used, and a missing name is an error. The types of
declarations have to agree, since one that is missing would be inferred anew.
-/
namespace Mis

/-- Whatever `t` knows, `t'` knows alike. -/
structure SymbolTable.Below (t t' : SymbolTable) : Prop where
  get : ∀ x symbols, t.get? x = some symbols → t'.get? x = some symbols
  known : ∀ type, t.isKnownType type = true → t'.isKnownType type = true

section Typing

variable {ι : Type} {t t' : SymbolTable} {σ : Scope}

theorem SymbolTable.candidates_below (h : t.Below t') {x : String} {symbols : List Symbol}
    (hx : t.candidates x = .ok symbols) : t'.candidates x = .ok symbols := by
  rw [candidates] at hx ⊢
  split at hx
  · rename_i hget
    rw [h.get _ _ hget]
    exact hx
  · cases hx

theorem SymbolTable.select_below (h : t.Below t') {callee : Expr ι} {arity : Nat} {s : Symbol}
    {types types' : Unit → Except SemanticError (List Ty)}
    (htypes : ∀ ts, types () = .ok ts → types' () = .ok ts)
    (hs : t.select callee arity types = .ok s) : t'.select callee arity types' = .ok s := by
  refine select_mono htypes ?_
  rw [select] at hs ⊢
  cases hname : callee.name? with
  | none => simp [hname] at hs
  | some x =>
      simp only [hname] at hs ⊢
      obtain ⟨symbols, hsymbols, hs⟩ := bind_eq_ok.mp hs
      exact bind_eq_ok.mpr ⟨symbols, candidates_below h hsymbols, hs⟩

mutual

theorem Expr.resultType_below (h : t.Below t') :
    ∀ (e : Expr ι) (r : Option Ty), e.resultType t σ = .ok r → e.resultType t' σ = .ok r
  | .literal _ _, _, hr => hr
  | .name _ _, _, hr => hr
  | .call _ callee args, r, hr => by
      rw [Expr.resultType] at hr ⊢
      obtain ⟨s, hs, hr⟩ := bind_eq_ok.mp hr
      have hargs := fun ts => Expr.argumentTypes_below h args ts
      refine bind_eq_ok.mpr ⟨s, SymbolTable.select_below h hargs hs, ?_⟩
      cases hresult : s.result with
      | none =>
          rw [hresult] at hr
          exact hr
      | some type =>
          simp only [hresult] at hr ⊢
          split at hr
          · rename_i hknown
            rw [if_pos (h.known type hknown)]
            exact hr
          · cases hr

theorem Expr.argumentTypes_below (h : t.Below t') :
    ∀ (es : List (Expr ι)) (ts : List Ty),
      Expr.argumentTypes t σ es = .ok ts → Expr.argumentTypes t' σ es = .ok ts
  | [], _, hts => hts
  | e :: es, ts, hts => by
      rw [Expr.argumentTypes] at hts ⊢
      obtain ⟨r, he, hts⟩ := bind_eq_ok.mp hts
      refine bind_eq_ok.mpr ⟨r, Expr.resultType_below h e r he, ?_⟩
      cases r with
      | none => cases hts
      | some type =>
          obtain ⟨rest, hes, hts⟩ := bind_eq_ok.mp hts
          exact bind_eq_ok.mpr ⟨rest, Expr.argumentTypes_below h es rest hes, hts⟩

end

theorem Expr.valueType_below (h : t.Below t') {e : Expr ι} {type : Ty}
    (he : e.valueType t σ = .ok type) : e.valueType t' σ = .ok type := by
  rw [Expr.valueType] at he ⊢
  obtain ⟨r, hr, he⟩ := bind_eq_ok.mp he
  exact bind_eq_ok.mpr ⟨r, Expr.resultType_below h e r hr, he⟩

theorem calledSymbol_below (h : t.Below t') {callee : Expr ι} {args : List (Expr ι)} {s : Symbol}
    (hs : calledSymbol t σ callee args = .ok s) : calledSymbol t' σ callee args = .ok s :=
  SymbolTable.select_below h (fun ts => Expr.argumentTypes_below h args ts) hs

end Typing

/-- A run of steps that keep their successes keeps its success. -/
theorem foldlM_below {ε S A : Type} {step step' : S → A → Except ε S} {as : List A} {s r : S}
    (hstep : ∀ a ∈ as, ∀ s r, step s a = .ok r → step' s a = .ok r)
    (h : as.foldlM step s = .ok r) : as.foldlM step' s = .ok r := by
  induction as generalizing s with
  | nil => exact h
  | cons a as ih =>
      rw [List.foldlM_cons] at h ⊢
      obtain ⟨s', ha, h⟩ := bind_eq_ok.mp h
      refine bind_eq_ok.mpr ⟨s', hstep a List.mem_cons_self s s' ha, ?_⟩
      exact ih (fun b hb => hstep b (List.mem_cons_of_mem _ hb)) h

section Generating

variable {t t' : SymbolTable} {types types' : Table NodeId Ty} {globals : Scope}
  {f : FunctionDecl NodeId}

theorem Typings.record_below (h : t.Below t') {a b : Typings} {w : Write}
    (hb : a.record t w = .ok b) : a.record t' w = .ok b := by
  obtain ⟨type, htype, hb⟩ := bind_eq_ok.mp hb
  exact bind_eq_ok.mpr ⟨type, Expr.valueType_below h htype, hb⟩

theorem FunctionDecl.typed_below (h : t.Below t') {a : Typings}
    (ha : f.typed t globals = .ok a) : f.typed t' globals = .ok a :=
  foldlM_below (fun _ _ _ _ hw => Typings.record_below h hw) ha

theorem Frame.meet_below (h : t.Below t') {d : Demand} {frame after : Frame}
    (htypes : ∀ id x init, d = .declare id x init → types'.get? id = types.get? id)
    (hd : frame.meet t types d = .ok after) : frame.meet t' types' d = .ok after := by
  cases d with
  | declare id x init =>
      simp only [Frame.meet, htypes id x init rfl] at hd ⊢
      cases hget : types.get? id with
      | some type =>
          rw [hget] at hd
          exact hd
      | none =>
          rw [hget] at hd
          obtain ⟨type, htype, hd⟩ := bind_eq_ok.mp hd
          have htype' := Expr.valueType_below h (mapError_eq_ok.mp htype)
          exact bind_eq_ok.mpr ⟨type, mapError_eq_ok.mpr htype', hd⟩
  | ownSlot id x => exact hd
  | visible x => exact hd
  | constant id value => exact hd
  | call id callee args =>
      obtain ⟨s, hs, hd⟩ := bind_eq_ok.mp hd
      have hs' := calledSymbol_below h (mapError_eq_ok.mp hs)
      exact bind_eq_ok.mpr ⟨s, mapError_eq_ok.mpr hs', hd⟩

theorem FunctionDecl.frame_below (h : t.Below t')
    (htypes : ∀ id x init, .declare id x init ∈ Stmt.demandsAll f.body →
      types'.get? id = types.get? id)
    {frame : Frame} (hframe : f.frame t types globals = .ok frame) :
    f.frame t' types' globals = .ok frame := by
  obtain ⟨entered, henter, hmeet⟩ := bind_eq_ok.mp hframe
  refine bind_eq_ok.mpr ⟨entered, henter, foldlM_below ?_ hmeet⟩
  intro d hd _ _ hstep
  exact Frame.meet_below h (fun id x init heq => htypes id x init (heq ▸ hd)) hstep

theorem FunctionDecl.generate_below (h : t.Below t')
    (htypes : ∀ id x init, .declare id x init ∈ Stmt.demandsAll f.body →
      types'.get? id = types.get? id)
    (hname : t'.externalName f = t.externalName f) {g : C.Function}
    (hg : f.generate t types globals = .ok g) : f.generate t' types' globals = .ok g := by
  obtain ⟨frame, body, hframe, hbody, rfl⟩ := FunctionDecl.generate_eq_ok hg
  have hprototype : f.prototype t' = f.prototype t := by
    rw [FunctionDecl.prototype, FunctionDecl.prototype, hname]
  refine bind_eq_ok.mpr ⟨frame, FunctionDecl.frame_below h htypes hframe, ?_⟩
  exact bind_eq_ok.mpr ⟨body, hbody, by rw [hprototype]⟩

theorem Decl.generate_below (h : t.Below t') {d : Decl NodeId}
    (hf : ∀ f, d = .function f →
      t'.externalName f = t.externalName f ∧ t'.hidesFunction f = t.hidesFunction f ∧
        ∀ id x init, .declare id x init ∈ Stmt.demandsAll f.body → types'.get? id = types.get? id)
    {r : Option C.Function} (hd : Decl.generate t types globals d = .ok r) :
    Decl.generate t' types' globals d = .ok r := by
  cases d with
  | function f =>
      obtain ⟨hname, hhides, htypes⟩ := hf f rfl
      obtain ⟨hhidden, rfl⟩ | ⟨hhidden, hcapital, g, rfl, hg⟩ := Decl.generate_function hd
      · rw [Decl.generate, hhides, if_pos hhidden]
      · rw [Decl.generate, hhides, hhidden, hcapital]
        exact bind_eq_ok.mpr ⟨g, FunctionDecl.generate_below h htypes hname hg, rfl⟩
  | struct s => exact hd
  | constant c => exact hd

end Generating

end Mis
