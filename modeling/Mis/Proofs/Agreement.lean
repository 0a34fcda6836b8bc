import Mis.Proofs.Typings

/-!
Typing and code generation look at the same calls in scopes of their own. Typing
sees the value of a declaration before the variable, generation sees it after. So
they may differ where a declared variable hides a constant of another type and
its own value mentions the name; everywhere else a written call means to both
the same symbol, and its temporary has the type of the variable.
-/
namespace Mis

section Names

variable {ι : Type} {t : SymbolTable} {σ τ : Scope}

mutual

/-- Only the names of an expression count for its type. -/
theorem Expr.resultType_congr :
    ∀ e : Expr ι, (∀ x ∈ e.names, σ x = τ x) → e.resultType t σ = e.resultType t τ
  | .literal _ _, _ => rfl
  | .name _ x, h => by
      rw [Expr.resultType, Expr.resultType, h x (List.mem_singleton_self x)]
  | .call _ callee args, h => by
      rw [Expr.resultType, Expr.resultType, Expr.argumentTypes_congr args h]

theorem Expr.argumentTypes_congr :
    ∀ es : List (Expr ι), (∀ x ∈ Expr.namesAll es, σ x = τ x) →
      Expr.argumentTypes t σ es = Expr.argumentTypes t τ es
  | [], _ => rfl
  | e :: es, h => by
      rw [Expr.argumentTypes, Expr.argumentTypes,
        Expr.resultType_congr e fun x hx => h x (List.mem_append_left _ hx),
        Expr.argumentTypes_congr es fun x hx => h x (List.mem_append_right _ hx)]

end

end Names

/-- Several functions have the called name. -/
def SymbolTable.Overloads {ι : Type} (t : SymbolTable) (callee : Expr ι) : Prop :=
  ∃ x symbols, callee.name? = some x ∧ t.get? x = some symbols ∧ 1 < symbols.length

/-- Two scopes give a call two meanings only if its name is overloaded and the arguments have
other types. -/
theorem calledSymbol_eq_iff {ι : Type} {t : SymbolTable} {σ τ : Scope} {callee : Expr ι}
    {args : List (Expr ι)} {s₁ s₂ : Symbol} (h₁ : calledSymbol t σ callee args = .ok s₁)
    (h₂ : calledSymbol t τ callee args = .ok s₂) :
    s₁ = s₂ ↔
      ¬ (t.Overloads callee ∧ Expr.argumentTypes t τ args ≠ Expr.argumentTypes t σ args) := by
  obtain ⟨x, symbols, hname, hget, hmem, _, harguments⟩ := calledSymbol_eq_ok h₁
  obtain ⟨x', symbols', hname', hget', hmem', _, harguments'⟩ := calledSymbol_eq_ok h₂
  rw [hname] at hname'
  cases hname'
  rw [hget] at hget'
  cases hget'
  constructor
  · intro heq hdiffer
    obtain ⟨⟨y, others, hy, hothers, hlength⟩, htypes⟩ := hdiffer
    rw [hname] at hy
    cases hy
    rw [hget] at hothers
    cases hothers
    obtain rfl | harguments := harguments
    · simp at hlength
    · obtain rfl | harguments' := harguments'
      · simp at hlength
      · exact htypes (by rw [harguments, harguments', heq])
  · intro hsame
    by_cases htypes : Expr.argumentTypes t τ args = Expr.argumentTypes t σ args
    · rw [calledSymbol, htypes] at h₂
      exact Except.ok.inj (h₁.symm.trans h₂)
    · -- one symbol only
      have hlength : ¬ 1 < symbols.length := fun hlength =>
        hsame ⟨⟨x, symbols, hname, hget, hlength⟩, htypes⟩
      cases symbols with
      | nil => cases hmem
      | cons s others =>
          cases others with
          | nil => rw [List.mem_singleton.mp hmem, List.mem_singleton.mp hmem']
          | cons _ _ => simp at hlength

/-! The walk, stop by stop. -/

section Stops

variable {t : SymbolTable} {types : Table NodeId Ty}

/-- Every stop of the walk is made for a demand. -/
theorem mem_visitsAlong {σ : Scope} {ds : List Demand} {v : Visit}
    (h : v ∈ visitsAlong t types σ ds) :
    ∃ before d after, ds = before ++ d :: after ∧ v.scope = scopeAlong t types σ before ∧
      d.site? t types v.scope = some v.site := by
  induction ds generalizing σ with
  | nil => cases h
  | cons d ds ih =>
      obtain hd | hds := List.mem_append.mp h
      · rw [Demand.visits, Option.mem_toList] at hd
        obtain ⟨site, hsite, rfl⟩ := Option.map_eq_some_iff.mp hd
        exact ⟨[], d, ds, rfl, rfl, hsite⟩
      · obtain ⟨before, d', after, rfl, hscope, hsite⟩ := ih hds
        exact ⟨d :: before, d', after, rfl, hscope, hsite⟩

/-- The frame at a stop of the walk has the scope of the walk, and meets the demand behind it. -/
theorem FunctionDecl.comesTo_of_visit {globals : Scope} {f : FunctionDecl NodeId} {frame : Frame}
    (h : f.frame t types globals = .ok frame) {v : Visit} (hv : v ∈ f.visits t types globals) :
    ∃ d before next, ComesTo (Frame.meet t types) (Frame.start globals f)
        (Stmt.demandsAll f.body) d before ∧
      before.scope = v.scope ∧ d.site? t types v.scope = some v.site ∧
      before.meet t types d = .ok next := by
  obtain ⟨entered, henter, hmeet⟩ := bind_eq_ok.mp h
  obtain ⟨rfl, _⟩ := Frame.enter_eq_ok henter
  rw [FunctionDecl.visits, ← Frame.scope_start, ← Stmt.visitsAlong_demandsAll] at hv
  obtain ⟨demands, d, after, hsplit, hscope, hsite⟩ := mem_visitsAlong hv
  rw [hsplit] at hmeet
  obtain ⟨before, hbefore, hmeet⟩ := foldlM_append_eq_ok.mp hmeet
  rw [List.foldlM_cons] at hmeet
  obtain ⟨next, hnext, _⟩ := bind_eq_ok.mp hmeet
  refine ⟨d, before, next, ⟨demands, after, hsplit, hbefore⟩, ?_, hsite, hnext⟩
  rw [(Frame.meets_of_foldlM hbefore).scope_eq, hscope]

end Stops

/-! Writes whose value is a call. -/

section Values

variable {frame : Frame}

mutual

/-- A written value has an operand, so a call that is written has a result. -/
theorem Stmt.exists_valueOf_of_lower :
    ∀ (s : Stmt NodeId) (out : List C.Stmt), s.lower frame = .ok out →
      ∀ w ∈ s.writes, ∃ o, frame.valueOf w.value = .ok o
  | .declare i storage x e, out, h, w, hw => by
      rw [List.mem_singleton.mp hw]
      cases Stmt.lowersTo_of_lower h with
      | declare _ _ hvalue => exact ⟨_, hvalue⟩
  | .assign i x e, out, h, w, hw => by
      rw [List.mem_singleton.mp hw]
      cases Stmt.lowersTo_of_lower h with
      | assign _ hvalue => exact ⟨_, hvalue⟩
  | .branch _ c yes none, out, h, w, hw => by
      cases Stmt.lowersTo_of_lower h with
      | branch _ _ hyes => exact Stmt.exists_valueOf_of_lowerAll yes _ hyes w hw
  | .branch _ c yes (some no), out, h, w, hw => by
      cases Stmt.lowersTo_of_lower h with
      | branchElse _ _ hyes hno =>
          obtain hw | hw := List.mem_append.mp hw
          · exact Stmt.exists_valueOf_of_lowerAll yes _ hyes w hw
          · exact Stmt.exists_valueOf_of_lowerAll no _ hno w hw
  | .loop _ c body, out, h, w, hw => by
      cases Stmt.lowersTo_of_lower h with
      | loop _ _ hbody => exact Stmt.exists_valueOf_of_lowerAll body _ hbody w hw
  | .leave _ _, _, _, _, hw | .call _ _, _, _, _, hw => by cases hw

theorem Stmt.exists_valueOf_of_lowerAll :
    ∀ (ss : List (Stmt NodeId)) (out : List C.Stmt), Stmt.lowerAll frame ss = .ok out →
      ∀ w ∈ Stmt.writesAll ss, ∃ o, frame.valueOf w.value = .ok o
  | [], _, _, _, hw => by cases hw
  | s :: ss, out, h, w, hw => by
      obtain ⟨first, more, hfirst, hmore, rfl⟩ := Stmt.lowerAll_cons_eq_ok h
      obtain hw | hw := List.mem_append.mp hw
      · exact Stmt.exists_valueOf_of_lower s first hfirst w hw
      · exact Stmt.exists_valueOf_of_lowerAll ss more hmore w hw

end

end Values

/-- What typing and generation make of a write whose value is a call: the states in which they
come to it, the symbols it means there, the type of the write and that of the temporary. -/
structure FunctionDecl.Resolves (t : SymbolTable) (types : Table NodeId Ty) (constants : Scope)
    (f : FunctionDecl NodeId) (w : Write) (id : NodeId) (callee : Expr NodeId)
    (args : List (Expr NodeId)) (typings : Typings) (frame : Frame) (typing generation : Symbol)
    (recorded temporary : Ty) : Prop where
  typing_at :
    ComesTo (Typings.record t) (f.typingsStart constants) (Stmt.writesAll f.body) w typings
  generation_at : ComesTo (Frame.meet t types) (Frame.start constants f)
    (Stmt.demandsAll f.body) (.call id callee args) frame
  typing_symbol : calledSymbol t typings.scope callee args = .ok typing
  generation_symbol : calledSymbol t frame.scope callee args = .ok generation
  recorded_type : types.get? w.id = some recorded
  typing_result : typing.result = some recorded
  generation_result : generation.result = some temporary
  temporary_type : ∃ whole c, f.frame t types constants = .ok whole ∧
    whole.valueSlots.get? id = some c ∧ ⟨c, temporary⟩ ∈ whole.locals

/-- A frame takes a declaration only of a new name, or of a variable of the same type. -/
theorem Frame.localScope_of_meet_declare {t : SymbolTable} {types : Table NodeId Ty}
    {frame after : Frame} {d : Demand} {x : String} {T : Ty}
    (h : frame.meet t types d = .ok after)
    (hsite : d.site? t types frame.scope = some (.declare x (some T))) :
    frame.localScope x = some T ∨ frame.localScope x = none := by
  cases d with
  | declare id y init =>
      obtain ⟨type, hdeclared, hdeclare⟩ := Frame.meet_declare_eq_ok h
      simp only [Demand.site?, hdeclared, Option.some.injEq, Site.declare.injEq] at hsite
      obtain ⟨rfl, rfl⟩ := hsite
      exact (Frame.declare_eq_ok hdeclare).2.imp And.left And.left
  | ownSlot _ _ | visible _ | constant _ _ | call _ _ _ => cases hsite

section Writes

variable {t : SymbolTable} {types : Table NodeId Ty} {constants : Scope}
  {f : FunctionDecl NodeId} {whole : Frame} {body : List C.Stmt} {b : Typings} {w : Write}

/-- Both passes come to every write, generation in the scope that the write makes. -/
theorem FunctionDecl.exists_resolves (hids : (Stmt.idsAll f.body).Nodup)
    (hframe : f.frame t types constants = .ok whole)
    (hbody : Stmt.lowerAll whole f.body = .ok body) (htyped : f.typed t constants = .ok b)
    (hrecorded : ∀ p ∈ b.types, types.get? p.1 = some p.2) (hw : w ∈ Stmt.writesAll f.body)
    {id : NodeId} {callee : Expr NodeId} {args : List (Expr NodeId)}
    (hvalue : w.value = .call id callee args) :
    ∃ typings frame s₁ s₂ T T',
      f.Resolves t types constants w id callee args typings frame s₁ s₂ T T' ∧
      frame.scope = Typings.scopeOf typings.scope T w ∧
      (w.declares = true →
        ⟨typings.scope, .declare w.name (some T)⟩ ∈ f.visits t types constants) := by
  have hframed := FunctionDecl.framed_of_frame hframe
  have hnumbered := FunctionDecl.numbered_of_frame hids hframe
  have hfollows := Stmt.follows_writesAll f.body (f.typingsStart constants) b htyped hrecorded
  obtain ⟨typings, T, htyping, hT, hget, hvisits, hdeclares⟩ := hfollows.typed w hw
  rw [hvalue] at hT hvisits
  obtain ⟨s₁, hs₁, hresult₁⟩ := calledSymbol_of_valueType hT
  have hv : ⟨Typings.scopeOf typings.scope T w, .call id callee args⟩ ∈
      f.visits t types constants := hvisits _ List.mem_cons_self
  obtain ⟨d, frame, _, hgeneration, hscope, hsite, _⟩ := FunctionDecl.comesTo_of_visit hframe hv
  have hd : d = .call id callee args := by
    cases d with
    | call id' callee' args' =>
        cases hsite
        rfl
    | declare _ _ _ | ownSlot _ _ | constant _ _ => cases hsite
    | visible _ => cases hsite
  obtain ⟨s₂, hs₂⟩ := hframed.granted _ hv
  -- the value was lowered, so the call has a slot, and so a result
  obtain ⟨o, ho⟩ := Stmt.exists_valueOf_of_lowerAll f.body body hbody w hw
  rw [hvalue] at ho
  obtain ⟨c, hc, _⟩ := bind_eq_ok.mp ho
  have hslot := hnumbered.isSome_slot_of_call (FunctionDecl.nodup_slotIds hids) hv hs₂
  rw [show whole.valueSlots.get? id = some c from Frame.hasSlot_of_slotOf hc] at hslot
  obtain ⟨T', hresult₂⟩ := Option.isSome_iff_exists.mp hslot.symm
  refine ⟨typings, frame, s₁, s₂, T, T', ?_, hscope, hdeclares⟩
  exact {
    typing_at := htyping
    generation_at := hd ▸ hgeneration
    typing_symbol := hs₁
    generation_symbol := hscope ▸ hs₂
    recorded_type := hget
    typing_result := hresult₁
    generation_result := hresult₂
    temporary_type := by
      obtain ⟨c, hslot, hlocal⟩ := hnumbered.slot_of_call hv hs₂ hresult₂
      exact ⟨whole, c, hframe, hslot, hlocal⟩ }

/-- With the declared variable in sight the arguments of an overloaded call have other types. -/
def Write.Retypes (t : SymbolTable) (σ : Scope) (T : Ty) (callee : Expr NodeId)
    (args : List (Expr NodeId)) (w : Write) : Prop :=
  w.declares = true ∧ t.Overloads callee ∧
    Expr.argumentTypes t (σ.set w.name (some T)) args ≠ Expr.argumentTypes t σ args

/-- Symbols differ exactly where the variable retypes the arguments. -/
theorem Write.retypes_iff {σ : Scope} {T : Ty} {callee : Expr NodeId} {args : List (Expr NodeId)}
    {s₁ s₂ : Symbol} (h₁ : calledSymbol t σ callee args = .ok s₁)
    (h₂ : calledSymbol t (Typings.scopeOf σ T w) callee args = .ok s₂) :
    s₁ = s₂ ↔ ¬ w.Retypes t σ T callee args := by
  rw [calledSymbol_eq_iff h₁ h₂, Typings.scopeOf, Write.Retypes]
  cases w.declares <;> simp

/-- A variable that retypes the arguments of its own value is new, and hides a constant of the
module that has another type and that the arguments mention. -/
theorem FunctionDecl.hides_of_retypes (hframe : f.frame t types constants = .ok whole)
    {σ : Scope} {T : Ty} {callee : Expr NodeId} {args : List (Expr NodeId)} {s : Symbol}
    (hs : calledSymbol t σ callee args = .ok s)
    (hdeclares : w.declares = true →
      ⟨σ, .declare w.name (some T)⟩ ∈ f.visits t types constants)
    (h : w.Retypes t σ T callee args) :
    ∃ T₀, constants w.name = some T₀ ∧ σ w.name = some T₀ ∧ T₀ ≠ T ∧
      w.name ∉ f.params.map (·.name) ∧ w.name ∈ Expr.namesAll args := by
  obtain ⟨hdeclare, ⟨x, symbols, hx, hsymbols, hlength⟩, htypes⟩ := h
  have hmention : w.name ∈ Expr.namesAll args := by
    by_contra hnot
    refine htypes (Expr.argumentTypes_congr args ?_)
    intro y hy
    exact Scope.set_of_ne fun heq => hnot (heq ▸ hy)
  have hargs : Expr.argumentTypes t σ args = .ok s.params := by
    obtain ⟨y, others, hy, hothers, _, _, hsingle | hargs⟩ := calledSymbol_eq_ok hs
    · rw [hx] at hy
      cases hy
      rw [hsymbols] at hothers
      cases hothers
      simp [hsingle] at hlength
    · exact hargs
  have hknown : ∃ T₀, σ w.name = some T₀ ∧ T₀ ≠ T := by
    cases hold : σ w.name with
    | none =>
        -- a name without a type was not asked for, so nothing changes
        have hsame := Expr.argumentTypes_mono (Scope.below_set_of_none hold (some T)) args _ hargs
        exact absurd (hsame.trans hargs.symm) htypes
    | some T₀ =>
        refine ⟨T₀, rfl, ?_⟩
        intro heq
        exact htypes (by rw [Scope.set_eq_self (heq ▸ hold)])
  obtain ⟨T₀, hold, hne⟩ := hknown
  -- the frame that declares the variable has no other variable or parameter of the name
  obtain ⟨d, before, next, ⟨demands, _, _, hbefore⟩, hscope, hsite, hmeet⟩ :=
    FunctionDecl.comesTo_of_visit hframe (hdeclares hdeclare)
  have hfixed := Frame.foldl_serve_fixed t (Frame.start constants f)
    (visitsAlong t types (Frame.start constants f).scope demands)
  rw [← (Frame.meets_of_foldlM hbefore).eq_foldl] at hfixed
  obtain ⟨_, _, hparams, hglobals⟩ := hfixed
  have hnew := Frame.localScope_of_meet_declare hmeet (hscope.symm ▸ hsite)
  simp only at hscope
  have hlocal : before.localScope w.name = none := by
    obtain hlocal | hlocal := hnew
    · have hsame := Frame.scope_of_localScope hlocal
      rw [hscope, hold] at hsame
      exact absurd (Option.some.inj hsame) hne
    · exact hlocal
  refine ⟨T₀, ?_, hold, hne, ?_, hmention⟩
  · rw [← hscope, Frame.scope, Scope.orElse, hlocal, Option.none_or, hglobals] at hold
    exact hold
  · intro hparam
    have hsome : (before.localScope w.name).isSome := by
      rw [Frame.isSome_localScope, hparams]
      exact .inl hparam
    rw [hlocal] at hsome
    cases hsome

end Writes

/-- For every write whose value is a call, typing and generation find the same symbol, and the
temporary has the type of the write, unless the written variable retypes the arguments. That takes
a new variable that hides a constant of another type. -/
theorem Module.written_calls_agree {m : Module NodeId} {typed : TypedModule}
    {program : C.Program} (hids : m.ids.Nodup) (htyped : m.typed m.symbolTable = .ok typed)
    (hprogram : typed.generate m.symbolTable = .ok program) {f : FunctionDecl NodeId}
    (hf : f ∈ m.functions) (hshown : m.symbolTable.hidesFunction f = false) {w : Write}
    (hw : w ∈ Stmt.writesAll f.body) {id : NodeId} {callee : Expr NodeId}
    {args : List (Expr NodeId)} (hvalue : w.value = .call id callee args) :
    ∃ typings frame s₁ s₂ T T',
      f.Resolves m.symbolTable typed.types m.constantScope w id callee args typings frame
        s₁ s₂ T T' ∧
      (s₁ = s₂ ∧ T = T' ↔ ¬ w.Retypes m.symbolTable typings.scope T callee args) ∧
      (w.Retypes m.symbolTable typings.scope T callee args →
        ∃ T₀, m.constantScope w.name = some T₀ ∧ typings.scope w.name = some T₀ ∧ T₀ ≠ T ∧
          w.name ∉ f.params.map (·.name) ∧ w.name ∈ Expr.namesAll args) := by
  have hgen := Module.generates_of_generate htyped hprogram
  obtain ⟨_, g, _, hg⟩ := hgen.function_mem f hf hshown
  obtain ⟨whole, body, hframe, hbody, _⟩ := FunctionDecl.generate_eq_ok hg
  obtain ⟨b, hb, hrecorded⟩ := Module.recorded_of_typed hids htyped hf
  obtain ⟨typings, frame, s₁, s₂, T, T', hresolves, hscope, hdeclares⟩ :=
    FunctionDecl.exists_resolves (Module.nodup_idsAll hids hf) hframe hbody hb hrecorded hw hvalue
  have hiff := Write.retypes_iff hresolves.typing_symbol (hscope ▸ hresolves.generation_symbol)
  refine ⟨typings, frame, s₁, s₂, T, T', hresolves, ?_, ?_⟩
  · rw [← hiff]
    constructor
    · intro h
      exact h.1
    · intro h
      have hresult := hresolves.typing_result
      rw [h, hresolves.generation_result] at hresult
      exact ⟨h, (Option.some.inj hresult).symm⟩
  · intro hretypes
    exact FunctionDecl.hides_of_retypes hframe hresolves.typing_symbol hdeclares hretypes

/-- The variable `x`, a text, gets the result of `f` for the constant `x`, a number, and then `y`
the result of `f` for the variable `x`. -/
def retypingStart : FunctionDecl NodeId where
  name := "start"
  params := []
  result := none
  body :=
    [.declare 8 .shared "x" (.call 7 (.name 5 "f") [.name 6 "x"]),
     .declare 12 .shared "y" (.call 11 (.name 9 "f") [.name 10 "x"])]

def retyping : Module NodeId where
  imports := []
  decls :=
    [.constant ⟨"x", .int, .literal 0 (.int 1)⟩,
     .function ⟨"f", [⟨"a", .int⟩], some .string, [.leave 2 (some (.literal 1 (.text "s")))]⟩,
     .function ⟨"f", [⟨"a", .string⟩], some .int, [.leave 4 (some (.literal 3 (.int 1)))]⟩,
     .function retypingStart]

def retypingTyped : TypedModule where
  tree := retyping
  types := Table.empty.insertAll [(8, .string), (12, .int)]

theorem retyping_second_call_agrees :
    retyping.ids.Nodup ∧ retyping.typed retyping.symbolTable = .ok retypingTyped ∧
      ∃ program, retypingTyped.generate retyping.symbolTable = .ok program ∧
        ∃ typings frame s T,
          retypingStart.Resolves retyping.symbolTable retypingTyped.types retyping.constantScope
            ⟨12, true, "y", .call 11 (.name 9 "f") [.name 10 "x"]⟩ 11 (.name 9 "f")
            [.name 10 "x"] typings frame s s T T := by
  have hids : retyping.ids.Nodup := by decide
  have htyped : retyping.typed retyping.symbolTable = .ok retypingTyped := rfl
  refine ⟨hids, htyped, _, rfl, ?_⟩
  have hf : retypingStart ∈ retyping.functions :=
    List.mem_cons_of_mem _ (List.mem_cons_of_mem _ List.mem_cons_self)
  obtain ⟨typings, frame, s₁, s₂, T, T', hresolves, hiff, hhides⟩ :=
    Module.written_calls_agree hids htyped rfl hf rfl
      (List.mem_cons_of_mem _ List.mem_cons_self) rfl
  have hnot := mt hhides (by
    intro h
    obtain ⟨_, _, _, _, _, hmention⟩ := h
    exact absurd hmention (by decide))
  obtain ⟨rfl, rfl⟩ := hiff.mpr hnot
  exact ⟨typings, frame, s₁, T, hresolves⟩

/-- The first call goes to `f__String`, which gives a number, for a variable that is a text since
typing has found `f__Int`. -/
theorem retyping_first_call_differs :
    retyping.ids.Nodup ∧ retyping.typed retyping.symbolTable = .ok retypingTyped ∧
      (∃ program, retypingTyped.generate retyping.symbolTable = .ok program) ∧
      ∃ typings frame,
        retypingStart.Resolves retyping.symbolTable retypingTyped.types retyping.constantScope
          ⟨8, true, "x", .call 7 (.name 5 "f") [.name 6 "x"]⟩ 7 (.name 5 "f") [.name 6 "x"]
          typings frame ⟨"f__Int", .function, [.int], some .string⟩
          ⟨"f__String", .function, [.string], some .int⟩ .string .int := by
  refine ⟨by decide, rfl, ⟨_, rfl⟩, retypingStart.typingsStart retyping.constantScope,
    { Frame.start retyping.constantScope retypingStart with declared := [⟨"x", .string⟩] }, ?_⟩
  exact {
    typing_at := ⟨[], _, rfl, rfl⟩
    generation_at := ⟨[.declare 8 "x" (.call 7 (.name 5 "f") [.name 6 "x"])], _, rfl, rfl⟩
    typing_symbol := rfl
    generation_symbol := rfl
    recorded_type := rfl
    typing_result := rfl
    generation_result := rfl
    temporary_type := ⟨_, "tmp_0", rfl, rfl, by decide⟩ }

end Mis
