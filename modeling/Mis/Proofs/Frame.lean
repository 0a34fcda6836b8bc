import Mis.Proofs.Walk

/-!
What meeting the demands of a body makes of a frame. A demand that is met does
for the frame what the stop of the walk asks for, and the scope of the frame is
the scope of the walk. So a frame that has met all demands is the fold of
`Frame.serve` over the walk, and everything the walk asked for was there.
-/
namespace Mis
namespace Frame

/-- What the frame does for one stop of the walk. -/
def serve (t : SymbolTable) (frame : Frame) (v : Visit) : Frame :=
  match v.site with
  | .declare x (some type) =>
    if (frame.localScope x).isSome then frame
    else { frame with declared := frame.declared ++ [⟨x, type⟩] }
  | .declare _ none => frame
  | .literal id value =>
    { frame.addConst value with valueSlots := frame.valueSlots.insert id frame.nextConst }
  | .call id callee args =>
    match calledSymbol t v.scope callee args with
    | .ok s => frame.addCall id (calledName callee s) s.result
    | .error _ => frame
  | .own id (some type) =>
    { frame.addTemp type with ownSlots := frame.ownSlots.insert id frame.nextTemp }
  | .own _ none => frame

end Frame

/-- Nothing that the stop asks for is missing. -/
def Visit.Granted (t : SymbolTable) (v : Visit) : Prop :=
  match v.site with
  | .declare x type => type.isSome ∧ isReserved x = false
  | .literal _ _ => True
  | .call _ callee args => ∃ s, calledSymbol t v.scope callee args = .ok s
  | .own _ type => type.isSome

namespace Frame

section Scopes

variable {frame : Frame} {x : String} {type : Ty}

theorem scope_of_localScope (h : frame.localScope x = some type) : frame.scope x = some type := by
  simp [scope, Scope.orElse, h]

theorem localScope_declare (frame : Frame) (x : String) (type : Ty) :
    ({ frame with declared := frame.declared ++ [⟨x, type⟩] } : Frame).localScope =
      frame.localScope.insert x type := by
  simp only [localScope, Scope.insertAll_append]
  rfl

theorem scope_declare (frame : Frame) (x : String) (type : Ty) :
    ({ frame with declared := frame.declared ++ [⟨x, type⟩] } : Frame).scope =
      frame.scope.insert x type := by
  simp only [scope]
  rw [localScope_declare, Scope.insert_orElse]

theorem isSome_localScope :
    (frame.localScope x).isSome ↔
      x ∈ frame.params.map (·.name) ∨ x ∈ frame.declared.map (·.name) := by
  simp only [localScope, Scope.isSome_insertAll, Scope.empty, Option.isSome_none,
    Bool.false_eq_true, or_false]
  exact Or.comm

theorem isSome_scope :
    (frame.scope x).isSome ↔ (frame.localScope x).isSome ∨ (frame.globals x).isSome := by
  simp [scope, Scope.orElse]

theorem scope_addCall (frame : Frame) (id : NodeId) (name : String) (result : Option Ty) :
    (frame.addCall id name result).scope = frame.scope := by
  cases result <;> rfl

theorem localScope_addCall (frame : Frame) (id : NodeId) (name : String) (result : Option Ty) :
    (frame.addCall id name result).localScope = frame.localScope := by
  cases result <;> rfl

end Scopes

/-- What a run over demands makes of `frame`. -/
structure Meets (t : SymbolTable) (types : Table NodeId Ty) (frame : Frame) (ds : List Demand)
    (after : Frame) : Prop where
  eq_foldl : after = (visitsAlong t types frame.scope ds).foldl (serve t) frame
  scope_eq : after.scope = scopeAlong t types frame.scope ds
  granted : ∀ v ∈ visitsAlong t types frame.scope ds, v.Granted t
  /-- A variable keeps its type. -/
  keeps : ∀ x type, frame.localScope x = some type → after.localScope x = some type
  globals_eq : after.globals = frame.globals
  declares : ∀ σ x type, ⟨σ, .declare x type⟩ ∈ visitsAlong t types frame.scope ds →
    after.localScope x = type
  visible : ∀ x, .visible x ∈ ds → (after.scope x).isSome

section Step

variable {t : SymbolTable} {types : Table NodeId Ty} {frame after : Frame}

theorem declare_eq_ok {x : String} {type : Ty} (h : frame.declare x type = .ok after) :
    isReserved x = false ∧
      (frame.localScope x = some type ∧ after = frame ∨
        frame.localScope x = none ∧
          after = { frame with declared := frame.declared ++ [⟨x, type⟩] }) := by
  rw [declare] at h
  cases hreserved : isReserved x with
  | true => simp [hreserved] at h
  | false =>
      refine ⟨rfl, ?_⟩
      rw [hreserved, if_neg Bool.false_ne_true] at h
      cases hlocal : frame.localScope x with
      | none =>
          simp only [hlocal, Except.ok.injEq] at h
          exact .inr ⟨rfl, h.symm⟩
      | some previous =>
          simp only [hlocal] at h
          split at h
          · rename_i hsame
            exact .inl ⟨congrArg some hsame, (Except.ok.inj h).symm⟩
          · cases h

theorem meet_declare_eq_ok {id : NodeId} {x : String} {init : Expr NodeId}
    (h : frame.meet t types (.declare id x init) = .ok after) :
    ∃ type, declaredType t types frame.scope id init = some type ∧
      frame.declare x type = .ok after := by
  rw [declaredType]
  cases hrecorded : types.get? id with
  | some type =>
      simp only [meet, hrecorded] at h
      exact ⟨type, rfl, h⟩
  | none =>
      simp only [meet, hrecorded] at h
      obtain ⟨type, hvalue, h⟩ := bind_eq_ok.mp h
      refine ⟨type, ?_, h⟩
      rw [mapError_eq_ok.mp hvalue]
      rfl

theorem meets_declare {id : NodeId} {x : String} {init : Expr NodeId}
    (h : frame.meet t types (.declare id x init) = .ok after) :
    frame.Meets t types [.declare id x init] after := by
  obtain ⟨type, hdeclared, hdeclare⟩ := meet_declare_eq_ok h
  obtain ⟨hreserved, hcase⟩ := declare_eq_ok hdeclare
  have hvisits : visitsAlong t types frame.scope [.declare id x init] =
      [⟨frame.scope, .declare x (some type)⟩] := by
    simp [visitsAlong, Demand.visits, Demand.site?, hdeclared]
  have hscope : scopeAlong t types frame.scope [.declare id x init] =
      frame.scope.set x (some type) := by
    simp [scopeAlong, Demand.scopeAfter, hdeclared]
  have hgranted : Visit.Granted t ⟨frame.scope, .declare x (some type)⟩ := ⟨rfl, hreserved⟩
  obtain ⟨hlocal, rfl⟩ | ⟨hlocal, rfl⟩ := hcase
  · -- declared before with this type: nothing changes
    refine ⟨?_, ?_, ?_, fun _ _ h => h, rfl, ?_, by simp⟩
    · simp [hvisits, serve, hlocal]
    · rw [hscope, Scope.set_eq_self (scope_of_localScope hlocal)]
    · simpa [hvisits] using hgranted
    · intro σ y type' hmem
      simp only [hvisits, List.mem_singleton, Visit.mk.injEq, Site.declare.injEq] at hmem
      rw [hmem.2.1, hmem.2.2, hlocal]
  · refine ⟨?_, ?_, ?_, ?_, rfl, ?_, by simp⟩
    · simp [hvisits, serve, hlocal]
    · rw [hscope, scope_declare, Scope.insert_eq_set]
    · simpa [hvisits] using hgranted
    · intro y type' hy
      have hne : y ≠ x := by
        intro heq
        subst heq
        rw [hlocal] at hy
        cases hy
      rw [localScope_declare, Scope.insert_eq_set, Scope.set_of_ne hne, hy]
    · intro σ y type' hmem
      simp only [hvisits, List.mem_singleton, Visit.mk.injEq, Site.declare.injEq] at hmem
      rw [localScope_declare, Scope.insert_eq_set, hmem.2.1, hmem.2.2, Scope.set_self]

theorem meets_ownSlot {id : NodeId} {x : String}
    (h : frame.meet t types (.ownSlot id x) = .ok after) :
    frame.Meets t types [.ownSlot id x] after := by
  rw [meet] at h
  cases hx : frame.scope x with
  | none => simp [hx] at h
  | some type =>
      simp only [hx, Except.ok.injEq] at h
      have hvisits : visitsAlong t types frame.scope [.ownSlot id x] =
          [⟨frame.scope, .own id (some type)⟩] := by
        simp [visitsAlong, Demand.visits, Demand.site?, hx]
      subst h
      refine ⟨?_, rfl, ?_, fun _ _ h => h, rfl, ?_, by simp⟩
      · simp [hvisits, serve]
      · simp [hvisits, Visit.Granted]
      · simp [hvisits]

theorem meets_visible {x : String} (h : frame.meet t types (.visible x) = .ok after) :
    frame.Meets t types [.visible x] after := by
  rw [meet] at h
  cases hx : frame.scope x with
  | none => simp [hx] at h
  | some type =>
      simp only [hx, Except.ok.injEq] at h
      have hvisits : visitsAlong t types frame.scope [.visible x] = [] := rfl
      subst h
      refine ⟨rfl, rfl, ?_, fun _ _ h => h, rfl, ?_, ?_⟩
      · simp [hvisits]
      · simp [hvisits]
      · intro y hy
        simp only [List.mem_singleton, Demand.visible.injEq] at hy
        rw [hy, hx]
        rfl

theorem meets_constant {id : NodeId} {value : Literal}
    (h : frame.meet t types (.constant id value) = .ok after) :
    frame.Meets t types [.constant id value] after := by
  have hvisits : visitsAlong t types frame.scope [.constant id value] =
      [⟨frame.scope, .literal id value⟩] := rfl
  simp only [meet, Except.ok.injEq] at h
  subst h
  refine ⟨rfl, rfl, ?_, fun _ _ h => h, rfl, ?_, by simp⟩
  · simp [hvisits, Visit.Granted]
  · simp [hvisits]

theorem meets_call {id : NodeId} {callee : Expr NodeId} {args : List (Expr NodeId)}
    (h : frame.meet t types (.call id callee args) = .ok after) :
    frame.Meets t types [.call id callee args] after := by
  rw [meet] at h
  obtain ⟨s, hs, h⟩ := bind_eq_ok.mp h
  have hcalled := mapError_eq_ok.mp hs
  have hvisits : visitsAlong t types frame.scope [.call id callee args] =
      [⟨frame.scope, .call id callee args⟩] := rfl
  cases h
  refine ⟨?_, scope_addCall .., ?_, ?_, ?_, ?_, by simp⟩
  · simp [hvisits, serve, hcalled]
  · simp [hvisits, Visit.Granted, hcalled]
  · intro x type hx
    rwa [localScope_addCall]
  · cases s.result <;> rfl
  · simp [hvisits]

theorem meets_of_meet {d : Demand} (h : frame.meet t types d = .ok after) :
    frame.Meets t types [d] after := by
  cases d with
  | declare id x init => exact meets_declare h
  | ownSlot id x => exact meets_ownSlot h
  | visible x => exact meets_visible h
  | constant id value => exact meets_constant h
  | call id callee args => exact meets_call h

end Step

section Run

variable {t : SymbolTable} {types : Table NodeId Ty} {frame middle after : Frame}

theorem Meets.nil (frame : Frame) : frame.Meets t types [] frame :=
  ⟨rfl, rfl, by simp [visitsAlong], fun _ _ h => h, rfl, by simp [visitsAlong], by simp⟩

theorem Meets.isSome_scope {ds : List Demand} (h : frame.Meets t types ds after) {x : String}
    (hx : (frame.scope x).isSome) : (after.scope x).isSome := by
  rw [Frame.isSome_scope] at hx ⊢
  rw [h.globals_eq]
  refine hx.imp_left ?_
  intro hlocal
  obtain ⟨type, htype⟩ := Option.isSome_iff_exists.mp hlocal
  rw [h.keeps x type htype]
  rfl

theorem Meets.cons {d : Demand} {ds : List Demand} (hd : frame.Meets t types [d] middle)
    (hds : middle.Meets t types ds after) : frame.Meets t types (d :: ds) after := by
  have hscope : middle.scope = d.scopeAfter t types frame.scope := hd.scope_eq
  have hmiddle : middle = (d.visits t types frame.scope).foldl (serve t) frame := by
    simpa [visitsAlong] using hd.eq_foldl
  have hvisits : visitsAlong t types frame.scope (d :: ds) =
      d.visits t types frame.scope ++ visitsAlong t types middle.scope ds := by
    rw [visitsAlong, hscope]
  have hgranted := hd.granted
  have hdeclares := hd.declares
  simp only [visitsAlong, List.append_nil] at hgranted hdeclares
  refine ⟨?_, ?_, ?_, ?_, hds.globals_eq.trans hd.globals_eq, ?_, ?_⟩
  · rw [hvisits, List.foldl_append, ← hmiddle]
    exact hds.eq_foldl
  · rw [hds.scope_eq, hscope, scopeAlong]
  · intro v hv
    rw [hvisits, List.mem_append] at hv
    exact hv.elim (hgranted v) (hds.granted v)
  · intro x type hx
    exact hds.keeps x type (hd.keeps x type hx)
  · intro σ x type hv
    rw [hvisits, List.mem_append] at hv
    obtain hv | hv := hv
    · -- a declaration that was met has a type, and the later demands keep it
      obtain ⟨known, hknown⟩ := Option.isSome_iff_exists.mp (hgranted _ hv).1
      have hlocal := hdeclares σ x type hv
      rw [hknown] at hlocal ⊢
      exact hds.keeps x known hlocal
    · exact hds.declares σ x type hv
  · intro x hx
    obtain hx | hx := List.mem_cons.mp hx
    · exact hds.isSome_scope (hd.visible x (List.mem_singleton.mpr hx))
    · exact hds.visible x hx

/-- Demands that were all met did to the frame what the walk along them says. -/
theorem meets_of_foldlM {ds : List Demand} (h : ds.foldlM (meet t types) frame = .ok after) :
    frame.Meets t types ds after := by
  induction ds generalizing frame with
  | nil =>
      cases h
      exact Meets.nil _
  | cons d ds ih =>
      rw [List.foldlM_cons] at h
      obtain ⟨middle, hd, hds⟩ := bind_eq_ok.mp h
      exact (meets_of_meet hd).cons (ih hds)

end Run

/-- The frame in which the walk over a body starts. -/
def start (globals : Scope) (f : FunctionDecl NodeId) : Frame :=
  { function := f.name, result := f.result, params := f.params, globals := globals }

theorem scope_start (globals : Scope) (f : FunctionDecl NodeId) :
    (start globals f).scope = f.startScope globals := by
  have hlocal : (start globals f).localScope = Scope.empty.insertAll f.params := rfl
  rw [scope, FunctionDecl.startScope]
  rw [hlocal, Scope.insertAll_orElse, Scope.empty_orElse]
  rfl

theorem enter_eq_ok {globals : Scope} {f : FunctionDecl NodeId} {frame : Frame}
    (h : enter globals f = .ok frame) :
    frame = start globals f ∧ ∀ p ∈ f.params, isReserved p.name = false := by
  rw [enter] at h
  split at h
  · cases h
  · rename_i hnone
    refine ⟨(Except.ok.inj h).symm, ?_⟩
    intro p hp
    simpa using List.find?_eq_none.mp hnone p hp

theorem serve_fixed (t : SymbolTable) (frame : Frame) (v : Visit) :
    (frame.serve t v).function = frame.function ∧ (frame.serve t v).result = frame.result ∧
      (frame.serve t v).params = frame.params ∧ (frame.serve t v).globals = frame.globals := by
  simp only [serve, addCall]
  repeat' split
  all_goals exact ⟨rfl, rfl, rfl, rfl⟩

theorem foldl_serve_fixed (t : SymbolTable) (frame : Frame) (vs : List Visit) :
    (vs.foldl (serve t) frame).function = frame.function ∧
      (vs.foldl (serve t) frame).result = frame.result ∧
      (vs.foldl (serve t) frame).params = frame.params ∧
      (vs.foldl (serve t) frame).globals = frame.globals := by
  induction vs generalizing frame with
  | nil => exact ⟨rfl, rfl, rfl, rfl⟩
  | cons v vs ih =>
      obtain ⟨hfunction, hresult, hparams, hglobals⟩ := serve_fixed t frame v
      obtain ⟨ifunction, iresult, iparams, iglobals⟩ := ih (frame.serve t v)
      exact ⟨ifunction.trans hfunction, iresult.trans hresult, iparams.trans hparams,
        iglobals.trans hglobals⟩

end Frame

/-- What is known about the frame of a function. -/
structure FunctionDecl.Framed (t : SymbolTable) (types : Table NodeId Ty) (globals : Scope)
    (f : FunctionDecl NodeId) (frame : Frame) : Prop where
  eq_foldl : frame = (f.visits t types globals).foldl (Frame.serve t) (Frame.start globals f)
  granted : ∀ v ∈ f.visits t types globals, v.Granted t
  declares : ∀ σ x type, ⟨σ, .declare x type⟩ ∈ f.visits t types globals →
    frame.localScope x = type
  visible : ∀ x ∈ Stmt.namesAll f.body, (frame.scope x).isSome
  param_free : ∀ p ∈ f.params, isReserved p.name = false
  function_eq : frame.function = f.name
  result_eq : frame.result = f.result
  params_eq : frame.params = f.params
  globals_eq : frame.globals = globals

theorem FunctionDecl.framed_of_frame {t : SymbolTable} {types : Table NodeId Ty}
    {globals : Scope} {f : FunctionDecl NodeId} {frame : Frame}
    (h : f.frame t types globals = .ok frame) : f.Framed t types globals frame := by
  rw [FunctionDecl.frame] at h
  obtain ⟨entered, henter, hmeet⟩ := bind_eq_ok.mp h
  obtain ⟨rfl, hfree⟩ := Frame.enter_eq_ok henter
  have hmeets := Frame.meets_of_foldlM hmeet
  have hvisits : visitsAlong t types (Frame.start globals f).scope (Stmt.demandsAll f.body) =
      f.visits t types globals := by
    rw [Frame.scope_start, Stmt.visitsAlong_demandsAll, FunctionDecl.visits]
  have heq := hmeets.eq_foldl
  have hgranted := hmeets.granted
  have hdeclares := hmeets.declares
  rw [hvisits] at heq hgranted hdeclares
  have hfixed := Frame.foldl_serve_fixed t (Frame.start globals f) (f.visits t types globals)
  rw [← heq] at hfixed
  exact {
    eq_foldl := heq
    granted := hgranted
    declares := hdeclares
    visible := fun x hx => hmeets.visible x (Stmt.visible_mem_demandsAll f.body hx)
    param_free := hfree
    function_eq := hfixed.1
    result_eq := hfixed.2.1
    params_eq := hfixed.2.2.1
    globals_eq := hfixed.2.2.2 }

end Mis
