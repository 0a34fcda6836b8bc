import Mis.Proofs.Capture
import Mis.Proofs.ExternalNames
import Mis.Proofs.Parts

/-!
The locals of a C function. Variables, temporaries and constants share one space
of names with the parameters. The walk over a body declares a variable once and
counts the rest, and no variable or parameter has a name of the counted kind, so
all names are distinct. A variable that is declared again keeps its type. None of
this needs the labels of the body to be distinct.
-/
namespace Mis

/-- A name in the scope has the type of an entry for it, unless there is none. -/
theorem Scope.mem_of_insertAll {σ : Scope} {xs : List TypedName} {x : String} {T : Ty}
    (h : σ.insertAll xs x = some T) :
    ⟨x, T⟩ ∈ xs ∨ x ∉ xs.map (·.name) ∧ σ x = some T := by
  induction xs generalizing σ with
  | nil => exact .inr ⟨List.not_mem_nil, h⟩
  | cons y ys ih =>
      have hstep : (σ.insert y.name y.type).insertAll ys x = some T := h
      obtain hmem | ⟨hnot, hσ⟩ := ih hstep
      · exact .inl (List.mem_cons_of_mem _ hmem)
      · rw [Scope.insert] at hσ
        by_cases hx : x = y.name
        · rw [if_pos hx] at hσ
          cases hσ
          exact .inl (hx ▸ List.mem_cons_self)
        · rw [if_neg hx] at hσ
          refine .inr ⟨?_, hσ⟩
          rw [List.map_cons, List.mem_cons, not_or]
          exact ⟨hx, hnot⟩

theorem nodup_firsts (xs : List TypedName) : ((firsts xs).map (·.name)).Nodup := by
  induction xs with
  | nil => exact List.nodup_nil
  | cons x xs ih =>
      rw [firsts, List.map_cons, List.nodup_cons]
      constructor
      · intro hx
        obtain ⟨y, hy, hname⟩ := List.mem_map.mp hx
        exact of_decide_eq_true (List.mem_filter.mp hy).2 hname
      · exact ih.sublist (List.filter_sublist.map _)

theorem Frame.Counted.nodup_slots {t : SymbolTable} {vs : List Visit} {frame : Frame}
    (h : frame.Counted t vs) : ((frame.temps ++ frame.consts).map (·.name)).Nodup := by
  rw [List.map_append, h.temps_eq, h.consts_eq, List.nodup_append]
  refine ⟨?_, ?_, ?_⟩
  · exact List.nodup_range.map fun _ _ heq => tempName_injective heq
  · exact List.nodup_range.map fun _ _ heq => constName_injective heq
  · intro a ha b hb heq
    obtain ⟨j, _, rfl⟩ := List.mem_map.mp ha
    obtain ⟨i, _, rfl⟩ := List.mem_map.mp hb
    exact tempName_ne_constName j i heq

theorem Frame.map_name_locals (frame : Frame) :
    frame.locals.map (·.name) =
      frame.declared.map (·.name) ++ (frame.temps ++ frame.consts).map (·.name) := by
  simp [Frame.locals, Function.comp_def]

namespace FunctionDecl

variable {t : SymbolTable} {types : Table NodeId Ty} {globals : Scope} {f : FunctionDecl NodeId}
  {frame : Frame}

/-- A variable has a name of its own choice that no parameter has. -/
theorem free_of_mem_declared (h : f.frame t types globals = .ok frame) {x : String}
    (hx : x ∈ frame.declared.map (·.name)) :
    isReserved x = false ∧ x ∉ f.params.map (·.name) := by
  obtain ⟨hdeclared, hparam⟩ := (name_mem_declared h).mp hx
  exact ⟨(framed_of_frame h).declared_free hdeclared, hparam⟩

theorem nodup_locals (h : f.frame t types globals = .ok frame) :
    (frame.locals.map (·.name)).Nodup := by
  have hvariables : (frame.declared.map (·.name)).Nodup := by
    rw [declared_of_frame h]
    exact nodup_firsts _
  rw [frame.map_name_locals, List.nodup_append]
  refine ⟨hvariables, (counted_of_frame h).nodup_slots, ?_⟩
  intro x hx y hy heq
  obtain ⟨slot, hslot, rfl⟩ := List.mem_map.mp hy
  have hslot : slot.name ∈ frame.slots.map (·.name) :=
    List.mem_map_of_mem (frame.mem_slots_iff.mpr (List.mem_append.mp hslot))
  have hreserved := (isReserved_of_mem_slots h hslot).1
  rw [← heq, (free_of_mem_declared h hx).1] at hreserved
  cases hreserved

/-- Locals, parameters and the result parameter have different names. -/
theorem local_ne_param (h : f.frame t types globals = .ok frame) {x : String}
    (hx : x ∈ frame.locals.map (·.name)) :
    x ∉ f.params.map (·.name) ∧ x ≠ C.resultParam := by
  obtain hx | hx := frame.name_mem_locals_iff.mp hx
  · obtain ⟨hfree, hparam⟩ := free_of_mem_declared h hx
    refine ⟨hparam, ?_⟩
    intro heq
    rw [heq, isReserved_resultParam] at hfree
    cases hfree
  · obtain ⟨hreserved, hresult⟩ := isReserved_of_mem_slots h hx
    refine ⟨?_, hresult⟩
    intro hparam
    obtain ⟨p, hp, rfl⟩ := List.mem_map.mp hparam
    rw [(framed_of_frame h).param_free p hp] at hreserved
    cases hreserved

theorem resultParam_not_mem_params (h : f.frame t types globals = .ok frame) :
    C.resultParam ∉ f.params.map (·.name) := by
  intro hparam
  obtain ⟨p, hp, hname⟩ := List.mem_map.mp hparam
  have hfree := (framed_of_frame h).param_free p hp
  rw [hname, isReserved_resultParam] at hfree
  cases hfree

/-- The declaration has this type where generation comes to it. -/
def DeclaresAs (t : SymbolTable) (types : Table NodeId Ty) (globals : Scope)
    (f : FunctionDecl NodeId) (id : NodeId) (x : String) (e : Expr NodeId) (T : Ty) : Prop :=
  ∃ before, ComesTo (Frame.meet t types) (Frame.start globals f) (Stmt.demandsAll f.body)
      (.declare id x e) before ∧
    declaredType t types before.scope id e = some T

theorem exists_declaresAs (h : f.frame t types globals = .ok frame) {id : NodeId}
    {storage : Storage} {x : String} {e : Expr NodeId}
    (hs : .declare id storage x e ∈ Stmt.partsAll f.body) :
    ∃ T, f.DeclaresAs t types globals id x e T := by
  have hdemand : .declare id x e ∈ (Stmt.declare id storage x e).demands := by
    cases storage with
    | shared | own => exact List.mem_cons_self
  obtain ⟨entered, henter, hrun⟩ := bind_eq_ok.mp h
  obtain ⟨rfl, _⟩ := Frame.enter_eq_ok henter
  obtain ⟨before, next, hcomes, hmeet⟩ :=
    exists_comesTo hrun (Stmt.mem_demandsAll_of_mem_partsAll hdemand f.body hs)
  obtain ⟨T, hT, _⟩ := Frame.meet_declare_eq_ok hmeet
  exact ⟨T, before, hcomes, hT⟩

/-- All declarations of a name have the type that the frame ends with. -/
theorem DeclaresAs.localScope_eq (hframe : f.frame t types globals = .ok frame) {id : NodeId}
    {x : String} {e : Expr NodeId} {T : Ty} (h : f.DeclaresAs t types globals id x e T) :
    frame.localScope x = some T := by
  obtain ⟨before, hcomes, hT⟩ := h
  have hv := visit_of_comesTo hcomes rfl
  rw [hT] at hv
  exact (framed_of_frame hframe).declares _ x (some T) hv

/-- The one place that a declared name has in the C function. -/
def HasPlace (f : FunctionDecl NodeId) (g : C.Function) (x : String) (T : Ty) : Prop :=
  x ∉ f.params.map (·.name) ∧ g.locals.filter (·.name = x) = [⟨x, T.pointer⟩] ∨
    x ∉ g.locals.map (·.name) ∧ Scope.empty.insertAll f.params x = some T ∧
      ⟨x, T.pointer⟩ ∈ g.prototype.params

theorem hasPlace_of_localScope {body : List C.Stmt} (h : f.frame t types globals = .ok frame)
    {x : String} {T : Ty} (hx : frame.localScope x = some T) :
    f.HasPlace ⟨f.prototype t, frame.locals, frame.initials, body⟩ x T := by
  rw [Frame.localScope, (framed_of_frame h).params_eq] at hx
  obtain hdeclared | ⟨hnot, hparam⟩ := Scope.mem_of_insertAll hx
  · refine .inl ⟨(free_of_mem_declared h (List.mem_map_of_mem hdeclared)).2, ?_⟩
    have hlocal : ⟨x, T.pointer⟩ ∈ frame.locals :=
      List.mem_append_left _ (List.mem_map.mpr ⟨_, hdeclared, rfl⟩)
    exact filter_eq_singleton (nodup_locals h) hlocal
  · have hmem : ⟨x, T⟩ ∈ f.params := by
      obtain hmem | ⟨_, hempty⟩ := Scope.mem_of_insertAll hparam
      · exact hmem
      · cases hempty
    refine .inr ⟨?_, hparam, ?_⟩
    · exact fun hlocal => (local_ne_param h hlocal).1 (List.mem_map_of_mem hmem)
    · exact List.mem_append_right _ (List.mem_map.mpr ⟨_, hmem, rfl⟩)

/-- The names in a generated function are distinct, and every declaration of a variable has the
type of the one local or parameter of its name. -/
theorem locals_collision_free {g : C.Function} (h : f.generate t types globals = .ok g) :
    (g.locals.map (·.name)).Nodup ∧
      (∀ x ∈ g.locals.map (·.name), x ∉ f.params.map (·.name) ∧
        x ∉ g.prototype.params.map (·.name) ∧ x ≠ C.resultParam) ∧
      C.resultParam ∉ f.params.map (·.name) ∧
      ∃ datatype : String → Ty, ∀ id storage x e,
        .declare id storage x e ∈ Stmt.partsAll f.body →
          (∀ T, f.DeclaresAs t types globals id x e T ↔ T = datatype x) ∧
            f.HasPlace g x (datatype x) := by
  obtain ⟨frame, body, hframe, hbody, rfl⟩ := generate_eq_ok h
  refine ⟨nodup_locals hframe, ?_, resultParam_not_mem_params hframe,
    fun x => (frame.localScope x).getD .int, ?_⟩
  · intro x hx
    obtain ⟨hparam, hresult⟩ := local_ne_param hframe hx
    refine ⟨hparam, ?_, hresult⟩
    rw [name_mem_prototype, not_or]
    exact ⟨fun heq => hresult heq.1, hparam⟩
  · intro id storage x e hs
    obtain ⟨T, hT⟩ := exists_declaresAs hframe hs
    have hscope := hT.localScope_eq hframe
    simp only [hscope, Option.getD_some]
    refine ⟨?_, hasPlace_of_localScope hframe hscope⟩
    intro T'
    constructor
    · intro hT'
      rw [hT'.localScope_eq hframe] at hscope
      exact Option.some.inj hscope
    · exact fun heq => heq ▸ hT

end FunctionDecl

theorem countUp_locals_collision_free :
    ∃ g, countUp.generate counting.symbolTable countUpTypes counting.constantScope = .ok g ∧
      (g.locals.map (·.name)).Nodup ∧
      ∃ T, countUp.DeclaresAs counting.symbolTable countUpTypes counting.constantScope 23 "y"
          (.literal 22 (.text "ten")) T ∧
        countUp.HasPlace g "y" T := by
  obtain ⟨g, hg⟩ := exists_eq_ok
    (x := countUp.generate counting.symbolTable countUpTypes counting.constantScope)
    (by decide +kernel)
  obtain ⟨hnodup, _, _, datatype, hdatatype⟩ := FunctionDecl.locals_collision_free hg
  have hs : .declare 23 .shared "y" (.literal 22 (.text "ten")) ∈ Stmt.partsAll countUp.body := by
    simp [countUp, Stmt.partsAll, Stmt.parts]
  obtain ⟨htype, hplace⟩ := hdatatype 23 .shared "y" _ hs
  exact ⟨g, hg, hnodup, datatype "y", (htype _).mpr rfl, hplace⟩

end Mis
