import Mis.Proofs.Parts
import Mis.Proofs.Slots

/-!
Generation never stops for want of a slot. Planning the storage of a function and
lowering its body are two passes over the same tree, and the tables between them
are kept by label. Every literal, every call and every `::=` of a body, at any
depth, finds its entry, whatever labels the nodes have.
-/
namespace Mis

/-! What the parts of a body demand is among what the body demands. -/

theorem Stmt.mem_demands_of_mem_exprs {s : Stmt NodeId} {e : Expr NodeId} (he : e ∈ s.exprs)
    {d : Demand} (hd : d ∈ e.demands) : d ∈ s.demands := by
  cases s with
  | declare i storage x init =>
      rw [List.mem_singleton.mp he] at hd
      exact Stmt.mem_demands_init hd
  | assign i x value =>
      rw [List.mem_singleton.mp he] at hd
      exact List.mem_cons_of_mem _ hd
  | branch i c yes no =>
      rw [List.mem_singleton.mp he] at hd
      cases no with
      | none => exact List.mem_append_left _ hd
      | some no => exact List.mem_append_left _ (List.mem_append_left _ hd)
  | loop i c body =>
      rw [List.mem_singleton.mp he] at hd
      exact List.mem_append_left _ hd
  | leave i value =>
      cases value with
      | none => cases he
      | some value =>
          rw [List.mem_singleton.mp he] at hd
          exact hd
  | call i value =>
      rw [List.mem_singleton.mp he] at hd
      exact hd

section Parts

variable {frame : Frame}

theorem Frame.Holds.exists_name {id : NodeId} {callee : Expr NodeId} {args : List (Expr NodeId)}
    (h : frame.Holds (.call id callee args)) : ∃ i x, callee = .name i x := by
  cases callee with
  | name i x => exact ⟨i, x, rfl⟩
  | literal _ _ | call _ _ _ => cases h.2

mutual

/-- A callee demands nothing of its own, since it is a name. -/
theorem Expr.mem_demands_of_mem_parts {a : Expr NodeId} {d : Demand} (hd : d ∈ a.demands)
    (ha : a.name? = none) :
    ∀ e : Expr NodeId, (∀ d ∈ e.demands, frame.Holds d) → a ∈ e.parts → d ∈ e.demands
  | .literal _ _, _, hmem | .name _ _, _, hmem => by
      rw [List.mem_singleton.mp hmem] at hd
      exact hd
  | .call i callee args, h, hmem => by
      obtain rfl | hmem := List.mem_cons.mp hmem
      · exact hd
      · obtain ⟨j, x, rfl⟩ := (h _ List.mem_cons_self).exists_name
        obtain hmem | hmem := List.mem_append.mp hmem
        · rw [List.mem_singleton.mp hmem] at ha
          cases ha
        · refine List.mem_cons_of_mem _ (Expr.mem_demandsAll_of_mem_partsAll hd ha args ?_ hmem)
          exact fun d hd => h d (List.mem_cons_of_mem _ hd)

theorem Expr.mem_demandsAll_of_mem_partsAll {a : Expr NodeId} {d : Demand} (hd : d ∈ a.demands)
    (ha : a.name? = none) :
    ∀ es : List (Expr NodeId), (∀ d ∈ Expr.demandsAll es, frame.Holds d) →
      a ∈ Expr.partsAll es → d ∈ Expr.demandsAll es
  | [], _, hmem => by cases hmem
  | e :: es, h, hmem => by
      obtain ⟨he, hes⟩ := List.forall_mem_append.mp h
      refine List.mem_append.mpr ?_
      exact (List.mem_append.mp hmem).imp (Expr.mem_demands_of_mem_parts hd ha e he)
        (Expr.mem_demandsAll_of_mem_partsAll hd ha es hes)

end

end Parts

namespace FunctionDecl

variable {t : SymbolTable} {types : Table NodeId Ty} {globals : Scope} {f : FunctionDecl NodeId}
  {frame : Frame}

/-- The frame of a function holds what any of its expressions demands. -/
theorem holds_of_mem_exprs (h : f.frame t types globals = .ok frame) {e : Expr NodeId}
    (he : e ∈ f.exprs) (hname : e.name? = none) {d : Demand} (hd : d ∈ e.demands) :
    frame.Holds d := by
  have hbody := holds_of_frame h
  obtain ⟨s, hs, root, hroot, he⟩ := mem_exprs.mp he
  have hdemanded : ∀ d ∈ root.demands, d ∈ Stmt.demandsAll f.body := by
    intro d hd
    exact Stmt.mem_demandsAll_of_mem_partsAll (Stmt.mem_demands_of_mem_exprs hroot hd) f.body hs
  have hheld : ∀ d ∈ root.demands, frame.Holds d := fun d hd => hbody d (hdemanded d hd)
  exact hheld d (Expr.mem_demands_of_mem_parts hd hname root hheld he)

theorem isSome_ownSlots_of_mem_parts (h : f.frame t types globals = .ok frame) {id : NodeId}
    {x : String} {init : Expr NodeId} (hs : .declare id .own x init ∈ Stmt.partsAll f.body) :
    (frame.ownSlots.get? id).isSome := by
  have hdemand : Demand.ownSlot id x ∈ (Stmt.declare id .own x init).demands :=
    List.mem_append_right _ (List.mem_singleton_self _)
  exact holds_of_frame h _ (Stmt.mem_demandsAll_of_mem_partsAll hdemand f.body hs)

end FunctionDecl

/-! The other stages of generation ask for no slot. -/

namespace FindsSlots

theorem mapError_semantic {α : Type} (x : Except SemanticError α) :
    FindsSlots (x.mapError GenerateError.semantic) := by
  intro id h
  obtain ⟨e, _, he⟩ := mapError_eq_error.mp h
  cases he

theorem foldlM {S A : Type} {step : S → A → Except GenerateError S}
    (h : ∀ s a, FindsSlots (step s a)) (as : List A) (s : S) : FindsSlots (as.foldlM step s) := by
  induction as generalizing s with
  | nil => exact .ok s
  | cons a as ih =>
      rw [List.foldlM_cons]
      exact .bind (h s a) ih

end FindsSlots

section Generate

variable {t : SymbolTable} {types : Table NodeId Ty} {globals : Scope}

theorem Frame.findsSlots_enter (f : FunctionDecl NodeId) : FindsSlots (Frame.enter globals f) := by
  intro id h
  rw [Frame.enter] at h
  split at h <;> cases h

theorem Frame.findsSlots_declare (frame : Frame) (x : String) (type : Ty) :
    FindsSlots (frame.declare x type) := by
  intro id h
  rw [Frame.declare] at h
  split at h
  · cases h
  · split at h
    · split at h <;> cases h
    · cases h

theorem Frame.findsSlots_meet (frame : Frame) (d : Demand) :
    FindsSlots (frame.meet t types d) := by
  cases d with
  | declare id x init =>
      simp only [Frame.meet]
      cases types.get? id with
      | some type => exact findsSlots_declare frame x type
      | none => exact .bind (.mapError_semantic _) fun type => findsSlots_declare frame x type
  | ownSlot _ x | visible x =>
      simp only [Frame.meet]
      split
      · exact .ok _
      · intro id h
        cases h
  | constant id value => exact .ok _
  | call id callee args => exact .bind (.mapError_semantic _) fun _ => .ok _

theorem FunctionDecl.findsSlots_frame (f : FunctionDecl NodeId) :
    FindsSlots (f.frame t types globals) :=
  .bind (Frame.findsSlots_enter f) fun frame => .foldlM Frame.findsSlots_meet _ frame

theorem FunctionDecl.findsSlots_generate (f : FunctionDecl NodeId) :
    FindsSlots (f.generate t types globals) := by
  intro id h
  obtain h | ⟨frame, hframe, h⟩ := bind_eq_error.mp h
  · exact f.findsSlots_frame id h
  · have hlower := Stmt.findsSlots_lowerAll f.body (f.holds_of_frame hframe)
    exact FindsSlots.bind hlower (fun _ => .ok _) id h

theorem Decl.findsSlots_generate (d : Decl NodeId) : FindsSlots (d.generate t types globals) := by
  cases d with
  | function f =>
      rw [Decl.generate]
      split
      · exact .ok none
      · split
        · intro id h
          cases h
        · exact .bind f.findsSlots_generate fun _ => .ok _
  | struct s => exact .ok _
  | constant c => exact .ok none

theorem ConstantDecl.findsSlots_generate {ι : Type} (c : ConstantDecl ι) :
    FindsSlots c.generate := by
  intro id h
  rw [ConstantDecl.generate] at h
  split at h <;> cases h

theorem findsSlots_orderDefinitions (structs : List C.Struct) :
    FindsSlots (orderDefinitions structs) := by
  intro id h
  rw [orderDefinitions] at h
  split at h <;> cases h

theorem Module.findsSlots_entry {ι : Type} (m : Module ι) : FindsSlots (m.entry t) := by
  intro id h
  rw [Module.entry] at h
  split at h <;> cases h

theorem TypedModule.findsSlots_generate (typed : TypedModule) : FindsSlots (typed.generate t) := by
  rw [TypedModule.generate_eq]
  exact .bind (.mapM fun c _ => c.findsSlots_generate) fun _ =>
    .bind (.mapM fun d _ => d.findsSlots_generate) fun _ =>
      .bind (findsSlots_orderDefinitions _) fun _ =>
        .bind (Module.findsSlots_entry _) fun _ => .ok _

end Generate

/-- No module fails for want of a slot, whatever its labels and the symbol table. In the frame of
a function every literal has a slot, every call has a name for its callee and a callee that is a
name, and every `::=` has a slot of its own. -/
theorem TypedModule.lookups_succeed (t : SymbolTable) (typed : TypedModule) :
    (∀ id, typed.generate t ≠ .error (.noSlot id)) ∧
    ∀ (globals : Scope) (f : FunctionDecl NodeId) (frame : Frame),
      f.frame t typed.types globals = .ok frame →
      (∀ id value, .literal id value ∈ f.exprs → (frame.valueSlots.get? id).isSome) ∧
      (∀ id callee args, .call id callee args ∈ f.exprs →
        (frame.calledNames.get? id).isSome ∧ ∃ i x, callee = .name i x) ∧
      ∀ id x init, .declare id .own x init ∈ Stmt.partsAll f.body →
        (frame.ownSlots.get? id).isSome := by
  refine ⟨typed.findsSlots_generate, ?_⟩
  intro globals f frame h
  refine ⟨?_, ?_, fun id x init hs => FunctionDecl.isSome_ownSlots_of_mem_parts h hs⟩
  · intro id value he
    exact FunctionDecl.holds_of_mem_exprs h he rfl
      (List.mem_singleton_self (Demand.constant id value))
  · intro id callee args he
    have hcall : frame.Holds (.call id callee args) :=
      FunctionDecl.holds_of_mem_exprs h he rfl List.mem_cons_self
    exact ⟨hcall.1, hcall.exists_name⟩

/-- The statements `x ::= plusInt(1, 2)` and `printInt(x)` with one label for all nodes. -/
def alike : FunctionDecl NodeId where
  name := "start"
  params := []
  result := none
  body :=
    [.declare 0 .own "x" (.call 0 (.name 0 "plusInt")
       [.literal 0 (.int 1), .literal 0 (.int 2)]),
     .call 0 (.call 0 (.name 0 "printInt") [.name 0 "x"])]

def alikeModule : Module NodeId := ⟨[], [.function alike]⟩

/-- Each table has one entry, the last that was made, and every look-up finds it. -/
theorem alike_lookups_succeed :
    ∃ typed frame, alikeModule.typed alikeModule.symbolTable = .ok typed ∧
      alike.frame alikeModule.symbolTable typed.types Scope.empty = .ok frame ∧
      (∀ id, typed.generate alikeModule.symbolTable ≠ .error (.noSlot id)) ∧
      (frame.valueSlots.get? 0).isSome ∧ (frame.calledNames.get? 0).isSome ∧
      (frame.ownSlots.get? 0).isSome := by
  have htyped : alikeModule.typed alikeModule.symbolTable = .ok ⟨alikeModule, ⟨[(0, .int)]⟩⟩ := by
    rfl
  obtain ⟨frame, hframe⟩ := exists_eq_ok
    (x := alike.frame alikeModule.symbolTable ⟨[(0, .int)]⟩ Scope.empty) (by decide +kernel)
  obtain ⟨hgenerate, hlookups⟩ :=
    TypedModule.lookups_succeed alikeModule.symbolTable ⟨alikeModule, ⟨[(0, .int)]⟩⟩
  obtain ⟨hliterals, hcalls, howns⟩ := hlookups Scope.empty alike frame hframe
  have hliteral : .literal 0 (.int 2) ∈ alike.exprs := by
    simp [FunctionDecl.exprs, alike, Stmt.partsAll, Stmt.parts, Stmt.exprs, Expr.parts,
      Expr.partsAll]
  have hcall : .call 0 (.name 0 "printInt") [.name 0 "x"] ∈ alike.exprs := by
    simp [FunctionDecl.exprs, alike, Stmt.partsAll, Stmt.parts, Stmt.exprs, Expr.parts,
      Expr.partsAll]
  exact ⟨_, frame, htyped, hframe, hgenerate, hliterals 0 _ hliteral, (hcalls 0 _ _ hcall).1,
    howns 0 "x" _ List.mem_cons_self⟩

end Mis
