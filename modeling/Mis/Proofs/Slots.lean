import Mis.Proofs.Frame
import Mis.Proofs.Symbols

/-!
Lowering finds every slot that it asks for. What a frame gives out it keeps: a
later demand for the same label puts another slot in the place of the first, and
never takes one away. So nothing is assumed here about the labels of a body,
which may repeat, nor about the tables that the frame was made with.
-/
namespace Mis

namespace Frame

/-- What lowering looks up for a demand is there. -/
def Holds (frame : Frame) : Demand → Prop
  | .declare _ _ _ | .visible _ => True
  | .ownSlot id _ => (frame.ownSlots.get? id).isSome
  | .constant id _ => (frame.valueSlots.get? id).isSome
  | .call id callee _ => (frame.calledNames.get? id).isSome ∧ callee.name?.isSome

/-- Whatever `frame` has an entry for, `after` has one for. -/
structure Keeps (frame after : Frame) : Prop where
  value : ∀ id, (frame.valueSlots.get? id).isSome → (after.valueSlots.get? id).isSome
  called : ∀ id, (frame.calledNames.get? id).isSome → (after.calledNames.get? id).isSome
  own : ∀ id, (frame.ownSlots.get? id).isSome → (after.ownSlots.get? id).isSome

section Step

variable {t : SymbolTable} {types : Table NodeId Ty} {frame middle after : Frame}

theorem isSome_get?_insert {α : Type} (table : Table NodeId α) (k id : NodeId) (a : α)
    (h : (table.get? id).isSome) : ((table.insert k a).get? id).isSome := by
  rw [Table.get?_insert]
  split
  · rfl
  · exact h

theorem Keeps.refl (frame : Frame) : frame.Keeps frame :=
  ⟨fun _ h => h, fun _ h => h, fun _ h => h⟩

theorem Keeps.trans (h : frame.Keeps middle) (h' : middle.Keeps after) : frame.Keeps after :=
  ⟨fun id hid => h'.value id (h.value id hid), fun id hid => h'.called id (h.called id hid),
    fun id hid => h'.own id (h.own id hid)⟩

theorem Holds.keep {d : Demand} (h : frame.Holds d) (hkeeps : frame.Keeps after) :
    after.Holds d := by
  cases d with
  | declare _ _ _ | visible _ => trivial
  | ownSlot id _ => exact hkeeps.own id h
  | constant id _ => exact hkeeps.value id h
  | call id _ _ => exact ⟨hkeeps.called id h.1, h.2⟩

theorem keeps_addCall (frame : Frame) (id : NodeId) (name : String) (result : Option Ty) :
    frame.Keeps (frame.addCall id name result) := by
  cases result with
  | none => exact ⟨fun _ h => h, fun _ => isSome_get?_insert _ _ _ _, fun _ h => h⟩
  | some type =>
      exact ⟨fun _ => isSome_get?_insert _ _ _ _, fun _ => isSome_get?_insert _ _ _ _,
        fun _ h => h⟩

theorem isSome_calledNames_addCall (frame : Frame) (id : NodeId) (name : String)
    (result : Option Ty) : ((frame.addCall id name result).calledNames.get? id).isSome := by
  cases result <;> simp [addCall]

/-- A demand that is met is held, and nothing that was there is lost. -/
theorem holds_of_meet {d : Demand} (h : frame.meet t types d = .ok after) :
    after.Holds d ∧ frame.Keeps after := by
  cases d with
  | declare id x init =>
      obtain ⟨type, _, hdeclare⟩ := meet_declare_eq_ok h
      obtain ⟨_, ⟨_, rfl⟩ | ⟨_, rfl⟩⟩ := declare_eq_ok hdeclare
      · exact ⟨trivial, Keeps.refl _⟩
      · exact ⟨trivial, fun _ h => h, fun _ h => h, fun _ h => h⟩
  | ownSlot id x =>
      simp only [meet] at h
      split at h
      · cases h
        exact ⟨by simp [Holds], fun _ h => h, fun _ h => h, fun _ => isSome_get?_insert _ _ _ _⟩
      · cases h
  | visible x =>
      simp only [meet] at h
      split at h
      · cases h
        exact ⟨trivial, Keeps.refl _⟩
      · cases h
  | constant id value =>
      cases h
      exact ⟨by simp [Holds], fun _ => isSome_get?_insert _ _ _ _, fun _ h => h, fun _ h => h⟩
  | call id callee args =>
      obtain ⟨s, hs, h⟩ := bind_eq_ok.mp h
      cases h
      obtain ⟨x, _, hname, _⟩ := calledSymbol_eq_ok (mapError_eq_ok.mp hs)
      exact ⟨⟨isSome_calledNames_addCall .., by rw [hname]; rfl⟩, keeps_addCall ..⟩

theorem holds_of_foldlM {ds : List Demand} (h : ds.foldlM (meet t types) frame = .ok after) :
    (∀ d ∈ ds, after.Holds d) ∧ frame.Keeps after := by
  induction ds generalizing frame with
  | nil =>
      cases h
      exact ⟨by simp, Keeps.refl _⟩
  | cons d ds ih =>
      rw [List.foldlM_cons] at h
      obtain ⟨middle, hd, hds⟩ := bind_eq_ok.mp h
      obtain ⟨hheld, hkeeps⟩ := holds_of_meet hd
      obtain ⟨hall, hrest⟩ := ih hds
      exact ⟨List.forall_mem_cons.mpr ⟨hheld.keep hrest, hall⟩, hkeeps.trans hrest⟩

end Step

end Frame

theorem FunctionDecl.holds_of_frame {t : SymbolTable} {types : Table NodeId Ty} {globals : Scope}
    {f : FunctionDecl NodeId} {frame : Frame} (h : f.frame t types globals = .ok frame) :
    ∀ d ∈ Stmt.demandsAll f.body, frame.Holds d := by
  obtain ⟨_, _, hmeet⟩ := bind_eq_ok.mp h
  exact (Frame.holds_of_foldlM hmeet).1

/-- The computation does not stop for want of a slot. -/
def FindsSlots {α : Type} (x : Except GenerateError α) : Prop :=
  ∀ id, x ≠ .error (.noSlot id)

namespace FindsSlots

variable {α β : Type} {x : Except GenerateError α} {f : α → Except GenerateError β}

theorem ok (a : α) : FindsSlots (.ok a) := by
  intro id h
  cases h

theorem bind (hx : FindsSlots x) (hf : ∀ a, FindsSlots (f a)) : FindsSlots (x >>= f) := by
  intro id h
  obtain h | ⟨a, _, h⟩ := bind_eq_error.mp h
  · exact hx id h
  · exact hf a id h

theorem mapM {xs : List β} {g : β → Except GenerateError α} (h : ∀ b ∈ xs, FindsSlots (g b)) :
    FindsSlots (xs.mapM g) := by
  induction xs with
  | nil => exact .ok []
  | cons b xs ih =>
      rw [List.mapM_cons]
      refine .bind (h b List.mem_cons_self) fun a => ?_
      exact .bind (ih fun c hc => h c (List.mem_cons_of_mem _ hc)) fun _ => .ok _

end FindsSlots

section Lowering

variable {frame : Frame}

theorem Frame.findsSlots_slotOf {e : Expr NodeId} (hname : e.name? = none)
    (h : ∀ d ∈ e.demands, frame.Holds d) : FindsSlots (frame.slotOf e) := by
  intro id herror
  rw [Frame.slotOf] at herror
  cases e with
  | literal i v =>
      obtain ⟨slot, hslot⟩ := Option.isSome_iff_exists.mp (h _ (List.mem_singleton_self _))
      rw [Expr.id, hslot] at herror
      cases herror
  | name i x => cases hname
  | call i callee args =>
      -- a call without a slot is void, and it has a name to say so
      obtain ⟨f, hf⟩ := Option.isSome_iff_exists.mp (h _ List.mem_cons_self).2
      rw [Expr.calleeName?, hf] at herror
      split at herror <;> cases herror

theorem Frame.findsSlots_valueOf {e : Expr NodeId} (h : ∀ d ∈ e.demands, frame.Holds d) :
    FindsSlots (frame.valueOf e) := by
  cases e with
  | name i x => exact .ok _
  | literal _ _ | call _ _ _ => exact .bind (findsSlots_slotOf rfl h) fun _ => .ok _

theorem Frame.findsSlots_addressOf {e : Expr NodeId} (h : ∀ d ∈ e.demands, frame.Holds d) :
    FindsSlots (frame.addressOf e) := by
  cases e with
  | name i x => exact .ok _
  | literal _ _ | call _ _ _ => exact .bind (findsSlots_slotOf rfl h) fun _ => .ok _

theorem Expr.mem_demandsAll {d : Demand} {es : List (Expr NodeId)} :
    d ∈ Expr.demandsAll es ↔ ∃ e ∈ es, d ∈ e.demands := by
  induction es with
  | nil => simp [Expr.demandsAll]
  | cons e es ih => simp [Expr.demandsAll, ih]

theorem Frame.findsSlots_calleeOf {id : NodeId} {callee : Expr NodeId} {args : List (Expr NodeId)}
    (h : frame.Holds (.call id callee args)) : FindsSlots (frame.calleeOf id) := by
  obtain ⟨f, hf⟩ := Option.isSome_iff_exists.mp h.1
  rw [Frame.calleeOf, hf]
  exact .ok f

mutual

theorem Expr.findsSlots_lowerCalls :
    ∀ e : Expr NodeId, (∀ d ∈ e.demands, frame.Holds d) → FindsSlots (e.lowerCalls frame)
  | .literal _ _, _ | .name _ _, _ => .ok []
  | .call id callee args, h => by
      have hargs : ∀ d ∈ Expr.demandsAll args, frame.Holds d := fun d hd =>
        h d (List.mem_cons_of_mem _ hd)
      have hoperands : ∀ e ∈ args, FindsSlots (frame.addressOf e) := fun e he =>
        Frame.findsSlots_addressOf fun d hd => hargs d (Expr.mem_demandsAll.mpr ⟨e, he, hd⟩)
      exact .bind (Expr.findsSlots_lowerCallsAll args hargs) fun _ =>
        .bind (.mapM hoperands) fun _ =>
          .bind (Frame.findsSlots_calleeOf (h _ List.mem_cons_self)) fun _ => .ok _

theorem Expr.findsSlots_lowerCallsAll :
    ∀ es : List (Expr NodeId), (∀ d ∈ Expr.demandsAll es, frame.Holds d) →
      FindsSlots (Expr.lowerCallsAll frame es)
  | [], _ => .ok []
  | e :: es, h => by
      obtain ⟨he, hes⟩ := List.forall_mem_append.mp h
      exact .bind (Expr.findsSlots_lowerCalls e he) fun _ =>
        .bind (Expr.findsSlots_lowerCallsAll es hes) fun _ => .ok _

end

theorem findsSlots_lowerTarget {id : NodeId} {storage : Storage} {x : String} {init : Expr NodeId}
    (h : ∀ d ∈ (Stmt.declare id storage x init).demands, frame.Holds d) :
    FindsSlots (lowerTarget frame id storage init) := by
  cases storage with
  | shared => exact Frame.findsSlots_addressOf fun d hd => h d (List.mem_cons_of_mem _ hd)
  | own =>
      have hown : frame.Holds (.ownSlot id x) :=
        h _ (List.mem_append_right _ (List.mem_singleton_self _))
      obtain ⟨slot, hslot⟩ := Option.isSome_iff_exists.mp hown
      rw [lowerTarget, Frame.ownSlotOf, hslot]
      exact .ok _

theorem Stmt.mem_demands_init {id : NodeId} {storage : Storage} {x : String} {init : Expr NodeId}
    {d : Demand} (h : d ∈ init.demands) : d ∈ (Stmt.declare id storage x init).demands := by
  cases storage with
  | shared => exact List.mem_cons_of_mem _ h
  | own => exact List.mem_append_left _ (List.mem_cons_of_mem _ h)

mutual

theorem Stmt.findsSlots_lower :
    ∀ s : Stmt NodeId, (∀ d ∈ s.demands, frame.Holds d) → FindsSlots (s.lower frame)
  | .declare id storage x init, h => by
      have hinit : ∀ d ∈ init.demands, frame.Holds d := fun d hd => h d (Stmt.mem_demands_init hd)
      exact .bind (init.findsSlots_lowerCalls hinit) fun _ =>
        .bind (findsSlots_lowerTarget h) fun _ =>
          .bind (Frame.findsSlots_valueOf hinit) fun _ => .ok _
  | .assign _ x e, h => by
      have he : ∀ d ∈ e.demands, frame.Holds d := fun d hd => h d (List.mem_cons_of_mem _ hd)
      exact .bind (e.findsSlots_lowerCalls he) fun _ =>
        .bind (Frame.findsSlots_valueOf he) fun _ => .ok _
  | .branch _ c yes none, h => by
      obtain ⟨hc, hyes⟩ := List.forall_mem_append.mp h
      exact .bind (c.findsSlots_lowerCalls hc) fun _ =>
        .bind (Stmt.findsSlots_lowerAll yes hyes) fun _ =>
          .bind (Frame.findsSlots_valueOf hc) fun _ => .ok _
  | .branch _ c yes (some no), h => by
      obtain ⟨hfirst, hno⟩ := List.forall_mem_append.mp h
      obtain ⟨hc, hyes⟩ := List.forall_mem_append.mp hfirst
      exact .bind (c.findsSlots_lowerCalls hc) fun _ =>
        .bind (Stmt.findsSlots_lowerAll yes hyes) fun _ =>
          .bind (Stmt.findsSlots_lowerAll no hno) fun _ =>
            .bind (Frame.findsSlots_valueOf hc) fun _ => .ok _
  | .loop _ c body, h => by
      obtain ⟨hc, hbody⟩ := List.forall_mem_append.mp h
      exact .bind (c.findsSlots_lowerCalls hc) fun _ =>
        .bind (Frame.findsSlots_valueOf hc) fun _ =>
          .bind (Stmt.findsSlots_lowerAll body hbody) fun _ => .ok _
  | .leave _ none, _ => .ok _
  | .leave _ (some e), h => by
      rw [Stmt.lower]
      split
      · intro id herror
        cases herror
      · exact .bind (e.findsSlots_lowerCalls h) fun _ =>
          .bind (Frame.findsSlots_valueOf h) fun _ => .ok _
  | .call _ e, h => e.findsSlots_lowerCalls h

theorem Stmt.findsSlots_lowerAll :
    ∀ ss : List (Stmt NodeId), (∀ d ∈ Stmt.demandsAll ss, frame.Holds d) →
      FindsSlots (Stmt.lowerAll frame ss)
  | [], _ => .ok []
  | s :: ss, h => by
      obtain ⟨hs, hss⟩ := List.forall_mem_append.mp h
      exact .bind (Stmt.findsSlots_lower s hs) fun _ =>
        .bind (Stmt.findsSlots_lowerAll ss hss) fun _ => .ok _

end

end Lowering

end Mis
