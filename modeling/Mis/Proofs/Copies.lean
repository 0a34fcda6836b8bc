import Mis.Proofs.Capture
import Mis.Proofs.Parts

/-!
The copy that `x ::= e` makes. Its code sets the pointer `x` to a slot of its own
and then stores the value of `e` through `x`. The value is read when `x` has
already moved, so the slot gets what `e` was before, except where `e` is `x`
itself: there the slot is copied to itself.
-/
namespace Mis

section Outcomes

variable {Exit S : Type} {P : S → Prop}

/-- Where a run has come to, `P` holds. -/
def Outcome.Ends (P : S → Prop) : Outcome Exit S → Prop
  | .done s | .left _ s => P s
  | .stuck | .running => True

theorem Outcome.Ends.andThen {o : Outcome Exit S} {next : S → Outcome Exit S} (h : o.Ends P)
    (hnext : ∀ s, P s → (next s).Ends P) : (o.andThen next).Ends P := by
  cases o with
  | done s => exact hnext s h
  | left _ _ | stuck | running => exact h

theorem C.ends_loopForever {body : S → Outcome C.Exit S} (hbody : ∀ s, P s → (body s).Ends P)
    (n : Nat) {s : S} (h : P s) : (C.loopForever body n s).Ends P := by
  induction n generalizing s with
  | zero => trivial
  | succ n ih =>
      have hround := hbody s h
      rw [C.loopForever]
      cases hout : body s with
      | done s' =>
          rw [hout] at hround
          exact ih hround
      | left exit _ =>
          rw [hout] at hround
          cases exit <;> exact hround
      | stuck | running => trivial

end Outcomes

namespace C

section Fits

variable {Addr V : Type}

/-- The variables of a state are what the function declares: slots at their homes, and pointers. -/
structure Function.Fits (g : Function) (homes : String → Addr) (s : State Addr V) : Prop where
  slot : ∀ x ∈ g.locals.map (·.name), isReserved x = true → s.vars x = .slot (homes x)
  pointer : ∀ x, ¬ (x ∈ g.locals.map (·.name) ∧ isReserved x = true) →
    ∃ target, s.vars x = .pointer target

namespace Function

variable {g : Function} {homes : String → Addr} {s s' : State Addr V}

theorem fits_entry (g : Function) (homes : String → Addr) (act : Activation Addr)
    (mem : Addr → V) : g.Fits homes ⟨g.entryVars homes act, mem⟩ where
  slot := by
    intro x hx hreserved
    simp only [entryVars, hx, hreserved, if_true]
  pointer := by
    intro x hx
    simp only [entryVars]
    by_cases hlocal : x ∈ g.locals.map (·.name)
    · have hfree : ¬ isReserved x = true := fun hreserved => hx ⟨hlocal, hreserved⟩
      exact ⟨none, by rw [if_pos hlocal, if_neg hfree]⟩
    · rw [if_neg hlocal]
      split
      · exact ⟨_, rfl⟩
      · exact ⟨_, rfl⟩

theorem Fits.store (h : g.Fits homes s) (mem : Addr → V) : g.Fits homes ⟨s.vars, mem⟩ :=
  ⟨h.slot, h.pointer⟩

theorem Fits.point (h : g.Fits homes s) {x : String} {target : Option Addr}
    (hx : s.vars x = .pointer target) (a : Addr) :
    g.Fits homes ⟨Function.update s.vars x (.pointer (some a)), s.mem⟩ where
  slot := by
    intro y hy hreserved
    have hne : y ≠ x := by
      intro heq
      have hslot := h.slot y hy hreserved
      rw [heq, hx] at hslot
      cases hslot
    simp only [Function.update_of_ne hne, h.slot y hy hreserved]
  pointer := by
    intro y hy
    by_cases heq : y = x
    · subst heq
      exact ⟨some a, Function.update_self ..⟩
    · simp only [Function.update_of_ne heq]
      exact h.pointer y hy

theorem Fits.assign [DecidableEq Addr] (h : g.Fits homes s) {dst src : Operand}
    (hassign : s.assign dst src = some s') : g.Fits homes s' := by
  cases dst with
  | name x =>
      simp only [State.assign] at hassign
      cases hx : s.vars x with
      | slot home =>
          simp only [hx, Option.map_eq_some_iff] at hassign
          obtain ⟨v, _, rfl⟩ := hassign
          exact h.store _
      | pointer target =>
          simp only [hx, Option.map_eq_some_iff] at hassign
          obtain ⟨a, _, rfl⟩ := hassign
          exact h.point hx a
  | deref x =>
      simp only [State.assign, Option.bind_eq_bind, Option.bind_eq_some_iff,
        Option.some.injEq] at hassign
      obtain ⟨_, _, _, _, rfl⟩ := hassign
      exact h.store _
  | addressOf x => cases hassign

end Function

/-- A pointer that is set changes only what is read through it. -/
theorem State.value_point {s : State Addr V} {x : String} {target : Option Addr}
    (hx : s.vars x = .pointer target) (a : Addr) (o : Operand) :
    State.value ⟨Function.update s.vars x (.pointer (some a)), s.mem⟩ o =
      if o = .deref x then some (s.mem a) else s.value o := by
  cases o with
  | addressOf _ => rfl
  | name y =>
      by_cases hy : y = x
      · simp [State.value, hy, hx]
      · simp [State.value, hy]
  | deref y =>
      by_cases hy : y = x
      · simp [State.value, State.address, hy]
      · simp [State.value, State.address, hy]

variable [DecidableEq Addr] {g : Function} {homes : String → Addr} (I : Interpretation Addr V)
  (fuel : Nat)

mutual

/-- No statement makes a pointer of a slot or moves a slot. -/
theorem Stmt.ends_exec :
    ∀ (c : Stmt) (s : State Addr V), g.Fits homes s →
      (Stmt.exec I fuel c s).Ends (g.Fits homes)
  | .call name args, s, h => by
      rw [Stmt.exec]
      cases args.mapM s.address with
      | none => trivial
      | some addresses => exact h.store _
  | .assign dst src, s, h => by
      rw [Stmt.exec]
      cases hassign : s.assign dst src with
      | none => trivial
      | some s' => exact h.assign hassign
  | .branch c yes none, s, h => by
      rw [Stmt.exec]
      cases s.value c with
      | none => trivial
      | some v =>
          simp only [Option.elim_some]
          split
          · exact Stmt.ends_execAll yes s h
          · exact h
  | .branch c yes (some no), s, h => by
      rw [Stmt.exec]
      cases s.value c with
      | none => trivial
      | some v =>
          simp only [Option.elim_some]
          split
          · exact Stmt.ends_execAll yes s h
          · exact Stmt.ends_execAll no s h
  | .loop body, s, h => by
      rw [Stmt.exec]
      exact ends_loopForever (Stmt.ends_execAll body) fuel h
  | .leaveLoopUnless c, s, h => by
      rw [Stmt.exec]
      cases s.value c with
      | none => trivial
      | some v =>
          simp only [Option.elim_some]
          split
          · exact h
          · exact h
  | .leave, s, h | .comment _, s, h => h

theorem Stmt.ends_execAll :
    ∀ (cs : List Stmt) (s : State Addr V), g.Fits homes s →
      (Stmt.execAll I fuel cs s).Ends (g.Fits homes)
  | [], _, h => h
  | c :: cs, s, h => (Stmt.ends_exec c s h).andThen (Stmt.ends_execAll cs)

end

namespace State

variable {s : State Addr V} {x : String} {target : Option Addr} {a : Addr} {o : Operand}

theorem assign_point (hx : s.vars x = .pointer target) (ho : s.address o = some a) :
    s.assign (.name x) o = some ⟨Function.update s.vars x (.pointer (some a)), s.mem⟩ := by
  simp only [assign, hx, ho, Option.map_some]

theorem assign_store {v : V} (hx : s.vars x = .pointer (some a)) (ho : s.value o = some v) :
    s.assign (.deref x) o = some ⟨s.vars, Function.update s.mem a v⟩ := by
  simp only [assign, address, hx, ho, Option.bind_eq_bind, Option.bind_some]

end State

/-- The code of `x ::= e`. What is stored is read through `x` itself if `e` is `x`. -/
theorem Stmt.execAll_own {s : State Addr V} {x slot : String} {target : Option Addr} {home : Addr}
    {o : Operand} {v : V} (hx : s.vars x = .pointer target) (hslot : s.vars slot = .slot home)
    (ho : s.value o = some v) :
    ∃ s', Stmt.execAll I fuel [.assign (.name x) (.addressOf slot), .assign (.deref x) o] s =
        .done s' ∧
      s'.vars x = .pointer (some home) ∧ s'.vars slot = .slot home ∧
      s'.mem home = if o = .deref x then s.mem home else v := by
  have hne : slot ≠ x := by
    intro heq
    rw [heq, hx] at hslot
    cases hslot
  have haddress : s.address (.addressOf slot) = some home := by
    simp only [State.address, hslot]
  have hvars : Function.update s.vars x (.pointer (some home)) x = .pointer (some home) :=
    Function.update_self ..
  have hread := State.value_point hx home o
  rw [ho, ← apply_ite some] at hread
  refine ⟨⟨Function.update s.vars x (.pointer (some home)), Function.update s.mem home _⟩,
    ?_, hvars, (Function.update_of_ne hne ..).trans hslot, Function.update_self ..⟩
  rw [Stmt.execAll, Stmt.exec, State.assign_point hx haddress]
  simp only [Outcome.ofOption, Outcome.andThen]
  rw [Stmt.execAll, Stmt.exec, State.assign_store hvars hread]
  rfl

end Fits

end C

namespace Frame

/-- What the frame gives to a node is one of its slots. -/
def Named (frame : Frame) : Prop :=
  ∀ id c, frame.HasSlot id c → c ∈ frame.slots.map (·.name)

namespace Named

variable {t : SymbolTable} {frame after : Frame}

theorem start (globals : Scope) (f : FunctionDecl NodeId) : (Frame.start globals f).Named := by
  intro id c h
  simp [HasSlot, Frame.start] at h

/-- A new slot for a node. -/
theorem insert (h : frame.Named) {slot : Slot} (hslots : after.slots = frame.slots ++ [slot])
    (hafter : ∀ i c, after.HasSlot i c → frame.HasSlot i c ∨ c = slot.name) : after.Named := by
  intro i c hc
  rw [hslots, List.map_append]
  obtain hc | rfl := hafter i c hc
  · exact List.mem_append_left _ (h i c hc)
  · exact List.mem_append_right _ (List.mem_singleton_self _)

theorem get?_insert_cases {table : Table NodeId String} {i id : NodeId} {c slot : String}
    (h : (table.insert id slot).get? i = some c) : table.get? i = some c ∨ c = slot := by
  rw [Table.get?_insert] at h
  by_cases hi : i = id
  · rw [if_pos hi] at h
    exact .inr (Option.some.inj h).symm
  · rw [if_neg hi] at h
    exact .inl h

theorem addCall (h : frame.Named) (id : NodeId) (name : String) (result : Option Ty) :
    (frame.addCall id name result).Named := by
  cases result with
  | none => exact h
  | some type =>
      refine h.insert rfl ?_
      intro i c hc
      obtain hc | hc := hc
      · exact (get?_insert_cases hc).imp_left .inl
      · exact .inl (.inr hc)

theorem serve (h : frame.Named) (v : Visit) : (frame.serve t v).Named := by
  obtain ⟨σ, site⟩ := v
  cases site with
  | declare x type =>
      cases type with
      | none => exact h
      | some type =>
          simp only [Frame.serve]
          split
          · exact h
          · exact h
  | literal id value =>
      refine h.insert rfl ?_
      intro i c hc
      obtain hc | hc := hc
      · exact (get?_insert_cases hc).imp_left .inl
      · exact .inl (.inr hc)
  | call id callee args =>
      simp only [Frame.serve]
      split
      · exact h.addCall _ _ _
      · exact h
  | own id type =>
      cases type with
      | none => exact h
      | some type =>
          refine h.insert rfl ?_
          intro i c hc
          obtain hc | hc := hc
          · exact .inl (.inl hc)
          · exact (get?_insert_cases hc).imp_left .inr

theorem foldl_serve (h : frame.Named) (vs : List Visit) :
    (vs.foldl (Frame.serve t) frame).Named := by
  induction vs generalizing frame with
  | nil => exact h
  | cons v vs ih => exact ih (h.serve v)

end Named

/-- The value of an expression is read through a name only if it is that name. -/
theorem valueOf_eq_deref_iff {frame : Frame} {e : Expr NodeId} {o : C.Operand} {x : String}
    (h : frame.valueOf e = .ok o) : o = .deref x ↔ e.name? = some x := by
  cases e with
  | name _ y =>
      cases h
      simp [Expr.name?]
  | literal _ _ | call _ _ _ =>
      obtain ⟨c, _, h⟩ := bind_eq_ok.mp h
      cases h
      simp [Expr.name?]

end Frame

namespace FunctionDecl

variable {t : SymbolTable} {types : Table NodeId Ty} {globals : Scope} {f : FunctionDecl NodeId}
  {frame : Frame} {g : C.Function}

theorem named_of_frame (h : f.frame t types globals = .ok frame) : frame.Named := by
  rw [(framed_of_frame h).eq_foldl]
  exact (Frame.Named.start globals f).foldl_serve _

/-- A slot of a node is a reserved local of the C function, whatever the labels are. -/
theorem reserved_local_of_hasSlot (h : f.frame t types globals = .ok frame) {id : NodeId}
    {c : String} (hslot : frame.HasSlot id c) :
    c ∈ frame.locals.map (·.name) ∧ isReserved c = true := by
  have hmem := named_of_frame h id c hslot
  exact ⟨frame.name_mem_locals_iff.mpr (.inr hmem), (isReserved_of_mem_slots h hmem).1⟩

theorem not_isReserved_of_declare (h : f.frame t types globals = .ok frame) {id : NodeId}
    {storage : Storage} {x : String} {e : Expr NodeId}
    (hs : .declare id storage x e ∈ Stmt.partsAll f.body) : isReserved x = false := by
  obtain ⟨σ, hσ⟩ := Stmt.exists_visits_of_mem_partsAll f.body (f.startScope globals) hs
  have hv : ⟨σ, .declare x (declaredType t types σ id e)⟩ ∈ f.visits t types globals := by
    refine hσ _ ?_
    cases storage with
    | shared => exact List.mem_cons_self
    | own => exact List.mem_append_left _ List.mem_cons_self
  exact ((framed_of_frame h).granted _ hv).2

variable {Addr V : Type} [DecidableEq Addr]

/-- What `x ::= e` does in a state that its function can be in, once the calls of `e` are made:
`x` points at the slot of the statement, and the slot holds the value of `e` unless `e` is `x`
itself and the slot held another value. -/
theorem own_declaration_copies_iff (I : Interpretation Addr V) (fuel : Nat)
    (homes : String → Addr) (h : f.generate t types globals = .ok g) {id : NodeId} {x : String}
    {e : Expr NodeId} (hs : .declare id .own x e ∈ Stmt.partsAll f.body) :
    ∃ frame calls slot value, f.frame t types globals = .ok frame ∧
      e.lowerCalls frame = .ok calls ∧ frame.ownSlots.get? id = some slot ∧
      frame.valueOf e = .ok value ∧
      C.Embeds g.body
        (calls ++ [.assign (.name x) (.addressOf slot), .assign (.deref x) value]) ∧
      ∀ (start s : C.State Addr V) (v : V), g.Fits homes start →
        C.Stmt.execAll I fuel calls start = .done s → s.value value = some v →
        ∃ s', C.Stmt.execAll I fuel
            [.assign (.name x) (.addressOf slot), .assign (.deref x) value] s = .done s' ∧
          s'.vars x = .pointer (some (homes slot)) ∧ s'.vars slot = .slot (homes slot) ∧
          (s'.mem (homes slot) = v ↔ e.name? ≠ some x ∨ s.mem (homes slot) = v) := by
  obtain ⟨frame, body, hframe, hbody, rfl⟩ := generate_eq_ok h
  obtain ⟨part, hpart, hembeds⟩ := Stmt.exists_lower_of_mem_partsAll f.body body hbody hs
  cases Stmt.lowersTo_of_lower hpart with
  | @declare _ _ _ _ calls _ value hcalls htarget hvalue =>
      obtain ⟨slot, hslot, htarget⟩ := bind_eq_ok.mp htarget
      cases htarget
      have hown := Frame.hasSlot_of_ownSlotOf hslot
      refine ⟨frame, calls, slot, value, hframe, hcalls, hown, hvalue, hembeds, ?_⟩
      intro start s v hfits hrun hv
      have hfits' := C.Stmt.ends_execAll I fuel calls start hfits
      rw [hrun] at hfits'
      have hx : isReserved x = false := not_isReserved_of_declare hframe hs
      obtain ⟨hlocal, hreserved⟩ := reserved_local_of_hasSlot hframe (.inr hown)
      obtain ⟨target, hpointer⟩ := hfits'.pointer x (by simp [hx])
      obtain ⟨s', hexec, hpoints, hkept, hmem⟩ := C.Stmt.execAll_own I fuel hpointer
        (hfits'.slot slot hlocal hreserved) hv
      refine ⟨s', hexec, hpoints, hkept, ?_⟩
      rw [hmem, ne_eq, ← Frame.valueOf_eq_deref_iff hvalue]
      by_cases hself : value = .deref x
      · simp [hself]
      · simp [hself]

end FunctionDecl

/-- A parameter becomes a variable of its own, with the value of a parameter. -/
def reseating (y : String) : FunctionDecl NodeId where
  name := "reseat"
  params := [⟨"x", .int⟩, ⟨"y", .int⟩]
  result := some .int
  body := [.declare 1 .own "x" (.name 0 y), .leave 3 (some (.name 2 "x"))]

def reseatingCode (y : String) : C.Function where
  prototype := ⟨"reseat", [⟨C.resultParam, Ty.int.pointer⟩, ⟨"x", Ty.int.pointer⟩,
    ⟨"y", Ty.int.pointer⟩]⟩
  locals := [⟨"tmp_0", .int⟩]
  initials := []
  body := [.assign (.name "x") (.addressOf "tmp_0"), .assign (.deref "x") (.deref y),
    .assign (.deref C.resultParam) (.deref "x"), .leave]

def reseatingTable (y : String) : SymbolTable :=
  Module.symbolTable ⟨[], [.function (reseating y)]⟩

/-- The parameters are 7, and all other cells are 0. -/
def reseatingEntry (y : String) : C.State String Int where
  vars := (reseatingCode y).entryVars id ⟨C.resultParam, fun x => "arg_" ++ x, fun _ => none⟩
  mem a := if a = "arg_x" ∨ a = "arg_y" then 7 else 0

theorem reseating_other_copies :
    (reseating "y").generate (reseatingTable "y") Table.empty Scope.empty =
        .ok (reseatingCode "y") ∧
      .declare 1 .own "x" (.name 0 "y") ∈ Stmt.partsAll (reseating "y").body ∧
      ∀ (I : Interpretation String Int) (fuel : Nat), ∃ slot s',
        C.Stmt.execAll I fuel [.assign (.name "x") (.addressOf slot),
          .assign (.deref "x") (.deref "y")] (reseatingEntry "y") = .done s' ∧
        s'.vars "x" = .pointer (some slot) ∧ s'.mem slot = 7 := by
  have h : (reseating "y").generate (reseatingTable "y") Table.empty Scope.empty =
      .ok (reseatingCode "y") := by rfl
  have hs : .declare 1 .own "x" (.name 0 "y") ∈ Stmt.partsAll (reseating "y").body :=
    List.mem_cons_self
  refine ⟨h, hs, ?_⟩
  intro I fuel
  obtain ⟨frame, calls, slot, value, _, hcalls, _, hvalue, _, hcopies⟩ :=
    FunctionDecl.own_declaration_copies_iff I fuel id h hs
  cases hcalls
  cases hvalue
  obtain ⟨s', hexec, hpoints, _, hmem⟩ := hcopies (reseatingEntry "y") (reseatingEntry "y") 7
    (C.Function.fits_entry ..) rfl rfl
  exact ⟨slot, s', hexec, hpoints, hmem.mpr (.inl (by decide))⟩

/-- With `x ::= x` the variable points at the new slot, and the slot is as it was. -/
theorem reseating_self_keeps_slot :
    (reseating "x").generate (reseatingTable "x") Table.empty Scope.empty =
        .ok (reseatingCode "x") ∧
      .declare 1 .own "x" (.name 0 "x") ∈ Stmt.partsAll (reseating "x").body ∧
      (reseatingCode "x").Fits id (reseatingEntry "x") ∧
      (reseatingEntry "x").value (.deref "x") = some 7 ∧
      ∀ (I : Interpretation String Int) (fuel : Nat), ∃ s',
        C.Stmt.execAll I fuel [.assign (.name "x") (.addressOf "tmp_0"),
          .assign (.deref "x") (.deref "x")] (reseatingEntry "x") = .done s' ∧
        s'.vars "x" = .pointer (some "tmp_0") ∧ s'.mem "tmp_0" ≠ 7 := by
  refine ⟨by rfl, List.mem_cons_self, C.Function.fits_entry .., rfl, ?_⟩
  intro I fuel
  exact ⟨_, rfl, rfl, by decide⟩

end Mis
