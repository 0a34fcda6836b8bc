import Mathlib.Data.List.Forall2
import Mis.Lowering
import Mis.Proofs.Naming

/-!
What lowered code is made of and what it mentions. The code of a statement is put
together from the code of its parts, in one way for each kind of statement. Its
operands name slots of the frame, names of the source and the result parameter;
its calls are the calls of the source, each with one operand for every argument
and one more if the call has a slot.
-/
namespace Mis

namespace C

mutual

/-- The names in the operands of a statement, at any depth. -/
def Stmt.names : Stmt → List String
  | .call _ args => args.map Operand.target
  | .assign dst src => [dst.target, src.target]
  | .branch c yes none => c.target :: Stmt.namesAll yes
  | .branch c yes (some no) => c.target :: (Stmt.namesAll yes ++ Stmt.namesAll no)
  | .loop body => Stmt.namesAll body
  | .leaveLoopUnless c => [c.target]
  | .leave | .comment _ => []

def Stmt.namesAll : List Stmt → List String
  | [] => []
  | s :: ss => Stmt.names s ++ Stmt.namesAll ss

end

mutual

/-- The calls of a statement, at any depth. -/
def Stmt.calls : Stmt → List (String × List Operand)
  | .call f args => [(f, args)]
  | .branch _ yes none => Stmt.callsAll yes
  | .branch _ yes (some no) => Stmt.callsAll yes ++ Stmt.callsAll no
  | .loop body => Stmt.callsAll body
  | .assign _ _ | .leaveLoopUnless _ | .leave | .comment _ => []

def Stmt.callsAll : List Stmt → List (String × List Operand)
  | [] => []
  | s :: ss => Stmt.calls s ++ Stmt.callsAll ss

end

theorem Stmt.namesAll_append (ss rs : List Stmt) :
    Stmt.namesAll (ss ++ rs) = Stmt.namesAll ss ++ Stmt.namesAll rs := by
  induction ss with
  | nil => rfl
  | cons s ss ih => simp only [List.cons_append, Stmt.namesAll, ih, List.append_assoc]

theorem Stmt.callsAll_append (ss rs : List Stmt) :
    Stmt.callsAll (ss ++ rs) = Stmt.callsAll ss ++ Stmt.callsAll rs := by
  induction ss with
  | nil => rfl
  | cons s ss ih => simp only [List.cons_append, Stmt.callsAll, ih, List.append_assoc]

end C

namespace Frame

/-- `out` stands for source that the walk passes in `vs` and that mentions `names`. -/
structure Mentions (frame : Frame) (vs : List Visit) (names : List String)
    (out : List C.Stmt) : Prop where
  name_known : ∀ x ∈ C.Stmt.namesAll out,
    (∃ id, frame.HasSlot id x) ∨ x ∈ names ∨ x = C.resultParam ∧ frame.result.isSome
  call_visited : ∀ c ∈ C.Stmt.callsAll out, ∃ σ id callee args,
    ⟨σ, .call id callee args⟩ ∈ vs ∧ frame.calledNames.get? id = some c.1 ∧
      c.2.length = (frame.valueSlots.get? id).toList.length + args.length

/-- The operand names a slot or a name of the source. -/
def KnownOperand (frame : Frame) (names : List String) (o : C.Operand) : Prop :=
  (∃ id, frame.HasSlot id o.target) ∨ o.target ∈ names

namespace Mentions

variable {frame : Frame} {vs ws : List Visit} {names more : List String} {out rest : List C.Stmt}

theorem nil (frame : Frame) (vs : List Visit) (names : List String) :
    frame.Mentions vs names [] := by
  refine ⟨?_, ?_⟩
  · intro x hx
    cases hx
  · intro c hc
    cases hc

theorem append (h : frame.Mentions vs names out) (hrest : frame.Mentions vs names rest) :
    frame.Mentions vs names (out ++ rest) := by
  refine ⟨?_, ?_⟩
  · intro x hx
    rw [C.Stmt.namesAll_append, List.mem_append] at hx
    exact hx.elim (h.name_known x) (hrest.name_known x)
  · intro c hc
    rw [C.Stmt.callsAll_append, List.mem_append] at hc
    exact hc.elim (h.call_visited c) (hrest.call_visited c)

theorem cons {s : C.Stmt} (h : frame.Mentions vs names [s])
    (hrest : frame.Mentions vs names rest) : frame.Mentions vs names (s :: rest) :=
  append h hrest

theorem mono (h : frame.Mentions vs names out) (hvs : ∀ v ∈ vs, v ∈ ws)
    (hnames : ∀ x ∈ names, x ∈ more) : frame.Mentions ws more out := by
  refine ⟨?_, ?_⟩
  · intro x hx
    exact (h.name_known x hx).imp_right (Or.imp_left (hnames x))
  · intro c hc
    obtain ⟨σ, id, callee, args, hv, hcall⟩ := h.call_visited c hc
    exact ⟨σ, id, callee, args, hvs _ hv, hcall⟩

theorem assign {dst src : C.Operand} (hdst : frame.KnownOperand names dst)
    (hsrc : frame.KnownOperand names src) : frame.Mentions vs names [.assign dst src] := by
  refine ⟨?_, ?_⟩
  · intro x hx
    simp only [C.Stmt.namesAll, C.Stmt.names, List.append_nil, List.mem_cons, List.not_mem_nil,
      or_false] at hx
    obtain hx | hx := hx
    · exact hx ▸ hdst.imp_right .inl
    · exact hx ▸ hsrc.imp_right .inl
  · intro c hc
    cases hc

theorem branch {c : C.Operand} {no : Option (List C.Stmt)} (hc : frame.KnownOperand names c)
    (hyes : frame.Mentions vs names out)
    (hno : ∀ rest, no = some rest → frame.Mentions vs names rest) :
    frame.Mentions vs names [.branch c out no] := by
  cases no with
  | none =>
      refine ⟨?_, ?_⟩
      · intro x hx
        simp only [C.Stmt.namesAll, C.Stmt.names, List.append_nil, List.mem_cons] at hx
        obtain hx | hx := hx
        · exact hx ▸ hc.imp_right .inl
        · exact hyes.name_known x hx
      · intro d hd
        simp only [C.Stmt.callsAll, C.Stmt.calls, List.append_nil] at hd
        exact hyes.call_visited d hd
  | some rest =>
      have hrest := hno rest rfl
      refine ⟨?_, ?_⟩
      · intro x hx
        simp only [C.Stmt.namesAll, C.Stmt.names, List.append_nil, List.mem_cons,
          List.mem_append] at hx
        obtain hx | hx | hx := hx
        · exact hx ▸ hc.imp_right .inl
        · exact hyes.name_known x hx
        · exact hrest.name_known x hx
      · intro d hd
        simp only [C.Stmt.callsAll, C.Stmt.calls, List.append_nil, List.mem_append] at hd
        exact hd.elim (hyes.call_visited d) (hrest.call_visited d)

theorem loop (h : frame.Mentions vs names out) : frame.Mentions vs names [.loop out] := by
  refine ⟨?_, ?_⟩
  · intro x hx
    simp only [C.Stmt.namesAll, C.Stmt.names, List.append_nil] at hx
    exact h.name_known x hx
  · intro c hc
    simp only [C.Stmt.callsAll, C.Stmt.calls, List.append_nil] at hc
    exact h.call_visited c hc

theorem leaveLoopUnless {c : C.Operand} (hc : frame.KnownOperand names c) :
    frame.Mentions vs names [.leaveLoopUnless c] := by
  refine ⟨?_, ?_⟩
  · intro x hx
    simp only [C.Stmt.namesAll, C.Stmt.names, List.append_nil, List.mem_singleton] at hx
    exact hx ▸ hc.imp_right .inl
  · intro d hd
    cases hd

theorem leave : frame.Mentions vs names [.leave] := by
  refine ⟨?_, ?_⟩
  · intro x hx
    cases hx
  · intro c hc
    cases hc

/-- A value goes to the caller only through the result parameter. -/
theorem giveResult {src : C.Operand} (hresult : frame.result.isSome)
    (hsrc : frame.KnownOperand names src) :
    frame.Mentions vs names [.assign (.deref C.resultParam) src, .leave] := by
  refine ⟨?_, ?_⟩
  · intro x hx
    simp only [C.Stmt.namesAll, C.Stmt.names, List.append_nil, List.mem_cons, List.not_mem_nil,
      or_false] at hx
    obtain hx | hx := hx
    · exact .inr (.inr ⟨hx, hresult⟩)
    · exact hx ▸ hsrc.imp_right .inl
  · intro c hc
    cases hc

theorem call {σ : Scope} {id : NodeId} {callee : Expr NodeId} {args : List (Expr NodeId)}
    {name : String} {operands : List C.Operand} (hv : ⟨σ, .call id callee args⟩ ∈ vs)
    (hname : frame.calledNames.get? id = some name) (hlength : operands.length = args.length)
    (hoperands : ∀ o ∈ operands, frame.KnownOperand names o) :
    frame.Mentions vs names [.call name (frame.resultOperand id ++ operands)] := by
  refine ⟨?_, ?_⟩
  · intro x hx
    simp only [C.Stmt.namesAll, C.Stmt.names, List.append_nil, List.map_append, List.mem_append,
      List.mem_map] at hx
    obtain ⟨o, ho, hx⟩ | ⟨o, ho, hx⟩ := hx
    · cases hslot : frame.valueSlots.get? id with
      | none => simp [Frame.resultOperand, hslot] at ho
      | some slot =>
          simp only [Frame.resultOperand, hslot, Option.map_some, Option.toList_some,
            List.mem_singleton] at ho
          rw [ho] at hx
          cases hx
          exact .inl ⟨id, .inl hslot⟩
    · exact hx ▸ (hoperands o ho).imp_right .inl
  · intro c hc
    simp only [C.Stmt.callsAll, C.Stmt.calls, List.append_nil, List.mem_singleton] at hc
    cases hc
    refine ⟨σ, id, callee, args, hv, hname, ?_⟩
    rw [List.length_append, hlength]
    cases hslot : frame.valueSlots.get? id <;> simp [Frame.resultOperand, hslot]

end Mentions
end Frame

/-- A list of steps succeeds if each of them does. -/
theorem mapM_eq_ok {ε α β : Type} {f : α → Except ε β} {xs : List α} {ys : List β} :
    xs.mapM f = .ok ys ↔ List.Forall₂ (fun x y => f x = .ok y) xs ys := by
  induction xs generalizing ys with
  | nil => cases ys <;> simp [pure, Except.pure]
  | cons x xs ih =>
      rw [List.mapM_cons, bind_eq_ok]
      constructor
      · intro h
        obtain ⟨y, hy, h⟩ := h
        obtain ⟨rest, hrest, h⟩ := bind_eq_ok.mp h
        cases h
        exact .cons hy (ih.mp hrest)
      · intro h
        cases h with
        | cons hy hrest => exact ⟨_, hy, bind_eq_ok.mpr ⟨_, ih.mpr hrest, rfl⟩⟩

/-! What is lowered to what. -/

section Shapes

variable {frame : Frame} {out : List C.Stmt}

theorem Frame.calleeOf_eq_ok {id : NodeId} {name : String} (h : frame.calleeOf id = .ok name) :
    frame.calledNames.get? id = some name := by
  rw [Frame.calleeOf] at h
  cases hget : frame.calledNames.get? id with
  | none => simp [hget] at h
  | some called =>
      simp only [hget, Except.ok.injEq] at h
      rw [h]

/-- A call is made behind the calls in its arguments, with an operand for each argument. -/
theorem Expr.lowerCalls_call_eq_ok {id : NodeId} {callee : Expr NodeId}
    {args : List (Expr NodeId)} (h : (Expr.call id callee args).lowerCalls frame = .ok out) :
    ∃ before operands name, Expr.lowerCallsAll frame args = .ok before ∧
      List.Forall₂ (fun e o => frame.addressOf e = .ok o) args operands ∧
      frame.calledNames.get? id = some name ∧
      out = before ++ [.call name (frame.resultOperand id ++ operands)] := by
  obtain ⟨before, hbefore, h⟩ := bind_eq_ok.mp h
  obtain ⟨operands, hoperands, h⟩ := bind_eq_ok.mp h
  obtain ⟨name, hname, h⟩ := bind_eq_ok.mp h
  cases h
  exact ⟨before, operands, name, hbefore, mapM_eq_ok.mp hoperands, Frame.calleeOf_eq_ok hname, rfl⟩

theorem Expr.lowerCallsAll_cons_eq_ok {e : Expr NodeId} {es : List (Expr NodeId)}
    (h : Expr.lowerCallsAll frame (e :: es) = .ok out) :
    ∃ first more, e.lowerCalls frame = .ok first ∧ Expr.lowerCallsAll frame es = .ok more ∧
      out = first ++ more := by
  obtain ⟨first, hfirst, h⟩ := bind_eq_ok.mp h
  obtain ⟨more, hmore, h⟩ := bind_eq_ok.mp h
  cases h
  exact ⟨first, more, hfirst, hmore, rfl⟩

theorem Stmt.lowerAll_cons_eq_ok {s : Stmt NodeId} {ss : List (Stmt NodeId)}
    (h : Stmt.lowerAll frame (s :: ss) = .ok out) :
    ∃ first more, s.lower frame = .ok first ∧ Stmt.lowerAll frame ss = .ok more ∧
      out = first ++ more := by
  obtain ⟨first, hfirst, h⟩ := bind_eq_ok.mp h
  obtain ⟨more, hmore, h⟩ := bind_eq_ok.mp h
  cases h
  exact ⟨first, more, hfirst, hmore, rfl⟩

/-- The code that each kind of statement has, made of the code of its parts. -/
inductive Stmt.LowersTo (frame : Frame) : Stmt NodeId → List C.Stmt → Prop
  | declare {id : NodeId} {storage : Storage} {x : String} {init : Expr NodeId}
      {calls : List C.Stmt} {target value : C.Operand} :
      init.lowerCalls frame = .ok calls → lowerTarget frame id storage init = .ok target →
      frame.valueOf init = .ok value →
      LowersTo frame (.declare id storage x init)
        (calls ++ [.assign (.name x) target, .assign (.deref x) value])
  | assign {id : NodeId} {x : String} {e : Expr NodeId} {calls : List C.Stmt}
      {value : C.Operand} :
      e.lowerCalls frame = .ok calls → frame.valueOf e = .ok value →
      LowersTo frame (.assign id x e) (calls ++ [.assign (.deref x) value])
  | branch {id : NodeId} {c : Expr NodeId} {yes : List (Stmt NodeId)} {calls code : List C.Stmt}
      {value : C.Operand} :
      c.lowerCalls frame = .ok calls → frame.valueOf c = .ok value →
      Stmt.lowerAll frame yes = .ok code →
      LowersTo frame (.branch id c yes none) (calls ++ [.branch value code none])
  | branchElse {id : NodeId} {c : Expr NodeId} {yes no : List (Stmt NodeId)}
      {calls code other : List C.Stmt} {value : C.Operand} :
      c.lowerCalls frame = .ok calls → frame.valueOf c = .ok value →
      Stmt.lowerAll frame yes = .ok code → Stmt.lowerAll frame no = .ok other →
      LowersTo frame (.branch id c yes (some no)) (calls ++ [.branch value code (some other)])
  | loop {id : NodeId} {c : Expr NodeId} {body : List (Stmt NodeId)} {calls code : List C.Stmt}
      {value : C.Operand} :
      c.lowerCalls frame = .ok calls → frame.valueOf c = .ok value →
      Stmt.lowerAll frame body = .ok code →
      LowersTo frame (.loop id c body) [.loop (calls ++ .leaveLoopUnless value :: code)]
  | leave {id : NodeId} : LowersTo frame (.leave id none) [.leave]
  | leaveWith {id : NodeId} {e : Expr NodeId} {type : Ty} {calls : List C.Stmt}
      {value : C.Operand} :
      frame.result = some type → e.lowerCalls frame = .ok calls → frame.valueOf e = .ok value →
      LowersTo frame (.leave id (some e))
        (calls ++ [.assign (.deref C.resultParam) value, .leave])
  | call {id : NodeId} {e : Expr NodeId} {calls : List C.Stmt} :
      e.lowerCalls frame = .ok calls → LowersTo frame (.call id e) calls

theorem Stmt.lowersTo_of_lower {s : Stmt NodeId} (h : s.lower frame = .ok out) :
    s.LowersTo frame out := by
  cases s with
  | declare id storage x init =>
      obtain ⟨calls, hcalls, h⟩ := bind_eq_ok.mp h
      obtain ⟨target, htarget, h⟩ := bind_eq_ok.mp h
      obtain ⟨value, hvalue, h⟩ := bind_eq_ok.mp h
      cases h
      exact .declare hcalls htarget hvalue
  | assign id x e =>
      obtain ⟨calls, hcalls, h⟩ := bind_eq_ok.mp h
      obtain ⟨value, hvalue, h⟩ := bind_eq_ok.mp h
      cases h
      exact .assign hcalls hvalue
  | branch id c yes no =>
      cases no with
      | none =>
          obtain ⟨calls, hcalls, h⟩ := bind_eq_ok.mp h
          obtain ⟨code, hcode, h⟩ := bind_eq_ok.mp h
          obtain ⟨value, hvalue, h⟩ := bind_eq_ok.mp h
          cases h
          exact .branch hcalls hvalue hcode
      | some no =>
          obtain ⟨calls, hcalls, h⟩ := bind_eq_ok.mp h
          obtain ⟨code, hcode, h⟩ := bind_eq_ok.mp h
          obtain ⟨other, hother, h⟩ := bind_eq_ok.mp h
          obtain ⟨value, hvalue, h⟩ := bind_eq_ok.mp h
          cases h
          exact .branchElse hcalls hvalue hcode hother
  | loop id c body =>
      obtain ⟨calls, hcalls, h⟩ := bind_eq_ok.mp h
      obtain ⟨value, hvalue, h⟩ := bind_eq_ok.mp h
      obtain ⟨code, hcode, h⟩ := bind_eq_ok.mp h
      cases h
      exact .loop hcalls hvalue hcode
  | leave id value =>
      cases value with
      | none =>
          cases h
          exact .leave
      | some e =>
          rw [Stmt.lower] at h
          cases hresult : frame.result with
          | none => simp [hresult] at h
          | some type =>
              simp only [hresult, Option.isNone_some, Bool.false_eq_true, if_false] at h
              obtain ⟨calls, hcalls, h⟩ := bind_eq_ok.mp h
              obtain ⟨value, hvalue, h⟩ := bind_eq_ok.mp h
              cases h
              exact .leaveWith hresult hcalls hvalue
  | call id e => exact .call h

end Shapes

section Operands

variable {frame : Frame}

theorem Frame.knownOperand_mono {names more : List String} {o : C.Operand}
    (h : frame.KnownOperand names o) (hnames : ∀ x ∈ names, x ∈ more) :
    frame.KnownOperand more o :=
  h.imp_right (hnames o.target)

theorem Frame.hasSlot_of_slotOf {e : Expr NodeId} {c : String} (h : frame.slotOf e = .ok c) :
    frame.valueSlots.get? e.id = some c := by
  simp only [Frame.slotOf] at h
  cases hslot : frame.valueSlots.get? e.id with
  | some slot =>
      simp only [hslot, Except.ok.injEq] at h
      rw [h]
  | none =>
      simp only [hslot] at h
      split at h <;> cases h

theorem Frame.hasSlot_of_ownSlotOf {id : NodeId} {c : String} (h : frame.ownSlotOf id = .ok c) :
    frame.ownSlots.get? id = some c := by
  simp only [Frame.ownSlotOf] at h
  cases hslot : frame.ownSlots.get? id with
  | none => simp [hslot] at h
  | some slot =>
      simp only [hslot, Except.ok.injEq] at h
      rw [h]

theorem Frame.knownOperand_valueOf {e : Expr NodeId} {o : C.Operand}
    (h : frame.valueOf e = .ok o) : frame.KnownOperand e.names o := by
  cases e with
  | name i x =>
      cases h
      exact .inr (List.mem_singleton_self x)
  | literal i v | call i callee args =>
      obtain ⟨c, hc, h⟩ := bind_eq_ok.mp h
      cases h
      exact .inl ⟨i, .inl (Frame.hasSlot_of_slotOf hc)⟩

theorem Frame.knownOperand_addressOf {e : Expr NodeId} {o : C.Operand}
    (h : frame.addressOf e = .ok o) : frame.KnownOperand e.names o := by
  cases e with
  | name i x =>
      cases h
      exact .inr (List.mem_singleton_self x)
  | literal i v | call i callee args =>
      obtain ⟨c, hc, h⟩ := bind_eq_ok.mp h
      cases h
      exact .inl ⟨i, .inl (Frame.hasSlot_of_slotOf hc)⟩

theorem Frame.knownOperand_of_forall₂ {es : List (Expr NodeId)} {os : List C.Operand}
    (h : List.Forall₂ (fun e o => frame.addressOf e = .ok o) es os) :
    ∀ o ∈ os, frame.KnownOperand (Expr.namesAll es) o := by
  induction h with
  | nil =>
      intro o ho
      cases ho
  | cons he _ ih =>
      intro o ho
      obtain ho | ho := List.mem_cons.mp ho
      · rw [ho]
        exact Frame.knownOperand_mono (Frame.knownOperand_addressOf he)
          fun x hx => List.mem_append_left _ hx
      · exact Frame.knownOperand_mono (ih o ho) fun x hx => List.mem_append_right _ hx

theorem Frame.knownOperand_lowerTarget {names : List String} {id : NodeId} {storage : Storage}
    {init : Expr NodeId} {o : C.Operand} (h : lowerTarget frame id storage init = .ok o)
    (hnames : ∀ x ∈ init.names, x ∈ names) : frame.KnownOperand names o := by
  cases storage with
  | shared => exact Frame.knownOperand_mono (Frame.knownOperand_addressOf h) hnames
  | own =>
      obtain ⟨c, hc, h⟩ := bind_eq_ok.mp h
      cases h
      exact .inl ⟨id, .inr (Frame.hasSlot_of_ownSlotOf hc)⟩

end Operands

section Mentions

variable {frame : Frame}

mutual

theorem Expr.mentions_lowerCalls (σ : Scope) : ∀ (e : Expr NodeId) (out : List C.Stmt),
    e.lowerCalls frame = .ok out → frame.Mentions (e.visits σ) e.names out
  | .literal _ _, out, h => by
      cases h
      exact .nil _ _ _
  | .name _ _, out, h => by
      cases h
      exact .nil _ _ _
  | .call id callee args, out, h => by
      obtain ⟨before, operands, name, hbefore, hoperands, hname, rfl⟩ :=
        Expr.lowerCalls_call_eq_ok h
      refine .append ?_ ?_
      · exact (Expr.mentions_lowerCallsAll σ args before hbefore).mono
          (fun v hv => List.mem_cons_of_mem _ hv) (fun x hx => hx)
      · exact .call (List.mem_cons_self) hname hoperands.length_eq.symm
          (Frame.knownOperand_of_forall₂ hoperands)

theorem Expr.mentions_lowerCallsAll (σ : Scope) : ∀ (es : List (Expr NodeId)) (out : List C.Stmt),
    Expr.lowerCallsAll frame es = .ok out →
      frame.Mentions (Expr.visitsAll σ es) (Expr.namesAll es) out
  | [], out, h => by
      cases h
      exact .nil _ _ _
  | e :: es, out, h => by
      obtain ⟨first, more, hfirst, hmore, rfl⟩ := Expr.lowerCallsAll_cons_eq_ok h
      refine .append ?_ ?_
      · exact (Expr.mentions_lowerCalls σ e first hfirst).mono
          (fun v hv => List.mem_append_left _ hv) (fun x hx => List.mem_append_left _ hx)
      · exact (Expr.mentions_lowerCallsAll σ es more hmore).mono
          (fun v hv => List.mem_append_right _ hv) (fun x hx => List.mem_append_right _ hx)

end

variable (t : SymbolTable) (types : Table NodeId Ty)

mutual

theorem Stmt.mentions_lower (σ : Scope) : ∀ (s : Stmt NodeId) (out : List C.Stmt),
    s.lower frame = .ok out →
      frame.Mentions (s.visits t types σ) (s.declared ++ s.names) out
  | .declare id storage x init, out, h => by
      cases Stmt.lowersTo_of_lower h with
      | declare hcalls htarget hvalue =>
          have hnames : ∀ y ∈ init.names, y ∈ x :: init.names :=
            fun y hy => List.mem_cons_of_mem _ hy
          have hvisits : ∀ v ∈ init.visits (σ.set x (declaredType t types σ id init)),
              v ∈ Stmt.visits t types σ (.declare id storage x init) := by
            intro v hv
            cases storage with
            | shared => exact List.mem_cons_of_mem _ hv
            | own => exact List.mem_append_left _ (List.mem_cons_of_mem _ hv)
          refine .append ((Expr.mentions_lowerCalls _ init _ hcalls).mono hvisits hnames) ?_
          refine .cons (.assign (.inr List.mem_cons_self) ?_)
            (.assign (.inr List.mem_cons_self) ?_)
          · exact Frame.knownOperand_lowerTarget htarget hnames
          · exact Frame.knownOperand_mono (Frame.knownOperand_valueOf hvalue) hnames
  | .assign _ x e, out, h => by
      cases Stmt.lowersTo_of_lower h with
      | assign hcalls hvalue =>
          have hnames : ∀ y ∈ e.names, y ∈ x :: e.names := fun y hy => List.mem_cons_of_mem _ hy
          refine .append ((Expr.mentions_lowerCalls σ e _ hcalls).mono (fun v hv => hv) hnames) ?_
          refine .assign (.inr List.mem_cons_self) ?_
          exact Frame.knownOperand_mono (Frame.knownOperand_valueOf hvalue) hnames
  | .branch _ c yes none, out, h => by
      cases Stmt.lowersTo_of_lower h with
      | branch hcalls hvalue hyes =>
          have hnames : ∀ x ∈ c.names, x ∈ Stmt.declaredAll yes ++ (c.names ++ Stmt.namesAll yes) :=
            fun x hx => List.mem_append_right _ (List.mem_append_left _ hx)
          refine .append ((Expr.mentions_lowerCalls σ c _ hcalls).mono
            (fun v hv => List.mem_append_left _ hv) hnames) ?_
          refine .branch (Frame.knownOperand_mono (Frame.knownOperand_valueOf hvalue) hnames) ?_ ?_
          · exact (Stmt.mentions_lowerAll σ yes _ hyes).mono
              (fun v hv => List.mem_append_right _ hv) (by grind [Stmt.declared, Stmt.names])
          · intro rest hrest
            cases hrest
  | .branch _ c yes (some no), out, h => by
      cases Stmt.lowersTo_of_lower h with
      | branchElse hcalls hvalue hyes hno =>
          have hnames : ∀ x ∈ c.names, x ∈ Stmt.declaredAll yes ++ Stmt.declaredAll no ++
              (c.names ++ Stmt.namesAll yes ++ Stmt.namesAll no) :=
            fun x hx => List.mem_append_right _ (List.mem_append_left _ (List.mem_append_left _ hx))
          refine .append ((Expr.mentions_lowerCalls σ c _ hcalls).mono
            (fun v hv => List.mem_append_left _ (List.mem_append_left _ hv)) hnames) ?_
          refine .branch (Frame.knownOperand_mono (Frame.knownOperand_valueOf hvalue) hnames) ?_ ?_
          · exact (Stmt.mentions_lowerAll σ yes _ hyes).mono
              (fun v hv => List.mem_append_left _ (List.mem_append_right _ hv))
              (by grind [Stmt.declared, Stmt.names])
          · intro rest hrest
            cases hrest
            exact (Stmt.mentions_lowerAll _ no _ hno).mono
              (fun v hv => List.mem_append_right _ hv) (by grind [Stmt.declared, Stmt.names])
  | .loop _ c body, out, h => by
      cases Stmt.lowersTo_of_lower h with
      | loop hcalls hvalue hbody =>
          have hnames : ∀ x ∈ c.names,
              x ∈ Stmt.declaredAll body ++ (c.names ++ Stmt.namesAll body) :=
            fun x hx => List.mem_append_right _ (List.mem_append_left _ hx)
          refine .loop (.append ((Expr.mentions_lowerCalls σ c _ hcalls).mono
            (fun v hv => List.mem_append_left _ hv) hnames) ?_)
          refine .cons (.leaveLoopUnless ?_) ?_
          · exact Frame.knownOperand_mono (Frame.knownOperand_valueOf hvalue) hnames
          · exact (Stmt.mentions_lowerAll σ body _ hbody).mono
              (fun v hv => List.mem_append_right _ hv) (by grind [Stmt.declared, Stmt.names])
  | .leave _ none, out, h => by
      cases h
      exact .leave
  | .leave _ (some e), out, h => by
      cases Stmt.lowersTo_of_lower h with
      | leaveWith hresult hcalls hvalue =>
          refine .append (Expr.mentions_lowerCalls σ e _ hcalls) ?_
          refine .giveResult ?_ (Frame.knownOperand_valueOf hvalue)
          rw [hresult]
          rfl
  | .call _ e, out, h => Expr.mentions_lowerCalls σ e out h

theorem Stmt.mentions_lowerAll (σ : Scope) : ∀ (ss : List (Stmt NodeId)) (out : List C.Stmt),
    Stmt.lowerAll frame ss = .ok out →
      frame.Mentions (Stmt.visitsAll t types σ ss) (Stmt.declaredAll ss ++ Stmt.namesAll ss) out
  | [], out, h => by
      cases h
      exact .nil _ _ _
  | s :: ss, out, h => by
      obtain ⟨first, more, hfirst, hmore, rfl⟩ := Stmt.lowerAll_cons_eq_ok h
      refine .append ?_ ?_
      · exact (Stmt.mentions_lower σ s first hfirst).mono
          (fun v hv => List.mem_append_left _ hv) (by grind [Stmt.declaredAll, Stmt.namesAll])
      · exact (Stmt.mentions_lowerAll _ ss more hmore).mono
          (fun v hv => List.mem_append_right _ hv) (by grind [Stmt.declaredAll, Stmt.namesAll])

end

end Mentions

end Mis
