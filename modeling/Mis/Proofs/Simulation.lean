import Mathlib.Data.Set.Function
import Mis.Proofs.Program
import Mis.Proofs.Semantics

/-!
Lowering preserves meaning. Every state of the source is seen as a state of the C
code: names become pointers, slots live at the addresses that their nodes own. A
lowered statement takes the view of a state to the view of what the statement
makes of it, so a generated function ends as its source does.

This needs the names of a body to be their own in C. A variable or parameter with
a reserved name is refused, but a constant of the module is not, and a slot of
its name captures it.
-/
namespace Mis

/-! Outcomes and loops. -/

section Outcomes

variable {S T : Type}

def Outcome.toC (view : S → T) : Outcome Unit S → Outcome C.Exit T
  | .done s => .done (view s)
  | .left _ s => .left .function (view s)
  | .stuck => .stuck
  | .running => .running

theorem Outcome.toC_ofOption (view : S → T) (o : Option S) :
    (Outcome.ofOption o).toC view = .ofOption (o.map view) := by
  cases o <;> rfl

theorem Outcome.toC_andThen {view : S → T} {next : S → Outcome Unit S}
    {nextC : T → Outcome C.Exit T} (h : ∀ s, nextC (view s) = (next s).toC view)
    (o : Outcome Unit S) : (o.toC view).andThen nextC = (o.andThen next).toC view := by
  cases o with
  | done s => exact h s
  | left _ s | stuck | running => rfl

/-- One round of the C loop makes the test and then, unless it left the loop, the body. -/
theorem loopForever_eq_repeatWhile {view : S → T} {test : S → Option (S × Bool)}
    {body : S → Outcome Unit S} {code : T → Outcome C.Exit T}
    (hround : ∀ s, code (view s) = (test s).elim .stuck fun r =>
      if r.2 then (body r.1).toC view else .left .loop (view r.1)) (n : Nat) (s : S) :
    C.loopForever code n (view s) = (repeatWhile test body n s).toC view := by
  induction n generalizing s with
  | zero => rfl
  | succ n ih =>
      rw [C.loopForever, repeatWhile, hround s]
      cases test s with
      | none => rfl
      | some r =>
          obtain ⟨s', go⟩ := r
          cases go with
          | false => rfl
          | true =>
              simp only [Option.elim_some, if_true]
              cases body s' with
              | done s'' => exact ih s''
              | left _ s'' | stuck | running => rfl

end Outcomes

namespace C

variable {Addr V : Type} [DecidableEq Addr] (I : Interpretation Addr V) (fuel : Nat)

theorem Stmt.execAll_append (out rest : List Stmt) (s : State Addr V) :
    Stmt.execAll I fuel (out ++ rest) s =
      (Stmt.execAll I fuel out s).andThen (Stmt.execAll I fuel rest) := by
  induction out generalizing s with
  | nil => rfl
  | cons c cs ih =>
      simp only [List.cons_append, Stmt.execAll, Outcome.andThen_assoc]
      congr 1
      funext s'
      exact ih s'

theorem Stmt.execAll_singleton (c : Stmt) (s : State Addr V) :
    Stmt.execAll I fuel [c] s = Stmt.exec I fuel c s := by
  rw [Stmt.execAll]
  cases Stmt.exec I fuel c s <;> rfl

end C

/-! States of the source as states of the C code. -/

namespace Frame

/-- The C code has no variable of its own that is called `x`. -/
def Clear (frame : Frame) (x : String) : Prop :=
  x ∉ frame.slots.map (·.name) ∧ ¬ (x = C.resultParam ∧ frame.result.isSome)

section View

variable {Addr V : Type} (frame : Frame) (homes : String → Addr) (result : Addr)

def view (s : State Addr V) : C.State Addr V where
  vars x :=
    if x ∈ frame.slots.map (·.name) then .slot (homes x)
    else if x = C.resultParam ∧ frame.result.isSome then .pointer (some result)
    else .pointer (s.env x)
  mem := s.mem

variable {frame homes result}

theorem vars_view_slot {c : String} (h : c ∈ frame.slots.map (·.name)) (s : State Addr V) :
    (frame.view homes result s).vars c = .slot (homes c) := by
  simp only [view, h, if_true]

theorem vars_view_clear {x : String} (h : frame.Clear x) (s : State Addr V) :
    (frame.view homes result s).vars x = .pointer (s.env x) := by
  simp only [view, h.1, h.2, if_false]

/-- Binding a name of the source sets a pointer. -/
theorem view_bind {x : String} (h : frame.Clear x) (s : State Addr V) (a : Addr) (mem : Addr → V) :
    frame.view homes result ⟨Function.update s.env x (some a), mem⟩ =
      ⟨Function.update (frame.view homes result s).vars x (.pointer (some a)), mem⟩ := by
  have hvars : (frame.view homes result ⟨Function.update s.env x (some a), mem⟩).vars =
      Function.update (frame.view homes result s).vars x (.pointer (some a)) := by
    funext y
    by_cases hy : y = x
    · subst hy
      simp only [vars_view_clear h, Function.update_self]
    · rw [Function.update_of_ne hy]
      simp only [view, Function.update_of_ne hy]
  simp only [← hvars]
  rfl

end View

/-- The slots live where their nodes own an address, and calls go to what they mean. -/
structure Hosts {Addr : Type} (t : SymbolTable) (vs : List Visit) (homes : String → Addr)
    (own : NodeId → Addr) (frame : Frame) : Prop where
  value_home : ∀ id c, frame.valueSlots.get? id = some c →
    c ∈ frame.slots.map (·.name) ∧ homes c = own id
  own_home : ∀ id c, frame.ownSlots.get? id = some c →
    c ∈ frame.slots.map (·.name) ∧ homes c = own id
  result_clear : C.resultParam ∉ frame.slots.map (·.name)
  called : ∀ σ id callee args, ⟨σ, .call id callee args⟩ ∈ vs →
    ∃ s, calledSymbol t σ callee args = .ok s ∧
      frame.calledNames.get? id = some s.externalName ∧
      (frame.valueSlots.get? id).isSome = s.result.isSome

namespace Hosts

variable {Addr V : Type} {t : SymbolTable} {vs : List Visit} {homes : String → Addr}
  {own : NodeId → Addr} {result : Addr} {frame : Frame}

theorem address_of_slotOf (h : frame.Hosts t vs homes own) {e : Expr NodeId} {σ : Scope}
    {c : String} (hname : e.name? = none) (hvs : ∀ v ∈ e.visits σ, v ∈ vs)
    (hc : frame.slotOf e = .ok c) (env : String → Option Addr) :
    c ∈ frame.slots.map (·.name) ∧ e.address t own σ env = some (homes c) := by
  have hslot := Frame.hasSlot_of_slotOf hc
  obtain ⟨hmem, hhome⟩ := h.value_home _ _ hslot
  refine ⟨hmem, ?_⟩
  cases e with
  | name i x => cases hname
  | literal i v => exact congrArg some hhome.symm
  | call i callee args =>
      obtain ⟨s, hs, _, hresult⟩ := h.called σ i callee args (hvs _ List.mem_cons_self)
      have hsome : s.result.isSome = true := by
        rw [← hresult, show frame.valueSlots.get? i = some c from hslot]
        rfl
      obtain ⟨type, htype⟩ := Option.isSome_iff_exists.mp hsome
      rw [Expr.address, hs, hhome]
      simp [Except.toOption, htype, Expr.id]

theorem address_eq (h : frame.Hosts t vs homes own) {e : Expr NodeId} {σ : Scope} {o : C.Operand}
    (hvs : ∀ v ∈ e.visits σ, v ∈ vs) (hclear : ∀ x ∈ e.names, frame.Clear x)
    (ho : frame.addressOf e = .ok o) (s : State Addr V) :
    (frame.view homes result s).address o = e.address t own σ s.env := by
  cases e with
  | name i x =>
      cases ho
      simp only [C.State.address, vars_view_clear (hclear x (List.mem_singleton_self x)),
        Expr.address]
  | literal i v | call i callee args =>
      obtain ⟨c, hc, ho⟩ := bind_eq_ok.mp ho
      cases ho
      obtain ⟨hmem, haddress⟩ := h.address_of_slotOf rfl hvs hc s.env
      simp only [C.State.address, vars_view_slot hmem, haddress]

theorem value_eq (h : frame.Hosts t vs homes own) {e : Expr NodeId} {σ : Scope} {o : C.Operand}
    (hvs : ∀ v ∈ e.visits σ, v ∈ vs) (hclear : ∀ x ∈ e.names, frame.Clear x)
    (ho : frame.valueOf e = .ok o) (s : State Addr V) :
    (frame.view homes result s).value o = (e.address t own σ s.env).map s.mem := by
  cases e with
  | name i x =>
      cases ho
      simp only [C.State.value, C.State.address,
        vars_view_clear (hclear x (List.mem_singleton_self x)), Expr.address]
      rfl
  | literal i v | call i callee args =>
      obtain ⟨c, hc, ho⟩ := bind_eq_ok.mp ho
      cases ho
      obtain ⟨hmem, haddress⟩ := h.address_of_slotOf rfl hvs hc s.env
      simp only [C.State.value, vars_view_slot hmem, haddress]
      rfl

/-- The arguments of a call are passed by address. -/
theorem mapM_address_eq (h : frame.Hosts t vs homes own) {es : List (Expr NodeId)} {σ : Scope}
    {os : List C.Operand} (hvs : ∀ v ∈ Expr.visitsAll σ es, v ∈ vs)
    (hclear : ∀ x ∈ Expr.namesAll es, frame.Clear x)
    (hos : List.Forall₂ (fun e o => frame.addressOf e = .ok o) es os) (s : State Addr V) :
    os.mapM (frame.view homes result s).address = es.mapM (Expr.address t own σ s.env) := by
  induction hos with
  | nil => rfl
  | @cons e o es os ho _ ih =>
      have he : (frame.view homes result s).address o = e.address t own σ s.env :=
        h.address_eq (fun v hv => hvs v (List.mem_append_left _ hv))
          (fun x hx => hclear x (List.mem_append_left _ hx)) ho s
      have hes := ih (fun v hv => hvs v (List.mem_append_right _ hv))
        (fun x hx => hclear x (List.mem_append_right _ hx))
      rw [List.mapM_cons, List.mapM_cons, he, hes]

theorem mapM_resultOperand (h : frame.Hosts t vs homes own) {id : NodeId} {result? : Option Ty}
    (hresult : (frame.valueSlots.get? id).isSome = result?.isSome) (s : State Addr V) :
    (frame.resultOperand id).mapM (frame.view homes result s).address =
      some (result?.map fun _ => own id).toList := by
  cases hslot : frame.valueSlots.get? id with
  | none =>
      rw [hslot] at hresult
      have hnone : result? = none := by simpa using hresult.symm
      rw [resultOperand, hslot, hnone]
      rfl
  | some c =>
      rw [hslot] at hresult
      obtain ⟨type, htype⟩ := Option.isSome_iff_exists.mp hresult.symm
      obtain ⟨hmem, hhome⟩ := h.value_home id c hslot
      rw [resultOperand, hslot, htype]
      simp [C.State.address, vars_view_slot hmem, hhome]

end Hosts

end Frame

/-! Expressions. -/

theorem Expr.address_update_self {Addr : Type} {t : SymbolTable} {own : NodeId → Addr}
    {e : Expr NodeId} {σ : Scope} {env : String → Option Addr} {a : Addr}
    (h : e.address t own σ env = some a) (x : String) :
    e.address t own σ (Function.update env x (some a)) = some a := by
  cases e with
  | literal i v | call i callee args => exact h
  | name i y =>
      by_cases hy : y = x
      · rw [Expr.address, hy, Function.update_self]
      · rw [Expr.address, Function.update_of_ne hy]
        exact h

section Expressions

variable {Addr V : Type} [DecidableEq Addr] {t : SymbolTable} {vs : List Visit}
  {homes : String → Addr} {own : NodeId → Addr} {result : Addr} {frame : Frame}
variable (I : Interpretation Addr V) (fuel : Nat)

mutual

theorem Expr.execAll_lowerCalls (h : frame.Hosts t vs homes own) (σ : Scope) :
    ∀ (e : Expr NodeId) (out : List C.Stmt), e.lowerCalls frame = .ok out →
      (∀ v ∈ e.visits σ, v ∈ vs) → (∀ x ∈ e.names, frame.Clear x) → ∀ s : State Addr V,
        C.Stmt.execAll I fuel out (frame.view homes result s) =
          .ofOption ((e.perform t I own σ s.env s.mem).map fun mem =>
            frame.view homes result ⟨s.env, mem⟩)
  | .literal _ _, out, hout, _, _, s | .name _ _, out, hout, _, _, s => by
      cases hout
      rfl
  | .call i callee args, out, hout, hvs, hclear, s => by
      obtain ⟨before, operands, name, hbefore, hoperands, hname, rfl⟩ :=
        Expr.lowerCalls_call_eq_ok hout
      have hargs : ∀ v ∈ Expr.visitsAll σ args, v ∈ vs := fun v hv =>
        hvs v (List.mem_cons_of_mem _ hv)
      obtain ⟨symbol, hsymbol, hcalled, hresult⟩ :=
        h.called σ i callee args (hvs _ List.mem_cons_self)
      have hexternal : name = symbol.externalName := by
        rw [hcalled] at hname
        exact (Option.some.inj hname).symm
      rw [C.Stmt.execAll_append, Expr.execAll_lowerCallsAll h σ args before hbefore hargs hclear s,
        Expr.perform]
      cases Expr.performAll t I own σ s.env args s.mem with
      | none => rfl
      | some mem =>
          -- with the arguments in place, the call sees the addresses of the source
          have haddresses : operands.mapM (frame.view homes result ⟨s.env, mem⟩).address =
              args.mapM (Expr.address t own σ s.env) :=
            h.mapM_address_eq hargs hclear hoperands ⟨s.env, mem⟩
          have hreturn : (frame.resultOperand i).mapM
              (frame.view homes result ⟨s.env, mem⟩).address =
                some (symbol.result.map fun _ => own i).toList :=
            h.mapM_resultOperand hresult ⟨s.env, mem⟩
          simp only [Option.map_some, Outcome.ofOption, Outcome.andThen,
            C.Stmt.execAll_singleton, C.Stmt.exec, List.mapM_append, haddresses, hreturn, hsymbol,
            hexternal]
          cases args.mapM (Expr.address t own σ s.env) <;> rfl

theorem Expr.execAll_lowerCallsAll (h : frame.Hosts t vs homes own) (σ : Scope) :
    ∀ (es : List (Expr NodeId)) (out : List C.Stmt), Expr.lowerCallsAll frame es = .ok out →
      (∀ v ∈ Expr.visitsAll σ es, v ∈ vs) → (∀ x ∈ Expr.namesAll es, frame.Clear x) →
        ∀ s : State Addr V,
          C.Stmt.execAll I fuel out (frame.view homes result s) =
            .ofOption ((Expr.performAll t I own σ s.env es s.mem).map fun mem =>
              frame.view homes result ⟨s.env, mem⟩)
  | [], out, hout, _, _, s => by
      cases hout
      rfl
  | e :: es, out, hout, hvs, hclear, s => by
      obtain ⟨first, more, hfirst, hmore, rfl⟩ := Expr.lowerCallsAll_cons_eq_ok hout
      rw [C.Stmt.execAll_append, Expr.performAll,
        Expr.execAll_lowerCalls h σ e first hfirst (fun v hv => hvs v (List.mem_append_left _ hv))
          (fun x hx => hclear x (List.mem_append_left _ hx)) s]
      cases e.perform t I own σ s.env s.mem with
      | none => rfl
      | some mem =>
          exact Expr.execAll_lowerCallsAll h σ es more hmore
            (fun v hv => hvs v (List.mem_append_right _ hv))
            (fun x hx => hclear x (List.mem_append_right _ hx)) ⟨s.env, mem⟩

end

/-- The calls of an expression, and after them code that starts by reading its value. -/
theorem Expr.execAll_evaluate (h : frame.Hosts t vs homes own) {σ : Scope} {e : Expr NodeId}
    {out rest : List C.Stmt} {o : C.Operand} (hout : e.lowerCalls frame = .ok out)
    (ho : frame.valueOf e = .ok o) (hvs : ∀ v ∈ e.visits σ, v ∈ vs)
    (hclear : ∀ x ∈ e.names, frame.Clear x)
    {next : State Addr V → V → Outcome C.Exit (C.State Addr V)}
    (hrest : ∀ s, C.Stmt.execAll I fuel rest (frame.view homes result s) =
      ((frame.view homes result s).value o).elim .stuck (next s)) (s : State Addr V) :
    C.Stmt.execAll I fuel (out ++ rest) (frame.view homes result s) =
      (e.evaluate t I own σ s).elim .stuck fun r => next r.1 r.2 := by
  rw [C.Stmt.execAll_append, Expr.execAll_lowerCalls I fuel h σ e out hout hvs hclear s,
    Expr.evaluate]
  cases e.perform t I own σ s.env s.mem with
  | none => rfl
  | some mem =>
      have hvalue : (frame.view homes result ⟨s.env, mem⟩).value o =
          (e.address t own σ s.env).map mem := h.value_eq hvs hclear ho ⟨s.env, mem⟩
      change C.Stmt.execAll I fuel rest (frame.view homes result ⟨s.env, mem⟩) = _
      rw [hrest, hvalue]
      cases e.address t own σ s.env <;> rfl

theorem Expr.execAll_evaluate_toC (h : frame.Hosts t vs homes own) {σ : Scope} {e : Expr NodeId}
    {out rest : List C.Stmt} {o : C.Operand} (hout : e.lowerCalls frame = .ok out)
    (ho : frame.valueOf e = .ok o) (hvs : ∀ v ∈ e.visits σ, v ∈ vs)
    (hclear : ∀ x ∈ e.names, frame.Clear x)
    {next : State Addr V × V → Outcome Unit (State Addr V)}
    (hrest : ∀ s, C.Stmt.execAll I fuel rest (frame.view homes result s) =
      ((frame.view homes result s).value o).elim .stuck fun v =>
        (next (s, v)).toC (frame.view homes result))
    (s : State Addr V) :
    C.Stmt.execAll I fuel (out ++ rest) (frame.view homes result s) =
      ((e.evaluate t I own σ s).elim .stuck next).toC (frame.view homes result) := by
  rw [Expr.execAll_evaluate I fuel h hout ho hvs hclear hrest s]
  cases e.evaluate t I own σ s <;> rfl

end Expressions

/-! Statements. -/

section Statements

variable {Addr V : Type} [DecidableEq Addr] {t : SymbolTable} {types : Table NodeId Ty}
  {vs : List Visit} {homes : String → Addr} {own : NodeId → Addr} {result : Addr} {frame : Frame}
variable (I : Interpretation Addr V) (fuel : Nat)

theorem Frame.exec_point {x : String} (hx : frame.Clear x) (target : C.Operand)
    (s : State Addr V) :
    C.Stmt.exec I fuel (.assign (.name x) target) (frame.view homes result s) =
      .ofOption (((frame.view homes result s).address target).map fun a =>
        frame.view homes result ⟨Function.update s.env x (some a), s.mem⟩) := by
  rw [C.Stmt.exec, C.State.assign]
  simp only [Frame.vars_view_clear hx, Frame.view_bind hx]
  rfl

theorem Frame.exec_store {x : String} (hx : frame.Clear x) (value : C.Operand)
    (s : State Addr V) :
    C.Stmt.exec I fuel (.assign (.deref x) value) (frame.view homes result s) =
      .ofOption ((s.env x).bind fun a => ((frame.view homes result s).value value).map fun v =>
        frame.view homes result ⟨s.env, Function.update s.mem a v⟩) := by
  rw [C.Stmt.exec, C.State.assign]
  simp only [C.State.address, Frame.vars_view_clear hx]
  cases s.env x with
  | none => rfl
  | some a => cases (frame.view homes result s).value value <;> rfl

/-- Both ways to declare a variable point it at a target and then store the value through it. -/
theorem Frame.Hosts.execAll_declare (h : frame.Hosts t vs homes own) {σ : Scope} {x : String}
    {e : Expr NodeId} {calls : List C.Stmt} {target value : C.Operand} {place : Option Addr}
    (hcalls : e.lowerCalls frame = .ok calls) (hvalue : frame.valueOf e = .ok value)
    (hvs : ∀ v ∈ e.visits σ, v ∈ vs) (hx : frame.Clear x) (hclear : ∀ y ∈ e.names, frame.Clear y)
    (s : State Addr V)
    (htarget : ∀ mem : Addr → V,
      (frame.view homes result ⟨s.env, mem⟩).address target = place) :
    C.Stmt.execAll I fuel (calls ++ [.assign (.name x) target, .assign (.deref x) value])
        (frame.view homes result s) =
      .ofOption (((e.perform t I own σ s.env s.mem).bind fun mem => place.bind fun a =>
        (e.address t own σ (Function.update s.env x (some a))).map fun b =>
          ⟨Function.update s.env x (some a), Function.update mem a (mem b)⟩).map
            (frame.view homes result)) := by
  rw [C.Stmt.execAll_append, Expr.execAll_lowerCalls I fuel h σ e calls hcalls hvs hclear s]
  cases e.perform t I own σ s.env s.mem with
  | none => rfl
  | some mem =>
      simp only [Option.map_some, Outcome.ofOption, Outcome.andThen, C.Stmt.execAll,
        Frame.exec_point I fuel hx, htarget mem, Option.bind_some]
      cases place with
      | none => rfl
      | some a =>
          simp only [Option.map_some, Frame.exec_store I fuel hx, Function.update_self,
            Option.bind_some, h.value_eq hvs hclear hvalue]
          cases e.address t own σ (Function.update s.env x (some a)) <;> rfl

theorem Stmt.execAll_declare (h : frame.Hosts t vs homes own) {σ : Scope} {id : NodeId}
    {storage : Storage} {x : String} {e : Expr NodeId} {out : List C.Stmt}
    (hout : Stmt.lower frame (.declare id storage x e) = .ok out)
    (hvs : ∀ v ∈ e.visits (σ.set x (declaredType t types σ id e)), v ∈ vs)
    (hx : frame.Clear x) (hclear : ∀ y ∈ e.names, frame.Clear y) (s : State Addr V) :
    C.Stmt.execAll I fuel out (frame.view homes result s) =
      (Stmt.exec t types I own result fuel σ (.declare id storage x e) s).toC
        (frame.view homes result) := by
  cases Stmt.lowersTo_of_lower hout with
  | @declare _ _ _ _ _ target _ hcalls htarget hvalue =>
      cases storage with
      | shared =>
          have haddress : ∀ mem : Addr → V,
              (frame.view homes result ⟨s.env, mem⟩).address target =
                e.address t own (σ.set x (declaredType t types σ id e)) s.env := fun mem =>
            h.address_eq hvs hclear htarget ⟨s.env, mem⟩
          rw [h.execAll_declare I fuel hcalls hvalue hvs hx hclear s haddress, Stmt.exec,
            Outcome.toC_ofOption]
          cases e.perform t I own (σ.set x (declaredType t types σ id e)) s.env s.mem with
          | none => rfl
          | some mem =>
              cases hinit : e.address t own (σ.set x (declaredType t types σ id e)) s.env with
              | none => rfl
              | some a => simp [Expr.address_update_self hinit x]
      | own =>
          obtain ⟨c, hc, htarget⟩ := bind_eq_ok.mp htarget
          cases htarget
          obtain ⟨hmem, hhome⟩ := h.own_home id c (Frame.hasSlot_of_ownSlotOf hc)
          have haddress : ∀ mem : Addr → V,
              (frame.view homes result ⟨s.env, mem⟩).address (.addressOf c) = some (own id) := by
            intro mem
            simp only [C.State.address, Frame.vars_view_slot hmem, hhome]
          rw [h.execAll_declare I fuel hcalls hvalue hvs hx hclear s haddress, Stmt.exec,
            Outcome.toC_ofOption]
          cases e.perform t I own (σ.set x (declaredType t types σ id e)) s.env s.mem with
          | none => rfl
          | some mem =>
              simp only [Option.bind_some]
              cases e.address t own (σ.set x (declaredType t types σ id e))
                (Function.update s.env x (some (own id))) <;> rfl

/-- A loop that evaluates its condition and leaves unless it holds is a loop with a condition. -/
theorem Frame.Hosts.exec_loop (h : frame.Hosts t vs homes own) {σ : Scope} {c : Expr NodeId}
    {calls body : List C.Stmt} {value : C.Operand} (hcalls : c.lowerCalls frame = .ok calls)
    (hvalue : frame.valueOf c = .ok value) (hvs : ∀ v ∈ c.visits σ, v ∈ vs)
    (hclear : ∀ x ∈ c.names, frame.Clear x) {turn : State Addr V → Outcome Unit (State Addr V)}
    (hbody : ∀ s, C.Stmt.execAll I fuel body (frame.view homes result s) =
      (turn s).toC (frame.view homes result)) (s : State Addr V) :
    C.Stmt.exec I fuel (.loop (calls ++ .leaveLoopUnless value :: body))
        (frame.view homes result s) =
      (repeatWhile (fun s => (c.evaluate t I own σ s).map fun r => (r.1, I.truth r.2))
        turn fuel s).toC (frame.view homes result) := by
  rw [C.Stmt.exec]
  refine loopForever_eq_repeatWhile ?_ fuel s
  intro s
  have hrest : ∀ s, C.Stmt.execAll I fuel (.leaveLoopUnless value :: body)
      (frame.view homes result s) =
        ((frame.view homes result s).value value).elim .stuck fun v =>
          if I.truth v then (turn s).toC (frame.view homes result)
          else .left .loop (frame.view homes result s) := by
    intro s
    rw [C.Stmt.execAll, C.Stmt.exec]
    cases (frame.view homes result s).value value with
    | none => rfl
    | some v =>
        simp only [Option.elim_some]
        cases I.truth v with
        | true => exact hbody s
        | false => rfl
  rw [Expr.execAll_evaluate I fuel h hcalls hvalue hvs hclear hrest s]
  cases c.evaluate t I own σ s <;> rfl

/-- The value of a `return` goes to the result, which no slot or variable hides. -/
theorem Frame.Hosts.execAll_leave (h : frame.Hosts t vs homes own) {σ : Scope} {e : Expr NodeId}
    {type : Ty} (hresult : frame.result = some type) {calls : List C.Stmt} {value : C.Operand}
    (hcalls : e.lowerCalls frame = .ok calls) (hvalue : frame.valueOf e = .ok value)
    (hvs : ∀ v ∈ e.visits σ, v ∈ vs) (hclear : ∀ x ∈ e.names, frame.Clear x)
    (s : State Addr V) :
    C.Stmt.execAll I fuel (calls ++ [.assign (.deref C.resultParam) value, .leave])
        (frame.view homes result s) =
      Outcome.toC (frame.view homes result) ((e.evaluate t I own σ s).elim .stuck fun r =>
        .left () ⟨r.1.env, Function.update r.1.mem result r.2⟩) := by
  have hvars : ∀ s : State Addr V, (frame.view homes result s).vars C.resultParam =
      .pointer (some result) := by
    intro s
    simp only [Frame.view, h.result_clear, hresult, if_false, Option.isSome_some, and_self,
      if_true]
  refine Expr.execAll_evaluate_toC I fuel h hcalls hvalue hvs hclear ?_ s
  intro s
  rw [C.Stmt.execAll, C.Stmt.exec, C.State.assign]
  simp only [C.State.address, hvars]
  cases (frame.view homes result s).value value <;> rfl

mutual

/-- A lowered statement does to the view of a state what the statement does to the state. -/
theorem Stmt.execAll_lower (h : frame.Hosts t vs homes own) (σ : Scope) :
    ∀ (d : Stmt NodeId) (out : List C.Stmt), d.lower frame = .ok out →
      (∀ v ∈ d.visits t types σ, v ∈ vs) → (∀ x ∈ d.declared ++ d.names, frame.Clear x) →
        ∀ s : State Addr V,
          C.Stmt.execAll I fuel out (frame.view homes result s) =
            (d.exec t types I own result fuel σ s).toC (frame.view homes result)
  | .declare i .shared x e, out, hout, hvs, hclear, s => by
      exact Stmt.execAll_declare I fuel h hout (fun v hv => hvs v (List.mem_cons_of_mem _ hv))
        (hclear x List.mem_cons_self) (fun y hy => hclear y (List.mem_cons_of_mem _ hy)) s
  | .declare i .own x e, out, hout, hvs, hclear, s => by
      exact Stmt.execAll_declare I fuel h hout
        (fun v hv => hvs v (List.mem_append_left _ (List.mem_cons_of_mem _ hv)))
        (hclear x List.mem_cons_self) (fun y hy => hclear y (List.mem_cons_of_mem _ hy)) s
  | .assign i x e, out, hout, hvs, hclear, s => by
      cases Stmt.lowersTo_of_lower hout with
      | @assign _ _ _ _ value hcalls hvalue =>
          rw [Stmt.exec]
          refine Expr.execAll_evaluate_toC I fuel h hcalls hvalue hvs
            (fun y hy => hclear y (List.mem_cons_of_mem _ hy)) ?_ s
          intro s
          rw [C.Stmt.execAll_singleton, Frame.exec_store I fuel (hclear x List.mem_cons_self)]
          cases (frame.view homes result s).value value with
          | none => cases s.env x <;> rfl
          | some v =>
              simp only [Option.elim_some, Option.map_some, Outcome.toC_ofOption]
              cases s.env x <;> rfl
  | .branch i c yes none, out, hout, hvs, hclear, s => by
      cases Stmt.lowersTo_of_lower hout with
      | branch hcalls hvalue hyes =>
          have hyes := Stmt.execAll_lowerAll h σ yes _ hyes
            (fun v hv => hvs v (List.mem_append_right _ hv))
            (fun x hx => hclear x (by grind [Stmt.declared, Stmt.names]))
          rw [Stmt.exec]
          refine Expr.execAll_evaluate_toC I fuel h hcalls hvalue
            (fun v hv => hvs v (List.mem_append_left _ hv))
            (fun x hx => hclear x (by grind [Stmt.declared, Stmt.names])) ?_ s
          intro s
          rw [C.Stmt.execAll_singleton, C.Stmt.exec]
          congr 1
          funext v
          cases I.truth v with
          | true => exact hyes s
          | false => rfl
  | .branch i c yes (some no), out, hout, hvs, hclear, s => by
      cases Stmt.lowersTo_of_lower hout with
      | branchElse hcalls hvalue hyes hno =>
          have hyes := Stmt.execAll_lowerAll h σ yes _ hyes
            (fun v hv => hvs v (List.mem_append_left _ (List.mem_append_right _ hv)))
            (fun x hx => hclear x (by grind [Stmt.declared, Stmt.names]))
          have hno := Stmt.execAll_lowerAll h (Stmt.scopeAfterAll t types σ yes) no _ hno
            (fun v hv => hvs v (List.mem_append_right _ hv))
            (fun x hx => hclear x (by grind [Stmt.declared, Stmt.names]))
          rw [Stmt.exec]
          refine Expr.execAll_evaluate_toC I fuel h hcalls hvalue
            (fun v hv => hvs v (List.mem_append_left _ (List.mem_append_left _ hv)))
            (fun x hx => hclear x (by grind [Stmt.declared, Stmt.names])) ?_ s
          intro s
          rw [C.Stmt.execAll_singleton, C.Stmt.exec]
          congr 1
          funext v
          cases I.truth v with
          | true => exact hyes s
          | false => exact hno s
  | .loop i c body, out, hout, hvs, hclear, s => by
      cases Stmt.lowersTo_of_lower hout with
      | loop hcalls hvalue hbody =>
          have hbody := Stmt.execAll_lowerAll h σ body _ hbody
            (fun v hv => hvs v (List.mem_append_right _ hv))
            (fun x hx => hclear x (by grind [Stmt.declared, Stmt.names]))
          rw [C.Stmt.execAll_singleton, Stmt.exec]
          exact h.exec_loop I fuel hcalls hvalue (fun v hv => hvs v (List.mem_append_left _ hv))
            (fun x hx => hclear x (by grind [Stmt.declared, Stmt.names])) hbody s
  | .leave _ none, out, hout, _, _, s => by
      cases hout
      rfl
  | .leave _ (some e), out, hout, hvs, hclear, s => by
      cases Stmt.lowersTo_of_lower hout with
      | leaveWith hresult hcalls hvalue =>
          rw [Stmt.exec]
          exact h.execAll_leave I fuel hresult hcalls hvalue hvs hclear s
  | .call _ e, out, hout, hvs, hclear, s => by
      rw [Stmt.exec, Expr.execAll_lowerCalls I fuel h σ e out hout hvs hclear s,
        Outcome.toC_ofOption]
      cases e.perform t I own σ s.env s.mem <;> rfl

theorem Stmt.execAll_lowerAll (h : frame.Hosts t vs homes own) (σ : Scope) :
    ∀ (ds : List (Stmt NodeId)) (out : List C.Stmt), Stmt.lowerAll frame ds = .ok out →
      (∀ v ∈ Stmt.visitsAll t types σ ds, v ∈ vs) →
      (∀ x ∈ Stmt.declaredAll ds ++ Stmt.namesAll ds, frame.Clear x) → ∀ s : State Addr V,
        C.Stmt.execAll I fuel out (frame.view homes result s) =
          (Stmt.execAll t types I own result fuel σ ds s).toC (frame.view homes result)
  | [], out, hout, _, _, s => by
      cases hout
      rfl
  | d :: ds, out, hout, hvs, hclear, s => by
      obtain ⟨first, more, hfirst, hmore, rfl⟩ := Stmt.lowerAll_cons_eq_ok hout
      have hd := Stmt.execAll_lower h σ d first hfirst
        (fun v hv => hvs v (List.mem_append_left _ hv))
        (fun x hx => hclear x (by grind [Stmt.declaredAll, Stmt.namesAll])) s
      have hds := Stmt.execAll_lowerAll h (d.scopeAfter t types σ) ds more hmore
        (fun v hv => hvs v (List.mem_append_right _ hv))
        (fun x hx => hclear x (by grind [Stmt.declaredAll, Stmt.namesAll]))
      rw [C.Stmt.execAll_append, hd, Outcome.toC_andThen hds, Stmt.execAll]

end

end Statements

/-! Whole functions. -/

/-- The address that a node owns when the slots have the given homes. -/
def Frame.home {Addr : Type} (frame : Frame) (homes : String → Addr) (id : NodeId) : Addr :=
  homes (((frame.valueSlots.get? id).or (frame.ownSlots.get? id)).getD "")

/-- The C function has a variable or parameter `x` that the source does not have: what the source
calls `x` is a constant of the module. -/
def C.Function.Captures (g : C.Function) (f : FunctionDecl NodeId) (x : String) : Prop :=
  x ∉ f.params.map (·.name) ∧ x ∉ Stmt.declaredAll f.body ∧
    (x ∈ g.locals.map (·.name) ∨ x ∈ g.prototype.params.map (·.name))

instance (g : C.Function) (f : FunctionDecl NodeId) (x : String) : Decidable (g.Captures f x) :=
  inferInstanceAs (Decidable (_ ∧ _ ∧ _))

section Whole

variable {Addr V : Type} {t : SymbolTable} {types : Table NodeId Ty} {globals : Scope}
  {f : FunctionDecl NodeId} {frame : Frame}

theorem Frame.home_of_hasSlot (hids : (Stmt.idsAll f.body).Nodup)
    (h : f.frame t types globals = .ok frame) (homes : String → Addr) {id : NodeId} {c : String}
    (hslot : frame.HasSlot id c) : frame.home homes id = homes c := by
  obtain hvalue | hown := hslot
  · simp [Frame.home, hvalue]
  · have hnone := (FunctionDecl.numbered_of_frame hids h).valueSlots_of_ownSlots
      (FunctionDecl.nodup_slotIds hids) hown
    simp [Frame.home, hnone, hown]

theorem FunctionDecl.hosts_of_frame {m : Module NodeId}
    (hcapital : ∀ d ∈ m.functions, startsCapital d.name = false)
    (hids : (Stmt.idsAll f.body).Nodup) (h : f.frame m.symbolTable types globals = .ok frame)
    (homes : String → Addr) :
    frame.Hosts m.symbolTable (f.visits m.symbolTable types globals) homes (frame.home homes) := by
  have hframed := FunctionDecl.framed_of_frame h
  have hnumbered := FunctionDecl.numbered_of_frame hids h
  refine {
    value_home := ?_
    own_home := ?_
    result_clear := fun hc => (hnumbered.isReserved_of_mem_slots hc).2 rfl
    called := ?_ }
  · intro id c hslot
    exact ⟨hnumbered.name_mem_slots (.inl hslot),
      (Frame.home_of_hasSlot hids h homes (.inl hslot)).symm⟩
  · intro id c hslot
    exact ⟨hnumbered.name_mem_slots (.inr hslot),
      (Frame.home_of_hasSlot hids h homes (.inr hslot)).symm⟩
  · intro σ id callee args hv
    obtain ⟨s, hs⟩ := hframed.granted _ hv
    refine ⟨s, hs, ?_, hnumbered.isSome_slot_of_call (FunctionDecl.nodup_slotIds hids) hv hs⟩
    rw [hnumbered.called_of_mem hv hs, Module.calledName_eq hcapital hs]

/-- Nodes that own an address have a slot. -/
theorem FunctionDecl.hasSlot_of_owner (hids : (Stmt.idsAll f.body).Nodup)
    (h : f.frame t types globals = .ok frame) {id : NodeId}
    (hid : id ∈ f.owners t types globals) : ∃ c, frame.HasSlot id c := by
  have hnumbered := FunctionDecl.numbered_of_frame hids h
  obtain hid | hid := List.mem_append.mp hid
  · obtain ⟨p, hp, rfl⟩ := List.mem_map.mp hid
    obtain ⟨i, hi⟩ := List.getElem?_of_mem hp
    exact ⟨_, hnumbered.hasSlot_iff.mpr (.inl ⟨i, p.2, hi, rfl⟩)⟩
  · obtain ⟨p, hp, hsite⟩ := List.mem_filterMap.mp hid
    obtain ⟨j, hj⟩ := List.getElem?_of_mem hp
    exact ⟨_, hnumbered.hasSlot_iff.mpr (.inr ⟨j, p.1, p.2, hj, hsite, rfl⟩)⟩

/-- Slots apart in C are addresses apart in the source. -/
theorem FunctionDecl.injOn_home (hids : (Stmt.idsAll f.body).Nodup)
    (h : f.frame t types globals = .ok frame) {homes : String → Addr}
    (hhomes : Set.InjOn homes {c | c ∈ frame.locals.map (·.name)}) :
    Set.InjOn (frame.home homes) {id | id ∈ f.owners t types globals} := by
  have hnumbered := FunctionDecl.numbered_of_frame hids h
  intro i hi j hj heq
  obtain ⟨c, hc⟩ := FunctionDecl.hasSlot_of_owner hids h hi
  obtain ⟨d, hd⟩ := FunctionDecl.hasSlot_of_owner hids h hj
  rw [Frame.home_of_hasSlot hids h homes hc, Frame.home_of_hasSlot hids h homes hd] at heq
  have hlocal : ∀ {id c}, frame.HasSlot id c → c ∈ frame.locals.map (·.name) := fun hslot =>
    frame.name_mem_locals_iff.mpr (.inr (hnumbered.name_mem_slots hslot))
  have hcd : c = d := hhomes (hlocal hc) (hlocal hd) heq
  exact hnumbered.slot_unshared hc (hcd ▸ hd)

/-- The literals are where the nodes of the source have them. -/
theorem FunctionDecl.initials_home (hids : (Stmt.idsAll f.body).Nodup)
    (h : f.frame t types globals = .ok frame) (homes : String → Addr) :
    frame.initials.map (fun c => (homes c.1, c.2)) =
      (literals (f.visits t types globals)).map fun p => (frame.home homes p.1, p.2) := by
  have hnumbered := FunctionDecl.numbered_of_frame hids h
  rw [hnumbered.initials_eq]
  refine List.ext_getElem? ?_
  intro i
  simp only [List.getElem?_map, List.getElem?_mapIdx, Option.map_map]
  cases hget : (literals (f.visits t types globals))[i]? with
  | none => rfl
  | some p =>
      have hslot : frame.HasSlot p.1 (constName i) :=
        hnumbered.hasSlot_iff.mpr (.inl ⟨i, p.2, hget, rfl⟩)
      simp [Frame.home_of_hasSlot hids h homes hslot]

/-- The names that C keeps apart from its own are those that are not captured. -/
theorem FunctionDecl.clear_iff (hids : (Stmt.idsAll f.body).Nodup)
    (h : f.frame t types globals = .ok frame) {g : C.Function}
    (hlocals : g.locals = frame.locals) (hprototype : g.prototype = f.prototype t) {x : String} :
    frame.Clear x ↔ ¬ g.Captures f x := by
  have hframed := FunctionDecl.framed_of_frame h
  have hnumbered := FunctionDecl.numbered_of_frame hids h
  rw [C.Function.Captures, hlocals, hprototype, frame.name_mem_locals_iff,
    FunctionDecl.name_mem_declared h, FunctionDecl.name_mem_prototype, Frame.Clear,
    hframed.result_eq]
  constructor
  · intro hclear hcaptures
    obtain ⟨hparam, hdeclared, (hlocal | hslot) | (hresult | hparam')⟩ := hcaptures
    · exact hdeclared hlocal.1
    · exact hclear.1 hslot
    · exact hclear.2 hresult
    · exact hparam hparam'
  · intro hcaptures
    -- a name of the source's own is not reserved
    have hfree : isReserved x = true →
        x ∉ f.params.map (·.name) ∧ x ∉ Stmt.declaredAll f.body := by
      intro hreserved
      refine ⟨?_, ?_⟩
      · intro hparam
        obtain ⟨p, hp, rfl⟩ := List.mem_map.mp hparam
        rw [hframed.param_free p hp] at hreserved
        cases hreserved
      · intro hdeclared
        rw [hframed.declared_free hdeclared] at hreserved
        cases hreserved
    refine ⟨?_, ?_⟩
    · intro hslot
      obtain ⟨hparam, hdeclared⟩ := hfree (hnumbered.isReserved_of_mem_slots hslot).1
      exact hcaptures ⟨hparam, hdeclared, .inl (.inr hslot)⟩
    · intro hresult
      obtain ⟨hparam, hdeclared⟩ := hfree (hresult.1 ▸ isReserved_resultParam)
      exact hcaptures ⟨hparam, hdeclared, .inr (.inl hresult)⟩

/-- Only constants of the module with reserved names are captured. -/
theorem FunctionDecl.isReserved_of_captures (hids : (Stmt.idsAll f.body).Nodup)
    (h : f.frame t types globals = .ok frame) {g : C.Function}
    (hlocals : g.locals = frame.locals) (hprototype : g.prototype = f.prototype t) {x : String}
    (hx : x ∈ Stmt.namesAll f.body) (hcaptures : g.Captures f x) :
    (globals x).isSome ∧ isReserved x = true := by
  have hframed := FunctionDecl.framed_of_frame h
  have hnumbered := FunctionDecl.numbered_of_frame hids h
  rw [C.Function.Captures, hlocals, hprototype, frame.name_mem_locals_iff,
    FunctionDecl.name_mem_declared h, FunctionDecl.name_mem_prototype] at hcaptures
  obtain ⟨hparam, hdeclared, hown⟩ := hcaptures
  refine ⟨?_, ?_⟩
  · obtain hlocal | hglobal := Frame.isSome_scope.mp (hframed.visible x hx)
    · rw [Frame.isSome_localScope, hframed.params_eq, FunctionDecl.name_mem_declared h] at hlocal
      exact absurd hlocal (by simp [hparam, hdeclared])
    · exact hframed.globals_eq ▸ hglobal
  · obtain (hlocal | hslot) | (hresult | hparam') := hown
    · exact absurd hlocal.1 hdeclared
    · exact (hnumbered.isReserved_of_mem_slots hslot).1
    · exact hresult.1 ▸ isReserved_resultParam
    · exact absurd hparam' hparam

theorem FunctionDecl.entryVars_eq (hids : (Stmt.idsAll f.body).Nodup)
    (h : f.frame t types globals = .ok frame) {g : C.Function}
    (hlocals : g.locals = frame.locals) (hprototype : g.prototype = f.prototype t)
    (homes : String → Addr) (act : Activation Addr) (mem : Addr → V) :
    g.entryVars homes act = (frame.view homes act.result ⟨f.entryEnv act, mem⟩).vars := by
  have hframed := FunctionDecl.framed_of_frame h
  have hnumbered := FunctionDecl.numbered_of_frame hids h
  funext x
  simp only [C.Function.entryVars, Frame.view, FunctionDecl.entryEnv, hlocals, hprototype,
    frame.name_mem_locals_iff, FunctionDecl.name_mem_declared h, FunctionDecl.name_mem_prototype,
    hframed.result_eq]
  by_cases hslot : x ∈ frame.slots.map (·.name)
  · have hreserved := (hnumbered.isReserved_of_mem_slots hslot).1
    simp only [hslot, hreserved, or_true, if_true]
  · by_cases hresult : x = C.resultParam ∧ f.result.isSome
    · obtain ⟨rfl, hsome⟩ := hresult
      have hdeclared : C.resultParam ∉ Stmt.declaredAll f.body := by
        intro hdeclared
        have hreserved := hframed.declared_free hdeclared
        rw [isReserved_resultParam] at hreserved
        cases hreserved
      simp only [hslot, hdeclared, hsome, false_and, or_false, true_or, and_self, if_false,
        if_true]
    · by_cases hparam : x ∈ f.params.map (·.name)
      · have hne : x ≠ C.resultParam := by
          intro heq
          obtain ⟨p, hp, hname⟩ := List.mem_map.mp hparam
          have hreserved := hframed.param_free p hp
          rw [hname, heq, isReserved_resultParam] at hreserved
          cases hreserved
        simp only [hslot, hparam, hne, not_true, and_false, or_false, or_true, false_and,
          if_false, if_true]
      · by_cases hdeclared : x ∈ Stmt.declaredAll f.body
        · simp only [hslot, hresult, hparam, hdeclared, hframed.declared_free hdeclared,
            not_false_eq_true, and_self, true_or, Bool.false_eq_true, if_false, if_true]
        · simp only [hslot, hresult, hparam, hdeclared, false_and, or_false, if_false]

/-- A name is clear if it starts out in C as it does in the source, whatever the function is
given. -/
theorem FunctionDecl.clear_iff_entryVars (hids : (Stmt.idsAll f.body).Nodup)
    (h : f.frame t types globals = .ok frame) {g : C.Function}
    (hlocals : g.locals = frame.locals) (hprototype : g.prototype = f.prototype t)
    (homes : String → Addr) {x : String} :
    frame.Clear x ↔
      ∀ act : Activation Addr, g.entryVars homes act x = .pointer (f.entryEnv act x) := by
  have hvars := fun act : Activation Addr =>
    congrFun (FunctionDecl.entryVars_eq hids h hlocals hprototype homes act fun _ => ()) x
  constructor
  · intro hclear act
    rw [hvars act, Frame.vars_view_clear hclear]
  · intro hall
    by_contra hclear
    have hcaptures := not_not.mp (mt (FunctionDecl.clear_iff hids h hlocals hprototype).mpr hclear)
    -- an activation that gives the module no constants
    have hnone := hall ⟨homes x, fun _ => homes x, fun _ => none⟩
    rw [hvars] at hnone
    simp only [Frame.view, FunctionDecl.entryEnv, hcaptures.1, hcaptures.2.1, if_false] at hnone
    refine hclear ⟨?_, ?_⟩
    · intro hslot
      simp only [hslot, if_true] at hnone
      cases hnone
    · intro hresult
      split at hnone <;> cases hnone

/-- The source and the C code start out alike. -/
theorem FunctionDecl.view_entry [DecidableEq Addr] (hids : (Stmt.idsAll f.body).Nodup)
    (h : f.frame t types globals = .ok frame) {g : C.Function}
    (hlocals : g.locals = frame.locals) (hprototype : g.prototype = f.prototype t)
    (hinitials : g.initials = frame.initials) (I : Interpretation Addr V)
    (homes : String → Addr) (act : Activation Addr) (mem : Addr → V) :
    (⟨g.entryVars homes act, I.fill mem (g.initials.map fun c => (homes c.1, c.2))⟩ :
        C.State Addr V) =
      frame.view homes act.result ⟨f.entryEnv act, I.fill mem
        ((literals (f.visits t types globals)).map fun p => (frame.home homes p.1, p.2))⟩ := by
  rw [hinitials, FunctionDecl.initials_home hids h,
    FunctionDecl.entryVars_eq hids h hlocals hprototype]
  rfl

end Whole

/-- A generated function ends as its source does, unless it captures a name of the body, which
happens only to constants of the module with reserved names. The captured names are exactly those
that do not start out in C as they do in the source. -/
theorem FunctionDecl.run_of_generate {m : Module NodeId} {types : Table NodeId Ty}
    {globals : Scope} {f : FunctionDecl NodeId} {g : C.Function}
    (hcapital : ∀ d ∈ m.functions, startsCapital d.name = false)
    (hids : (Stmt.idsAll f.body).Nodup) (h : f.generate m.symbolTable types globals = .ok g)
    {Addr V : Type} [DecidableEq Addr] (homes : String → Addr) :
    (∀ x ∈ Stmt.namesAll f.body, g.Captures f x → (globals x).isSome ∧ isReserved x = true) ∧
    (∀ x, ¬ g.Captures f x ↔
      ∀ act : Activation Addr, g.entryVars homes act x = .pointer (f.entryEnv act x)) ∧
    ((∀ x ∈ Stmt.namesAll f.body, ¬ g.Captures f x) →
      ∃ own : NodeId → Addr,
        (Set.InjOn homes {c | c ∈ g.locals.map (·.name)} →
          Set.InjOn own {id | id ∈ f.owners m.symbolTable types globals}) ∧
        ∀ (I : Interpretation Addr V) (fuel : Nat) (act : Activation Addr) (mem : Addr → V),
          g.run I homes fuel act mem = f.run m.symbolTable types globals I own fuel act mem) := by
  obtain ⟨frame, body, hframe, hbody, hg⟩ := FunctionDecl.generate_eq_ok h
  have hlocals : g.locals = frame.locals := by rw [hg]
  have hprototype : g.prototype = f.prototype m.symbolTable := by rw [hg]
  have hinitials : g.initials = frame.initials := by rw [hg]
  have hcode : g.body = body := by rw [hg]
  refine ⟨?_, ?_, ?_⟩
  · intro x hx hcaptures
    exact FunctionDecl.isReserved_of_captures hids hframe hlocals hprototype hx hcaptures
  · intro x
    rw [← FunctionDecl.clear_iff hids hframe hlocals hprototype]
    exact FunctionDecl.clear_iff_entryVars hids hframe hlocals hprototype homes
  · intro hfree
    refine ⟨frame.home homes, hlocals ▸ FunctionDecl.injOn_home hids hframe, ?_⟩
    intro I fuel act mem
    have hhosts := FunctionDecl.hosts_of_frame hcapital hids hframe homes
    have hclear : ∀ x ∈ Stmt.declaredAll f.body ++ Stmt.namesAll f.body, frame.Clear x := by
      intro x hx
      refine (FunctionDecl.clear_iff hids hframe hlocals hprototype).mpr ?_
      obtain hx | hx := List.mem_append.mp hx
      · exact fun hcaptures => hcaptures.2.1 hx
      · exact hfree x hx
    have hsim : ∀ s : State Addr V, C.Stmt.execAll I fuel body (frame.view homes act.result s) =
        (Stmt.execAll m.symbolTable types I (frame.home homes) act.result fuel
          (f.startScope globals) f.body s).toC (frame.view homes act.result) :=
      Stmt.execAll_lowerAll I fuel hhosts (f.startScope globals) f.body body hbody
        (fun v hv => hv) hclear
    simp only [C.Function.run, FunctionDecl.run, hcode, hsim,
      FunctionDecl.view_entry hids hframe hlocals hprototype hinitials]
    cases Stmt.execAll m.symbolTable types I (frame.home homes) act.result fuel
      (f.startScope globals) f.body _ <;> rfl

theorem countUp_run_generate :
    (∀ d ∈ counting.functions, startsCapital d.name = false) ∧
      (Stmt.idsAll countUp.body).Nodup ∧
      ∃ g, countUp.generate counting.symbolTable countUpTypes counting.constantScope = .ok g ∧
        (∀ x ∈ Stmt.namesAll countUp.body, ¬ g.Captures countUp x) ∧
        ∃ own : NodeId → String,
          Set.InjOn own
            {i | i ∈ countUp.owners counting.symbolTable countUpTypes counting.constantScope} ∧
          ∀ (I : Interpretation String Int) (fuel : Nat) (act : Activation String)
            (mem : String → Int),
            g.run I id fuel act mem = countUp.run counting.symbolTable countUpTypes
              counting.constantScope I own fuel act mem := by
  have hcapital : ∀ d ∈ counting.functions, startsCapital d.name = false := by decide +kernel
  have hids : (Stmt.idsAll countUp.body).Nodup := by decide
  obtain ⟨g, hg, hfree⟩ :=
    exists_eq_ok_of_any
      (x := countUp.generate counting.symbolTable countUpTypes counting.constantScope)
      (p := fun g => ∀ x ∈ Stmt.namesAll countUp.body, ¬ g.Captures countUp x) (by decide +kernel)
  have hfree := of_decide_eq_true hfree
  obtain ⟨_, _, hrun⟩ := FunctionDecl.run_of_generate hcapital hids hg id
  obtain ⟨own, hown, hrun⟩ := hrun hfree
  exact ⟨hcapital, hids, g, hg, hfree, own, hown (Set.injOn_id _), hrun⟩

/-- A call of `plusInt` with the constant `tmp_0`, whose result goes to a slot `tmp_0`. -/
def capturing : FunctionDecl NodeId where
  name := "start"
  params := []
  result := none
  body := [.call 6 (.call 5 (.name 0 "printInt")
    [.call 4 (.name 1 "plusInt") [.name 2 "tmp_0", .literal 3 (.int 1)]])]

def capturingModule : Module NodeId where
  imports := []
  decls := [.constant ⟨"tmp_0", .int, .literal 7 (.int 7)⟩, .function capturing]

def capturingCode : C.Function where
  prototype := ⟨"start", []⟩
  locals := [⟨"tmp_0", .int⟩, ⟨"const_0", .int⟩]
  initials := [("const_0", .int 1)]
  body := [.call "plusInt" [.addressOf "tmp_0", .name "tmp_0", .addressOf "const_0"],
    .call "printInt" [.addressOf "tmp_0"]]

/-- The source of a captured constant runs to its end, and the C code does not. -/
theorem capturing_run_differs :
    (Stmt.idsAll capturing.body).Nodup ∧
      capturing.generate capturingModule.symbolTable Table.empty capturingModule.constantScope =
        .ok capturingCode ∧
      capturingCode.Captures capturing "tmp_0" ∧
      ∀ own : NodeId → String, ∃ (I : Interpretation String Unit) (act : Activation String)
        (mem : String → Unit),
        capturingCode.run I id 0 act mem = .stuck ∧
          capturing.run capturingModule.symbolTable Table.empty capturingModule.constantScope
            I own 0 act mem = .returned fun _ => () := by
  refine ⟨by decide, rfl, by decide, ?_⟩
  intro own
  exact ⟨⟨fun _ _ mem => mem, fun _ => (), fun _ => true⟩,
    ⟨C.resultParam, id, fun x => some (x ++ "__value")⟩, fun _ => (), rfl, rfl⟩

end Mis
