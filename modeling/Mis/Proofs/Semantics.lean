import Mis.Generation
import Mis.Proofs.Naming

/-!
What function bodies mean, before and after lowering.

In a source body a name stands for an address and an address holds a value. A
literal, a call with a result and a `::=` statement own one address each. The
generated body works on C variables: slots, which live at an address, and
pointers. What the called functions do to the memory, what a literal stands for
and which values are true is left open on both sides.

A loop gives up after `fuel` rounds. A run that needs a name nothing is bound to
is stuck, as is C code that reads a pointer before it is set.
-/
namespace Mis

structure Interpretation (Addr V : Type) where
  /-- A function acts on the memory, given the addresses of its result and arguments. -/
  apply : String → List Addr → (Addr → V) → Addr → V
  literal : Literal → V
  truth : V → Bool

/-- What one activation of a function is given from outside. -/
structure Activation (Addr : Type) where
  result : Addr
  args : String → Addr
  globals : String → Option Addr

/-- The result of a whole activation, as far as its caller can see it. -/
inductive Ending (M : Type) where
  | returned (mem : M)
  | stuck
  | running

section Memory

variable {Addr V : Type} [DecidableEq Addr]

/-- The memory after literals have been written to their addresses, in this order. -/
def Interpretation.fill (I : Interpretation Addr V) (mem : Addr → V)
    (cells : List (Addr × Literal)) : Addr → V :=
  cells.foldl (fun mem c => Function.update mem c.1 (I.literal c.2)) mem

end Memory

/-! Outcomes. -/

/-- How a piece of code ends: at its end, before it by one of the ways out, stuck, or not in the
rounds that its loops have. -/
inductive Outcome (Exit S : Type) where
  | done (s : S)
  | left (exit : Exit) (s : S)
  | stuck
  | running

namespace Outcome

variable {Exit S : Type}

def andThen (o : Outcome Exit S) (next : S → Outcome Exit S) : Outcome Exit S :=
  match o with
  | .done s => next s
  | o => o

/-- A step that has no other way to go wrong than to get stuck. -/
def ofOption : Option S → Outcome Exit S
  | some s => .done s
  | none => .stuck

theorem andThen_assoc (o : Outcome Exit S) (f g : S → Outcome Exit S) :
    (o.andThen f).andThen g = o.andThen fun s => (f s).andThen g := by
  cases o <;> rfl

end Outcome

/-! The source. The only way out of a body is to leave its function. -/

/-- The test is made anew in every round. -/
def repeatWhile {Exit S : Type} (test : S → Option (S × Bool)) (body : S → Outcome Exit S) :
    Nat → S → Outcome Exit S
  | 0, _ => .running
  | n + 1, s =>
    match test s with
    | none => .stuck
    | some (s, false) => .done s
    | some (s, true) => (body s).andThen (repeatWhile test body n)

structure State (Addr V : Type) where
  env : String → Option Addr
  mem : Addr → V

section Source

variable {Addr V : Type} [DecidableEq Addr]
variable (t : SymbolTable) (types : Table NodeId Ty)
variable (I : Interpretation Addr V) (own : NodeId → Addr)

/-- Where the value of an expression is, once its calls have been made. -/
def Expr.address (σ : Scope) (env : String → Option Addr) : Expr NodeId → Option Addr
  | .literal i _ => some (own i)
  | .name _ x => env x
  | .call i callee args =>
    (calledSymbol t σ callee args).toOption.bind fun s => s.result.map fun _ => own i

mutual

/-- Makes the calls of an expression, those of the arguments first, left to right. -/
def Expr.perform (σ : Scope) (env : String → Option Addr) :
    Expr NodeId → (Addr → V) → Option (Addr → V)
  | .literal _ _, mem | .name _ _, mem => some mem
  | .call i callee args, mem => do
    let mem ← Expr.performAll σ env args mem
    let s ← (calledSymbol t σ callee args).toOption
    let addresses ← args.mapM (Expr.address t own σ env)
    some (I.apply s.externalName ((s.result.map fun _ => own i).toList ++ addresses) mem)

def Expr.performAll (σ : Scope) (env : String → Option Addr) :
    List (Expr NodeId) → (Addr → V) → Option (Addr → V)
  | [], mem => some mem
  | e :: es, mem => do
    let mem ← Expr.perform σ env e mem
    Expr.performAll σ env es mem

end

/-- The value of an expression, and the memory after its calls. -/
def Expr.evaluate (σ : Scope) (e : Expr NodeId) (s : State Addr V) : Option (State Addr V × V) := do
  let mem ← e.perform t I own σ s.env s.mem
  let a ← e.address t own σ s.env
  some (⟨s.env, mem⟩, mem a)

variable (result : Addr) (fuel : Nat)

mutual

/-- A value is typed in a scope that already has the variable it is for. -/
def Stmt.exec (σ : Scope) : Stmt NodeId → State Addr V → Outcome Unit (State Addr V)
  | .declare i .shared x e, s => .ofOption do
    let mem ← e.perform t I own (σ.set x (declaredType t types σ i e)) s.env s.mem
    let a ← e.address t own (σ.set x (declaredType t types σ i e)) s.env
    some ⟨Function.update s.env x (some a), Function.update mem a (mem a)⟩
  | .declare i .own x e, s => .ofOption do
    let mem ← e.perform t I own (σ.set x (declaredType t types σ i e)) s.env s.mem
    -- the value is read after `x` has been bound, so `x ::= x` copies the new slot to itself
    let env := Function.update s.env x (some (own i))
    let a ← e.address t own (σ.set x (declaredType t types σ i e)) env
    some ⟨env, Function.update mem (own i) (mem a)⟩
  | .assign _ x e, s =>
    (e.evaluate t I own σ s).elim .stuck fun r =>
      .ofOption ((r.1.env x).map fun a => ⟨r.1.env, Function.update r.1.mem a r.2⟩)
  | .branch _ c yes none, s =>
    (c.evaluate t I own σ s).elim .stuck fun r =>
      if I.truth r.2 then Stmt.execAll σ yes r.1 else .done r.1
  | .branch _ c yes (some no), s =>
    (c.evaluate t I own σ s).elim .stuck fun r =>
      if I.truth r.2 then Stmt.execAll σ yes r.1
      else Stmt.execAll (Stmt.scopeAfterAll t types σ yes) no r.1
  | .loop _ c body, s =>
    repeatWhile (fun s => (c.evaluate t I own σ s).map fun r => (r.1, I.truth r.2))
      (Stmt.execAll σ body) fuel s
  | .leave _ none, s => .left () s
  | .leave _ (some e), s =>
    (e.evaluate t I own σ s).elim .stuck fun r =>
      .left () ⟨r.1.env, Function.update r.1.mem result r.2⟩
  | .call _ e, s => .ofOption do
    let mem ← e.perform t I own σ s.env s.mem
    some ⟨s.env, mem⟩

def Stmt.execAll (σ : Scope) : List (Stmt NodeId) → State Addr V → Outcome Unit (State Addr V)
  | [], s => .done s
  | d :: ds, s =>
    (Stmt.exec σ d s).andThen (Stmt.execAll (Stmt.scopeAfter t types σ d) ds)

end

end Source

namespace FunctionDecl

variable {Addr V : Type} [DecidableEq Addr]

/-- The nodes that own an address. -/
def owners (t : SymbolTable) (types : Table NodeId Ty) (globals : Scope)
    (f : FunctionDecl NodeId) : List NodeId :=
  (literals (f.visits t types globals)).map (·.1) ++
    (temporaries t (f.visits t types globals)).filterMap (·.1.id?)

/-- What the names of a body stand for on entry. A variable belongs to the whole function, so it
hides a constant of the module before it is declared. -/
def entryEnv (f : FunctionDecl NodeId) (act : Activation Addr) : String → Option Addr :=
  fun x =>
    if x ∈ f.params.map (·.name) then some (act.args x)
    else if x ∈ Stmt.declaredAll f.body then none
    else act.globals x

/-- One activation of the source function. -/
def run (t : SymbolTable) (types : Table NodeId Ty) (globals : Scope)
    (I : Interpretation Addr V) (own : NodeId → Addr) (fuel : Nat) (act : Activation Addr)
    (f : FunctionDecl NodeId) (mem : Addr → V) : Ending (Addr → V) :=
  let cells := (literals (f.visits t types globals)).map fun p => (own p.1, p.2)
  match Stmt.execAll t types I own act.result fuel (f.startScope globals) f.body
      ⟨f.entryEnv act, I.fill mem cells⟩ with
  | .done s | .left _ s => .returned s.mem
  | .stuck => .stuck
  | .running => .running

end FunctionDecl

/-! The generated code. -/

namespace C

/-- What C code can be left from before its end. -/
inductive Exit where
  | function
  | loop

def loopForever {S : Type} (body : S → Outcome Exit S) : Nat → S → Outcome Exit S
  | 0, _ => .running
  | n + 1, s =>
    match body s with
    | .done s => loopForever body n s
    | .left .loop s => .done s
    | o => o

/-- A C variable: a slot for a value, or a pointer, which may not be set yet. -/
inductive Place (Addr : Type) where
  | slot (home : Addr)
  | pointer (target : Option Addr)

structure State (Addr V : Type) where
  vars : String → Place Addr
  mem : Addr → V

section Machine

variable {Addr V : Type} [DecidableEq Addr]

namespace State

def address (s : State Addr V) : Operand → Option Addr
  | .name x =>
    match s.vars x with
    | .pointer target => target
    | .slot _ => none
  | .addressOf x =>
    match s.vars x with
    | .slot home => some home
    | .pointer _ => none
  | .deref _ => none

def value (s : State Addr V) : Operand → Option V
  | .name x =>
    match s.vars x with
    | .slot home => some (s.mem home)
    | .pointer _ => none
  | .deref x => (s.address (.name x)).map s.mem
  | .addressOf _ => none

def assign (s : State Addr V) (dst src : Operand) : Option (State Addr V) :=
  match dst with
  | .name x =>
    match s.vars x with
    | .pointer _ =>
      (s.address src).map fun a =>
        { s with vars := Function.update s.vars x (.pointer (some a)) }
    | .slot home => (s.value src).map fun v => { s with mem := Function.update s.mem home v }
  | .deref x => do
    let a ← s.address (.name x)
    let v ← s.value src
    some { s with mem := Function.update s.mem a v }
  | .addressOf _ => none

end State

variable (I : Interpretation Addr V) (fuel : Nat)

mutual

def Stmt.exec : Stmt → State Addr V → Outcome Exit (State Addr V)
  | .call name args, s => .ofOption do
    let addresses ← args.mapM s.address
    some { s with mem := I.apply name addresses s.mem }
  | .assign dst src, s => .ofOption (s.assign dst src)
  | .branch c yes none, s =>
    (s.value c).elim .stuck fun v => if I.truth v then Stmt.execAll yes s else .done s
  | .branch c yes (some no), s =>
    (s.value c).elim .stuck fun v => if I.truth v then Stmt.execAll yes s else Stmt.execAll no s
  | .loop body, s => loopForever (Stmt.execAll body) fuel s
  | .leaveLoopUnless c, s =>
    (s.value c).elim .stuck fun v => if I.truth v then .done s else .left .loop s
  | .leave, s => .left .function s
  | .comment _, s => .done s

def Stmt.execAll : List Stmt → State Addr V → Outcome Exit (State Addr V)
  | [], s => .done s
  | c :: cs, s => (Stmt.exec c s).andThen (Stmt.execAll cs)

end

namespace Function

/-- The variables on entry; locals hide parameters, and these hide the constants of the module.
Pointer types do not nest, so it is the name of a local that tells a slot from a pointer. -/
def entryVars (g : Function) (homes : String → Addr) (act : Activation Addr) :
    String → Place Addr :=
  fun x =>
    if x ∈ g.locals.map (·.name) then
      if isReserved x then .slot (homes x) else .pointer none
    else if x ∈ g.prototype.params.map (·.name) then
      .pointer (some (if x = resultParam then act.result else act.args x))
    else .pointer (act.globals x)

/-- One activation of the generated function, with its slots at the given homes. -/
def run (I : Interpretation Addr V) (homes : String → Addr) (fuel : Nat) (act : Activation Addr)
    (g : Function) (mem : Addr → V) : Ending (Addr → V) :=
  let cells := g.initials.map fun c => (homes c.1, c.2)
  match Stmt.execAll I fuel g.body ⟨g.entryVars homes act, I.fill mem cells⟩ with
  | .done s | .left .function s => .returned s.mem
  | .left .loop _ | .stuck => .stuck
  | .running => .running

end Function

end Machine

end C

end Mis
