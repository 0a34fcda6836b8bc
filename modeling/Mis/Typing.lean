import Mis.Symbol

/-!
Types of expressions. A call means one signature of the table: the only one of
its name, whose parameters are merely counted, or among overloads the one whose
parameter types are exactly those of the arguments.
-/
namespace Mis

/-- The variables in sight and their types. -/
abbrev Scope := String → Option Ty

namespace Scope

def empty : Scope := fun _ => none

def insert (s : Scope) (x : String) (t : Ty) : Scope :=
  fun y => if y = x then some t else s y

/-- Of two entries for one name the later counts. -/
def insertAll (s : Scope) (xs : List TypedName) : Scope :=
  xs.foldl (fun s x => s.insert x.name x.type) s

/-- `s` hides `t`. -/
def orElse (s t : Scope) : Scope :=
  fun x => (s x).or (t x)

end Scope

inductive SemanticError where
  | unknownFunction (name : String)
  | unknownName (name : String)
  | unknownType (type : Ty)
  | noValue (callee : String)
  | argumentCount (name : String) (expected got : Nat)
  | noOverload (name : String) (args : List Ty)
  | calleeNotName (kind : String)
deriving DecidableEq, Repr

def SemanticError.message : SemanticError → String
  | .unknownFunction x => "unknown function " ++ x
  | .unknownName x => "unknown identifier " ++ x
  | .unknownType t => "type " ++ t.render ++ " is not implemented"
  | .noValue f => "function " ++ f ++ " does not return a value"
  | .argumentCount f expected got =>
    "function " ++ f ++ " called with " ++ toString got ++ " arguments, but expected " ++
      toString expected
  | .noOverload f args =>
    "no overload of " ++ f ++ " takes (" ++ ", ".intercalate (args.map Ty.render) ++ ")"
  | .calleeNotName kind =>
    "unsupported callee of kind " ++ kind ++ ", only identifiers can be called"

namespace SymbolTable

def candidates (t : SymbolTable) (name : String) : Except SemanticError (List Symbol) :=
  match t.get? name with
  | some (s :: ss) => .ok (s :: ss)
  | _ => .error (.unknownFunction name)

def ofArity (name : String) (s : Symbol) (got : Nat) : Except SemanticError Symbol :=
  if s.params.length = got then .ok s
  else .error (.argumentCount name s.params.length got)

/-- The overload whose parameter types are `args`. -/
def overload (name : String) (candidates : List Symbol) (args : List Ty) :
    Except SemanticError Symbol :=
  match candidates.find? (·.params = args) with
  | some s => .ok s
  | none => .error (.noOverload name args)

/-- The symbol that a call of `name` with arguments of the given types means. -/
def resolve (t : SymbolTable) (name : String) (args : List Ty) : Except SemanticError Symbol := do
  match ← t.candidates name with
  | [single] => ofArity name single args.length
  | several => overload name several args

/-- The symbol that a call means. The types of the arguments are asked for only
where overloads have to be told apart. -/
def select {ι : Type} (t : SymbolTable) (callee : Expr ι) (arity : Nat)
    (argTypes : Unit → Except SemanticError (List Ty)) : Except SemanticError Symbol := do
  match callee.name? with
  | none => .error (.calleeNotName callee.kind)
  | some name =>
    match ← t.candidates name with
    | [single] => ofArity name single arity
    | several => overload name several (← argTypes ())

end SymbolTable

section Infer

variable {ι : Type} (t : SymbolTable) (scope : Scope)

mutual

/-- The type of the value of an expression; a call of a void function has none. -/
def Expr.resultType : Expr ι → Except SemanticError (Option Ty)
  | .literal _ v => .ok (some v.type)
  | .name _ x =>
    match scope x with
    | some type => .ok (some type)
    | none => .error (.unknownName x)
  | .call _ callee args => do
    let s ← t.select callee args.length fun _ => Expr.argumentTypes args
    match s.result with
    | some type => if t.isKnownType type then .ok (some type) else .error (.unknownType type)
    | none => .ok none

/-- The types of arguments, each of which has to have a value. -/
def Expr.argumentTypes : List (Expr ι) → Except SemanticError (List Ty)
  | [] => .ok []
  | e :: es => do
    match ← Expr.resultType e with
    | none => .error (.noValue (e.calleeName?.getD ""))
    | some type => do
      let types ← Expr.argumentTypes es
      .ok (type :: types)

end

/-- The type of an expression that has to have a value. -/
def Expr.valueType (e : Expr ι) : Except SemanticError Ty := do
  match ← e.resultType t scope with
  | none => .error (.noValue (e.calleeName?.getD ""))
  | some type => .ok type

def calledSymbol (callee : Expr ι) (args : List (Expr ι)) : Except SemanticError Symbol :=
  t.select callee args.length fun _ => Expr.argumentTypes t scope args

end Infer

end Mis
