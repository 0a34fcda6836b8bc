import Mis.Ty

/-!
Generated programs. All functions are void: a result goes through the first
parameter, and every other parameter is a pointer to its argument.
-/
namespace Mis.C

inductive Operand where
  | name (x : String)
  | addressOf (x : String)
  | deref (x : String)
deriving DecidableEq, Repr

/-- The name in an operand. -/
def Operand.target : Operand → String
  | .name x | .addressOf x | .deref x => x

inductive Stmt where
  | call (name : String) (args : List Operand)
  | assign (dst src : Operand)
  | branch (condition : Operand) (yes : List Stmt) (no : Option (List Stmt))
  | loop (body : List Stmt)
  | leaveLoopUnless (condition : Operand)
  | leave
  | comment (text : String)

structure Prototype where
  name : String
  params : List TypedName
deriving DecidableEq, Repr

/-- The parameter that results go through. -/
def resultParam : String := "__result"

def Prototype.make (name : String) (result : Option Ty) (params : List TypedName) : Prototype where
  name := name
  params :=
    (result.map fun t => (⟨resultParam, t.pointer⟩ : TypedName)).toList ++
      params.map fun p => ⟨p.name, p.type.pointer⟩

structure Function where
  prototype : Prototype
  locals : List TypedName
  initials : List (String × Literal)
  body : List Stmt

structure Struct where
  name : String
  fields : List TypedName
deriving DecidableEq, Repr

/-- A constant of the module: its value, and a pointer to it under its name. -/
structure Global where
  name : String
  type : Ty
  value : Literal
deriving DecidableEq, Repr

/-- What `main` calls, and the type of the result that it drops. -/
structure Entry where
  name : String
  result : Option Ty
deriving DecidableEq, Repr

structure Program where
  structs : List Struct
  globals : List Global
  prototypes : List Prototype
  functions : List Function
  entry : Entry

end Mis.C
