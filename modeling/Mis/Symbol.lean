import Mis.Table
import Mis.Tree

/-!
What a module can call. Functions, struct constructors and the built-in
functions share one space of names: a struct hides the functions of its name,
and a built-in hides both. Functions of one name are overloads of each other and
get external names that spell out their parameter types.
-/
namespace Mis

inductive Symbol.Kind where
  | function | constructor | builtin
deriving DecidableEq, Repr

structure Symbol where
  externalName : String
  kind : Symbol.Kind
  params : List Ty
  result : Option Ty
deriving DecidableEq, Repr

/-- The external name of one overload. -/
def mangle (name : String) (params : List Ty) : String :=
  match params with
  | [] => name ++ "__void"
  | ts => name ++ "__" ++ "_".intercalate (ts.map (·.name))

/-- The name of the C function that makes a value of a struct. -/
def constructorName (struct : String) : String :=
  struct ++ "_init"

def builtins : List Symbol :=
  let print (name : String) (params : List Ty) : Symbol := ⟨name, .builtin, params, none⟩
  let operator (name : String) : Symbol := ⟨name, .builtin, [.int, .int], some .int⟩
  [print "printString" [.string], print "printInt" [.int], print "printNewLine" [],
   operator "isEqualInt", operator "isLessInt", operator "isGreaterInt",
   operator "minusInt", operator "plusInt", operator "multiplyInt"]

structure SymbolTable where
  symbols : Table String (List Symbol)
  types : List String
  overloaded : List String

variable {ι : Type}

def FunctionDecl.paramTypes (f : FunctionDecl ι) : List Ty :=
  f.params.map (·.type)

/-- Puts `f` behind the functions of its name, or into a new group behind all others. -/
def FunctionDecl.joinGroup (f : FunctionDecl ι) :
    List (String × List (FunctionDecl ι)) → List (String × List (FunctionDecl ι))
  | [] => [(f.name, [f])]
  | (x, fs) :: groups =>
    if x = f.name then (x, fs ++ [f]) :: groups else (x, fs) :: f.joinGroup groups

/-- What functions of one name stand for. -/
def FunctionDecl.symbols (fs : List (FunctionDecl ι)) : List Symbol :=
  fs.map fun f =>
    ⟨if 1 < fs.length then mangle f.name f.paramTypes else f.name, .function, f.paramTypes,
      f.result⟩

namespace Module

/-- The functions by their names, in the order in which the names are first declared. -/
def functionGroups (m : Module ι) : List (String × List (FunctionDecl ι)) :=
  m.functions.foldl (fun groups f => f.joinGroup groups) []

/-- What each name stands for, in the order in which the later hides the earlier. -/
def callables (m : Module ι) : List (String × List Symbol) :=
  m.functionGroups.map (fun g => (g.1, FunctionDecl.symbols g.2)) ++
  m.structs.map (fun s =>
    (s.name, [⟨constructorName s.name, .constructor, [], some ⟨s.name, false⟩⟩])) ++
  builtins.map (fun b => (b.externalName, [b]))

def symbolTable (m : Module ι) : SymbolTable where
  symbols := Table.empty.insertAll m.callables
  types := [Ty.int.name, Ty.string.name] ++ m.structs.map (·.name)
  overloaded := (m.functionGroups.filter (1 < ·.2.length)).map (·.1)

end Module

namespace SymbolTable

def get? (t : SymbolTable) (name : String) : Option (List Symbol) :=
  t.symbols.get? name

def isOverloaded (t : SymbolTable) (name : String) : Bool :=
  name ∈ t.overloaded

/-- Only the name counts: a pointer to a known type is known. -/
def isKnownType (t : SymbolTable) (type : Ty) : Bool :=
  type.name ∈ t.types

/-- The name under which a function is generated. -/
def externalName (t : SymbolTable) (f : FunctionDecl ι) : String :=
  if t.isOverloaded f.name then mangle f.name f.paramTypes else f.name

end SymbolTable
end Mis
