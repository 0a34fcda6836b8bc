import Mis.Steps
import Mis.Typing

/-!
The types of variables. Every declaration and assignment of a function is typed
in source order, in the scope that the constants of the module, the parameters
and the declarations before it make. Conditions, returned values and calls that
stand alone are not typed here.
-/
namespace Mis

/-- A statement that gives a variable a value. -/
structure Write where
  id : NodeId
  declares : Bool
  name : String
  value : Expr NodeId

mutual

def Stmt.writes : Stmt NodeId → List Write
  | .declare i _ x e => [⟨i, true, x, e⟩]
  | .assign i x e => [⟨i, false, x, e⟩]
  | .branch _ _ yes none => Stmt.writesAll yes
  | .branch _ _ yes (some no) => Stmt.writesAll yes ++ Stmt.writesAll no
  | .loop _ _ body => Stmt.writesAll body
  | .leave _ _ | .call _ _ => []

def Stmt.writesAll : List (Stmt NodeId) → List Write
  | [] => []
  | s :: ss => Stmt.writes s ++ Stmt.writesAll ss

end

/-- A variable of one type that is assigned a value of another. -/
structure Mismatch where
  name : String
  declared : Ty
  assigned : Ty
deriving DecidableEq, Repr

/-- What is known about a function after some of its writes. -/
structure Typings where
  scope : Scope
  types : List (NodeId × Ty) := []
  mismatches : List Mismatch := []

namespace Typings

def mismatch? (scope : Scope) (w : Write) (type : Ty) : Option Mismatch :=
  match scope w.name with
  | some declared =>
    if w.declares || declared = type then none else some ⟨w.name, declared, type⟩
  | none => none

def record (t : SymbolTable) (a : Typings) (w : Write) : Except SemanticError Typings := do
  let type ← w.value.valueType t a.scope
  .ok {
    scope := if w.declares then a.scope.insert w.name type else a.scope
    types := a.types ++ [(w.id, type)]
    mismatches := a.mismatches ++ (mismatch? a.scope w type).toList }

end Typings

/-- A module and the types of its declarations and assignments. -/
structure TypedModule where
  tree : Module NodeId
  types : Table NodeId Ty

def Module.constantScope {ι : Type} (m : Module ι) : Scope :=
  Scope.empty.insertAll (m.constants.map fun c => ⟨c.name, c.type⟩)

/-- Where the typing of a function starts: its parameters hide the constants. -/
def FunctionDecl.typingsStart (constants : Scope) (f : FunctionDecl NodeId) : Typings :=
  { scope := constants.insertAll f.params }

def FunctionDecl.typed (t : SymbolTable) (constants : Scope) (f : FunctionDecl NodeId) :
    Except SemanticError Typings :=
  (Stmt.writesAll f.body).foldlM (Typings.record t) (f.typingsStart constants)

def Module.typed (t : SymbolTable) (m : Module NodeId) : Except SemanticError TypedModule := do
  let functions ← m.functions.mapM (FunctionDecl.typed t m.constantScope)
  .ok ⟨m, Table.empty.insertAll (functions.flatMap (·.types))⟩

end Mis
