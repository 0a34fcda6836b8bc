import Mis.Ty

/-!
Syntax trees. Every expression and statement carries a label: the reader makes
trees with the empty label, `number` gives each node its own number, and later
stages keep what they know about a node in tables by that number.
-/
namespace Mis

abbrev NodeId := Nat

inductive Expr (ι : Type) where
  | literal (id : ι) (value : Literal)
  | name (id : ι) (name : String)
  | call (id : ι) (callee : Expr ι) (args : List (Expr ι))

/-- How a declared variable gets its storage. -/
inductive Storage where
  /-- `x := e`: the variable points at the value of `e`. -/
  | shared
  /-- `x ::= e`: the variable points at a slot of its own, which starts as a copy. -/
  | own
deriving DecidableEq, Repr

inductive Stmt (ι : Type) where
  | declare (id : ι) (storage : Storage) (name : String) (init : Expr ι)
  | assign (id : ι) (name : String) (value : Expr ι)
  | branch (id : ι) (condition : Expr ι) (yes : List (Stmt ι)) (no : Option (List (Stmt ι)))
  | loop (id : ι) (condition : Expr ι) (body : List (Stmt ι))
  | leave (id : ι) (value : Option (Expr ι))
  | call (id : ι) (value : Expr ι)

structure FunctionDecl (ι : Type) where
  name : String
  params : List TypedName
  result : Option Ty
  body : List (Stmt ι)

structure StructDecl where
  name : String
  fields : List TypedName
deriving DecidableEq, Repr

structure ConstantDecl (ι : Type) where
  name : String
  type : Ty
  init : Expr ι

inductive Decl (ι : Type) where
  | function (f : FunctionDecl ι)
  | struct (s : StructDecl)
  | constant (c : ConstantDecl ι)

structure Module (ι : Type) where
  imports : List String
  decls : List (Decl ι)

namespace Expr

variable {ι : Type}

def id : Expr ι → ι
  | .literal i _ | .name i _ | .call i _ _ => i

/-- What messages call the shape of an expression. -/
def kind : Expr ι → String
  | .literal _ (.int _) => "Number"
  | .literal _ (.text _) => "String"
  | .name _ _ => "Identifier"
  | .call _ _ _ => "FunctionCall"

def isLiteral : Expr ι → Bool
  | .literal _ _ => true
  | _ => false

def isCall : Expr ι → Bool
  | .call _ _ _ => true
  | _ => false

/-- The name this expression is, if it is one. -/
def name? : Expr ι → Option String
  | .name _ x => some x
  | _ => none

/-- The name of the called function, if this is a call of a name. -/
def calleeName? : Expr ι → Option String
  | .call _ f _ => f.name?
  | _ => none

end Expr

def Stmt.id {ι : Type} : Stmt ι → ι
  | .declare i _ _ _ | .assign i _ _ | .branch i _ _ _ | .loop i _ _ | .leave i _ | .call i _ => i

namespace Module

variable {ι : Type}

def functions (m : Module ι) : List (FunctionDecl ι) :=
  m.decls.filterMap fun
    | .function f => some f
    | _ => none

def structs (m : Module ι) : List StructDecl :=
  m.decls.filterMap fun
    | .struct s => some s
    | _ => none

def constants (m : Module ι) : List (ConstantDecl ι) :=
  m.decls.filterMap fun
    | .constant c => some c
    | _ => none

end Module

/-! Relabelling. -/

section Map

variable {ι κ : Type} (f : ι → κ)

mutual

def Expr.map : Expr ι → Expr κ
  | .literal i v => .literal (f i) v
  | .name i x => .name (f i) x
  | .call i callee args => .call (f i) (Expr.map callee) (Expr.mapAll args)

def Expr.mapAll : List (Expr ι) → List (Expr κ)
  | [] => []
  | e :: es => Expr.map e :: Expr.mapAll es

end

mutual

def Stmt.map : Stmt ι → Stmt κ
  | .declare i b x e => .declare (f i) b x (e.map f)
  | .assign i x e => .assign (f i) x (e.map f)
  | .branch i c yes none => .branch (f i) (c.map f) (Stmt.mapAll yes) none
  | .branch i c yes (some no) =>
    .branch (f i) (c.map f) (Stmt.mapAll yes) (some (Stmt.mapAll no))
  | .loop i c body => .loop (f i) (c.map f) (Stmt.mapAll body)
  | .leave i e => .leave (f i) (e.map (Expr.map f))
  | .call i e => .call (f i) (e.map f)

def Stmt.mapAll : List (Stmt ι) → List (Stmt κ)
  | [] => []
  | s :: ss => Stmt.map s :: Stmt.mapAll ss

end

def Decl.map : Decl ι → Decl κ
  | .function g => .function ⟨g.name, g.params, g.result, Stmt.mapAll f g.body⟩
  | .struct s => .struct s
  | .constant c => .constant ⟨c.name, c.type, c.init.map f⟩

def Module.map (m : Module ι) : Module κ :=
  ⟨m.imports, m.decls.map (Decl.map f)⟩

end Map

end Mis
