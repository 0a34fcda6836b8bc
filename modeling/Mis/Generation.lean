import Mis.C.StructOrder
import Mis.Lowering

/-!
From a typed module to a C program. Constants become globals, structs become
definitions and constructors, functions become functions, all in source order;
only struct definitions may have to move. Functions that a built-in hides are left out.
-/
namespace Mis

variable {ι : Type}

/-- Where a program starts. -/
def entryPoint : String := "start"

def ConstantDecl.generate (c : ConstantDecl ι) : Except GenerateError C.Global :=
  match c.init with
  | .literal _ v => .ok ⟨c.name, c.type, v⟩
  | e => .error (.constantNotLiteral c.name e.kind)

def FunctionDecl.prototype (t : SymbolTable) (f : FunctionDecl ι) : C.Prototype :=
  .make (t.externalName f) f.result f.params

def StructDecl.definition (s : StructDecl) : C.Struct :=
  ⟨s.name, s.fields⟩

/-- The constructor only has to exist: the fields stay as they are. -/
def StructDecl.constructor (s : StructDecl) : C.Function where
  prototype := .make (constructorName s.name) (some ⟨s.name, false⟩) []
  locals := []
  initials := []
  body := [.comment ("fields of " ++ s.name ++ " are left uninitialized")]

/-- Calls of the name of `f` go to a built-in. -/
def SymbolTable.hidesFunction (t : SymbolTable) (f : FunctionDecl ι) : Bool :=
  match t.get? f.name with
  | some symbols => symbols.any (·.kind = .builtin)
  | none => false

def FunctionDecl.generate (t : SymbolTable) (types : Table NodeId Ty) (globals : Scope)
    (f : FunctionDecl NodeId) : Except GenerateError C.Function := do
  let frame ← f.frame t types globals
  let body ← Stmt.lowerAll frame f.body
  .ok ⟨f.prototype t, frame.locals, frame.initials, body⟩

/-- The function that a declaration gives rise to, if any. -/
def Decl.generate (t : SymbolTable) (types : Table NodeId Ty) (globals : Scope) :
    Decl NodeId → Except GenerateError (Option C.Function)
  | .function f =>
    if t.hidesFunction f then .ok none
    else if startsCapital f.name then .error (.capitalFunction f.name)
    else do
      let g ← f.generate t types globals
      .ok (some g)
  | .struct s => .ok (some s.constructor)
  | .constant _ => .ok none

def Module.entry (t : SymbolTable) (m : Module ι) : Except GenerateError C.Entry :=
  match m.functions.find? fun f => f.name = entryPoint && f.params.isEmpty with
  | some f => .ok ⟨t.externalName f, f.result⟩
  | none => .error .noEntryPoint

def orderDefinitions (structs : List C.Struct) : Except GenerateError (List C.Struct) :=
  match C.definitionOrder structs with
  | .ok ordered => .ok ordered
  | .error s => .error (.recursiveStruct s.name)

/-- What the declarations so far have put into the program. -/
structure Definitions where
  structs : List C.Struct
  prototypes : List C.Prototype
  functions : List C.Function

/-- A function is declared beside its definition, and so is the constructor of a struct. -/
def Definitions.add (t : SymbolTable) (types : Table NodeId Ty) (globals : Scope)
    (so : Definitions) (d : Decl NodeId) : Except GenerateError Definitions := do
  match d, ← d.generate t types globals with
  | .function f, some g =>
    .ok ⟨so.structs, so.prototypes ++ [f.prototype t], so.functions ++ [g]⟩
  | .struct s, some g =>
    .ok ⟨so.structs ++ [s.definition], so.prototypes ++ [g.prototype], so.functions ++ [g]⟩
  | _, _ => .ok so

def TypedModule.generate (t : SymbolTable) (m : TypedModule) : Except GenerateError C.Program := do
  let globals ← m.tree.constants.mapM ConstantDecl.generate
  let all ← m.tree.decls.foldlM (Definitions.add t m.types m.tree.constantScope) ⟨[], [], []⟩
  let structs ← orderDefinitions all.structs
  let entry ← m.tree.entry t
  .ok ⟨structs, globals, all.prototypes, all.functions, entry⟩

end Mis
