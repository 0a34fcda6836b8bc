import Mis.TypedModule
import Mis.C.Program
import Mis.Text.Capital

/-!
The storage of a function. A walk over the body lists what it demands, in a
fixed order: a declaration its variable, then what its value demands, then for
`::=` a slot; a call its result, then what its arguments demand. The frame meets
the demands one after the other. Variables are pointers; results of calls, `::=`
slots and literals are numbered temporaries and constants that they point to.
-/
namespace Mis

inductive GenerateError where
  | semantic (e : SemanticError)
  | constantNotLiteral (name kind : String)
  | valueFromVoidFunction (function : String)
  | redeclaredAs (name : String) (previous new : Ty)
  | reservedName (name : String)
  | capitalFunction (name : String)
  | recursiveStruct (name : String)
  | noEntryPoint
  | noSlot (id : NodeId)
deriving DecidableEq, Repr

def GenerateError.message : GenerateError → String
  | .semantic e => e.message
  | .constantNotLiteral x kind =>
    "constant " ++ x ++ " is initialized with a " ++ kind ++ ", only literals are supported"
  | .valueFromVoidFunction f => "function " ++ f ++ " returns a value but has no return type"
  | .redeclaredAs x previous new =>
    "variable " ++ x ++ " is redeclared as " ++ new.render ++ ", but was " ++ previous.render
  | .reservedName x =>
    x ++ " is reserved for generated code and can't name a variable or parameter"
  | .capitalFunction f =>
    "function " ++ f ++
      " starts with an uppercase letter, which is reserved for struct constructors"
  | .recursiveStruct s => "struct " ++ s ++ " contains itself through its fields"
  | .noEntryPoint =>
    "no entry point: a function start() without parameters is required"
  | .noSlot id => "expression NodeId(" ++ toString id ++ ") has no slot"

/-- What a body asks of the frame. -/
inductive Demand where
  | declare (id : NodeId) (name : String) (init : Expr NodeId)
  | ownSlot (id : NodeId) (name : String)
  | visible (name : String)
  | constant (id : NodeId) (value : Literal)
  | call (id : NodeId) (callee : Expr NodeId) (args : List (Expr NodeId))

mutual

def Expr.demands : Expr NodeId → List Demand
  | .literal i v => [.constant i v]
  | .name _ x => [.visible x]
  | .call i callee args => .call i callee args :: Expr.demandsAll args

def Expr.demandsAll : List (Expr NodeId) → List Demand
  | [] => []
  | e :: es => Expr.demands e ++ Expr.demandsAll es

end

mutual

def Stmt.demands : Stmt NodeId → List Demand
  | .declare i .shared x e => .declare i x e :: e.demands
  | .declare i .own x e => .declare i x e :: e.demands ++ [.ownSlot i x]
  | .assign _ x e => .visible x :: e.demands
  | .branch _ c yes none => c.demands ++ Stmt.demandsAll yes
  | .branch _ c yes (some no) => c.demands ++ Stmt.demandsAll yes ++ Stmt.demandsAll no
  | .loop _ c body => c.demands ++ Stmt.demandsAll body
  | .leave _ none => []
  | .leave _ (some e) => e.demands
  | .call _ e => e.demands

def Stmt.demandsAll : List (Stmt NodeId) → List Demand
  | [] => []
  | s :: ss => Stmt.demands s ++ Stmt.demandsAll ss

end

/-- A temporary, or a constant if it starts with a literal. -/
structure Slot where
  name : String
  type : Ty
  init : Option Literal
deriving DecidableEq, Repr

structure Frame where
  function : String
  result : Option Ty
  params : List TypedName
  globals : Scope
  /-- The variables, in the order of their first declarations. -/
  declared : List TypedName := []
  slots : List Slot := []
  /-- The slots that hold the values of literals and calls. -/
  valueSlots : Table NodeId String := .empty
  calledNames : Table NodeId String := .empty
  ownSlots : Table NodeId String := .empty

/-- A stem followed by one or more digits. -/
def isNumbered (stem name : String) : Bool :=
  match stem.toList.isPrefixOf? name.toList with
  | some digits => !digits.isEmpty && digits.all Char.isDigit
  | none => false

def tempName (n : Nat) : String := "tmp_" ++ toString n

def constName (n : Nat) : String := "const_" ++ toString n

/-- Names that generated code keeps for itself. -/
def isReserved (name : String) : Bool :=
  name = C.resultParam || isNumbered "tmp_" name || isNumbered "const_" name

/-- Calls of such a name make a struct. -/
def startsCapital (name : String) : Bool :=
  match name.toList with
  | c :: _ => Text.isCapital c
  | [] => false

namespace Frame

def enter (globals : Scope) (f : FunctionDecl NodeId) : Except GenerateError Frame :=
  match f.params.find? fun p => isReserved p.name with
  | some p => .error (.reservedName p.name)
  | none =>
    .ok { function := f.name, result := f.result, params := f.params, globals := globals }

/-- Variables and parameters. -/
def localScope (frame : Frame) : Scope :=
  (Scope.empty.insertAll frame.params).insertAll frame.declared

def scope (frame : Frame) : Scope :=
  frame.localScope.orElse frame.globals

def temps (frame : Frame) : List Slot :=
  frame.slots.filter (·.init.isNone)

def consts (frame : Frame) : List Slot :=
  frame.slots.filter (·.init.isSome)

/-- The local variables of the C function. -/
def locals (frame : Frame) : List TypedName :=
  frame.declared.map (fun x => ⟨x.name, x.type.pointer⟩) ++
    (frame.temps ++ frame.consts).map (fun s => ⟨s.name, s.type⟩)

def initials (frame : Frame) : List (String × Literal) :=
  frame.slots.filterMap fun s => s.init.map (s.name, ·)

def nextTemp (frame : Frame) : String := tempName frame.temps.length

def nextConst (frame : Frame) : String := constName frame.consts.length

def addTemp (frame : Frame) (type : Ty) : Frame :=
  { frame with slots := frame.slots ++ [⟨frame.nextTemp, type, none⟩] }

def addConst (frame : Frame) (value : Literal) : Frame :=
  { frame with slots := frame.slots ++ [⟨frame.nextConst, value.type, some value⟩] }

/-- A name may be declared again with the type it has. -/
def declare (frame : Frame) (x : String) (type : Ty) : Except GenerateError Frame :=
  if isReserved x then .error (.reservedName x)
  else
    match frame.localScope x with
    | some previous =>
      if previous = type then .ok frame else .error (.redeclaredAs x previous type)
    | none => .ok { frame with declared := frame.declared ++ [⟨x, type⟩] }

/-- The C function that a call of `callee` calls once it means `s`. -/
def calledName (callee : Expr NodeId) (s : Symbol) : String :=
  match callee.name? with
  | some x => if startsCapital x then constructorName x else s.externalName
  | none => s.externalName

def addCall (frame : Frame) (id : NodeId) (name : String) (result : Option Ty) : Frame :=
  match result with
  | some type =>
    { frame.addTemp type with
      valueSlots := frame.valueSlots.insert id frame.nextTemp
      calledNames := frame.calledNames.insert id name }
  | none => { frame with calledNames := frame.calledNames.insert id name }

def meet (t : SymbolTable) (types : Table NodeId Ty) (frame : Frame) :
    Demand → Except GenerateError Frame
  | .declare id x init => do
    let type ←
      match types.get? id with
      | some type => .ok type
      | none => (init.valueType t frame.scope).mapError .semantic
    frame.declare x type
  | .ownSlot id x =>
    match frame.scope x with
    | some type =>
      .ok { frame.addTemp type with ownSlots := frame.ownSlots.insert id frame.nextTemp }
    | none => .error (.semantic (.unknownName x))
  | .visible x =>
    match frame.scope x with
    | some _ => .ok frame
    | none => .error (.semantic (.unknownName x))
  | .constant id v =>
    .ok { frame.addConst v with valueSlots := frame.valueSlots.insert id frame.nextConst }
  | .call id callee args => do
    let s ← (calledSymbol t frame.scope callee args).mapError .semantic
    .ok (frame.addCall id (calledName callee s) s.result)

end Frame

/-- The frame of a function: all demands of its body met. -/
def FunctionDecl.frame (t : SymbolTable) (types : Table NodeId Ty) (globals : Scope)
    (f : FunctionDecl NodeId) : Except GenerateError Frame := do
  let frame ← Frame.enter globals f
  (Stmt.demandsAll f.body).foldlM (Frame.meet t types) frame

end Mis
