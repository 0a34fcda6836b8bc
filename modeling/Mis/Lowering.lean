import Mis.Frame

/-!
From statements to C statements, given the frame of their function. The calls in
an expression are made before it is used, arguments first, each into its own
temporary; what is left of the expression is one operand.
-/
namespace Mis
namespace Frame

variable (frame : Frame)

/-- The slot that holds the value of an expression that is no name. -/
def slotOf (e : Expr NodeId) : Except GenerateError String :=
  match frame.valueSlots.get? e.id with
  | some slot => .ok slot
  | none =>
    match e.calleeName? with
    | some f => .error (.semantic (.noValue f))
    | none => .error (.noSlot e.id)

def calleeOf (id : NodeId) : Except GenerateError String :=
  match frame.calledNames.get? id with
  | some f => .ok f
  | none => .error (.noSlot id)

def ownSlotOf (id : NodeId) : Except GenerateError String :=
  match frame.ownSlots.get? id with
  | some slot => .ok slot
  | none => .error (.noSlot id)

/-- The operand that reads the value of `e`. -/
def valueOf (e : Expr NodeId) : Except GenerateError C.Operand :=
  match e with
  | .name _ x => .ok (.deref x)
  | e => do
    let slot ← frame.slotOf e
    .ok (.name slot)

/-- The operand that points at the value of `e`. -/
def addressOf (e : Expr NodeId) : Except GenerateError C.Operand :=
  match e with
  | .name _ x => .ok (.name x)
  | e => do
    let slot ← frame.slotOf e
    .ok (.addressOf slot)

/-- The out-parameter of a call, absent if the callee is void. -/
def resultOperand (id : NodeId) : List C.Operand :=
  ((frame.valueSlots.get? id).map C.Operand.addressOf).toList

end Frame

section Lower

variable (frame : Frame)

mutual

/-- The calls that have to be made before `e` can be used. -/
def Expr.lowerCalls : Expr NodeId → Except GenerateError (List C.Stmt)
  | .literal _ _ | .name _ _ => .ok []
  | .call id _ args => do
    let before ← Expr.lowerCallsAll args
    let operands ← args.mapM frame.addressOf
    let callee ← frame.calleeOf id
    .ok (before ++ [.call callee (frame.resultOperand id ++ operands)])

def Expr.lowerCallsAll : List (Expr NodeId) → Except GenerateError (List C.Stmt)
  | [] => .ok []
  | e :: es => do
    let first ← Expr.lowerCalls e
    let more ← Expr.lowerCallsAll es
    .ok (first ++ more)

end

/-- What a declared variable is made to point at. -/
def lowerTarget (id : NodeId) (storage : Storage) (init : Expr NodeId) :
    Except GenerateError C.Operand :=
  match storage with
  | .shared => frame.addressOf init
  | .own => do
    let slot ← frame.ownSlotOf id
    .ok (.addressOf slot)

mutual

def Stmt.lower : Stmt NodeId → Except GenerateError (List C.Stmt)
  | .declare id storage x init => do
    let calls ← init.lowerCalls frame
    let target ← lowerTarget frame id storage init
    let value ← frame.valueOf init
    .ok (calls ++ [.assign (.name x) target, .assign (.deref x) value])
  | .assign _ x e => do
    let calls ← e.lowerCalls frame
    let value ← frame.valueOf e
    .ok (calls ++ [.assign (.deref x) value])
  | .branch _ c yes none => do
    let calls ← c.lowerCalls frame
    let yes ← Stmt.lowerAll yes
    let condition ← frame.valueOf c
    .ok (calls ++ [.branch condition yes none])
  | .branch _ c yes (some no) => do
    let calls ← c.lowerCalls frame
    let yes ← Stmt.lowerAll yes
    let no ← Stmt.lowerAll no
    let condition ← frame.valueOf c
    .ok (calls ++ [.branch condition yes (some no)])
  | .loop _ c body => do
    let calls ← c.lowerCalls frame
    let condition ← frame.valueOf c
    let body ← Stmt.lowerAll body
    .ok [.loop (calls ++ .leaveLoopUnless condition :: body)]
  | .leave _ none => .ok [.leave]
  | .leave _ (some e) =>
    if frame.result.isNone then .error (.valueFromVoidFunction frame.function)
    else do
      let calls ← e.lowerCalls frame
      let value ← frame.valueOf e
      .ok (calls ++ [.assign (.deref C.resultParam) value, .leave])
  | .call _ e => e.lowerCalls frame

def Stmt.lowerAll : List (Stmt NodeId) → Except GenerateError (List C.Stmt)
  | [] => .ok []
  | s :: ss => do
    let first ← Stmt.lower s
    let more ← Stmt.lowerAll ss
    .ok (first ++ more)

end

end Lower

end Mis
