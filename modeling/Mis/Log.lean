import Mis.Compile

/-!
What a compilation reports while it runs. Every stage reports in the order in
which it works; a stage that fails has reported all it did up to the failure,
and no later stage reports anything.
-/
namespace Mis.Log

inductive Level where
  | warn | debug | trace
deriving DecidableEq, Repr

/-- The part of the compiler that reports. -/
inductive Stage where
  | lexing | parsing | symbols | typing | generation | frames | compilation
deriving DecidableEq, Repr

structure Event where
  level : Level
  stage : Stage
  text : String
deriving DecidableEq, Repr

/-- The symbols whose external name another one before them has. -/
def repeatedSymbols (seen : List String) : List Symbol → List Symbol
  | [] => []
  | s :: ss =>
    if s.externalName ∈ seen then s :: repeatedSymbols seen ss
    else repeatedSymbols (s.externalName :: seen) ss

def repeats : String × List Symbol → List Event
  | (name, symbols) =>
    (repeatedSymbols [] symbols).map fun s =>
      ⟨.warn, .symbols, name ++ " is declared twice as " ++ s.externalName⟩

def kindName : Symbol.Kind → String
  | .function => "Function"
  | .constructor => "Constructor"
  | .builtin => "Builtin"

/-- The names that hide what the same name stood for before. -/
def shadowings (t : Table String (List Symbol)) : List (String × List Symbol) → List Event
  | [] => []
  | (name, symbols) :: more =>
    match t.get? name with
    | none => shadowings (t.insert name symbols) more
    | some hidden =>
      let kinds := ", ".intercalate (hidden.map fun s => kindName s.kind)
      ⟨.warn, .symbols, name ++ " shadows earlier declaration(s) [" ++ kinds ++ "]"⟩ ::
        shadowings (t.insert name symbols) more

def symbolEvents (m : Module NodeId) : List Event :=
  m.callables.flatMap repeats ++ shadowings .empty m.callables ++
    [⟨.debug, .symbols,
      "symbol table holds " ++ toString m.symbolTable.symbols.size ++ " names"⟩]

def mismatch (x : Mismatch) : Event :=
  ⟨.warn, .typing,
    x.name ++ " is declared as " ++ x.declared.render ++ " but assigned a " ++ x.assigned.render⟩

/-- The assignments of other types, up to the first function that cannot be typed. -/
def mismatches (t : SymbolTable) (globals : Scope) : List (FunctionDecl NodeId) → List Event
  | [] => []
  | f :: fs =>
    let (typings, stop) :=
      runUntil (Typings.record t) (f.typingsStart globals) (Stmt.writesAll f.body)
    typings.mismatches.map mismatch ++ if stop.isSome then [] else mismatches t globals fs

/-- The slots of a function, up to the first demand that cannot be met. -/
def slotEvents (t : SymbolTable) (types : Table NodeId Ty) (globals : Scope)
    (f : FunctionDecl NodeId) : List Event :=
  match Frame.enter globals f with
  | .error _ => []
  | .ok frame =>
    let (frame, _) := runUntil (Frame.meet t types) frame (Stmt.demandsAll f.body)
    frame.slots.map fun s =>
      ⟨.trace, .frames, f.name ++ ": " ++ s.name ++ " holds a " ++ s.type.render⟩

def functionEvents (t : SymbolTable) (types : Table NodeId Ty) (globals : Scope)
    (f : FunctionDecl NodeId) : List Event :=
  if t.hidesFunction f then
    [⟨.warn, .generation, f.name ++ " is not generated, calls go to the builtin"⟩]
  else if startsCapital f.name then []
  else
    slotEvents t types globals f ++
      match f.generate t types globals with
      | .error _ => []
      | .ok g =>
        [⟨.debug, .generation, "generated " ++ g.prototype.name ++ " with " ++
          toString g.locals.length ++ " locals"⟩]

/-- What the generation of declarations reports, up to the first that fails. -/
def declEvents (t : SymbolTable) (types : Table NodeId Ty) (globals : Scope) :
    List (Decl NodeId) → List Event
  | [] => []
  | d :: ds =>
    (match d with
      | .function f => functionEvents t types globals f
      | _ => []) ++
    match d.generate t types globals with
    | .error _ => []
    | .ok _ => declEvents t types globals ds

def generationEvents (t : SymbolTable) (m : TypedModule) : List Event :=
  m.tree.imports.map (fun i =>
    ⟨.debug, .generation, "import " ++ i ++ " has no effect on generated code"⟩) ++
  match m.tree.constants.mapM ConstantDecl.generate with
  | .error _ => []
  | .ok _ =>
    declEvents t m.types m.tree.constantScope m.tree.decls ++
    match m.generate t with
    | .error _ => []
    | .ok p =>
      let count := toString p.functions.length
      [⟨.debug, .generation, "generated " ++ count ++ " functions"⟩,
       ⟨.debug, .compilation, "emitting " ++ count ++ " functions"⟩]

def moduleEvents (m : Module NodeId) : List Event :=
  let t := m.symbolTable
  symbolEvents m ++ mismatches t m.constantScope m.functions ++
  match m.typed t with
  | .error _ => []
  | .ok typed =>
    ⟨.debug, .typing, "annotated " ++ toString typed.types.size ++ " statements"⟩ ::
      generationEvents t typed

/-- What the compilation of a source text reports. -/
def compileEvents (source : String) : List Event :=
  match lex source with
  | .error _ => []
  | .ok tokens =>
    ⟨.debug, .lexing, "lexed " ++ toString tokens.length ++ " tokens"⟩ ::
    match parse tokens source with
    | .error _ => []
    | .ok m =>
      ⟨.debug, .parsing, "parsed " ++ toString m.imports.length ++ " imports and " ++
        toString m.decls.length ++ " declarations"⟩ :: moduleEvents m

end Mis.Log
