import Mis.Cli.FileTree
import Mis.Cli.Path
import Mis.Cli.Request
import Mis.Compile
import Mis.Dump

/-!
The command: read the input, show a stage of its compilation or write the C
file, and build an executable if asked to. What a command needs of the world it
runs in is a `Host`; a `FileTree` gives one, so a run is a function of the files
before it.
-/
namespace Mis.Cli

/-- How a command reads and writes files and starts the C compiler. -/
structure Host (m : Type → Type) where
  read : String → m (Except Fault ByteArray)
  write : String → ByteArray → m (Except Fault Unit)
  /-- Starts `cc` with arguments and gives its exit status. -/
  startCompiler : List String → m (Except Fault Nat)

inductive RunError where
  | missingInput (path : String)
  | fault (cause : Fault)
  | unreadable (path : String) (cause : Fault)
  | compile (e : CompileError)
  | unwritable (path : String) (cause : Fault)
  | compilerNotStarted (cause : Fault)
  | compilerFailed (status : Nat)

namespace RunError

def message : RunError → String
  | .missingInput path => "file " ++ path ++ " does not exist"
  | .fault cause => cause.message
  | .unreadable path _ => "can't read " ++ path
  | .compile e => e.message
  | .unwritable path _ => "can't write " ++ path
  | .compilerNotStarted _ => "failed to run cc"
  | .compilerFailed status => "C compiler exited with exit status: " ++ toString status

def cause? : RunError → Option Fault
  | .unreadable _ cause | .unwritable _ cause | .compilerNotStarted cause => some cause
  | _ => none

/-- The error as the command reports it, with its cause below. -/
def report (e : RunError) : String :=
  "Error: " ++ e.message ++ "\n" ++
    match e.cause? with
    | some cause => "\nCaused by:\n    " ++ cause.message ++ "\n"
    | none => ""

/-- A path that leads to nothing is a missing input; one that leads through a file
or is too long fails before the input is opened. -/
def ofReading (path : String) : Fault → RunError
  | .notFound => .missingInput path
  | .notADirectory => .fault .notADirectory
  | .nameTooLong => .fault .nameTooLong
  | cause => .unreadable path cause

end RunError

inductive Outcome where
  | help
  | version
  | usage (e : UsageError)
  | shown (dump : Dump)
  | finished
  | failed (e : RunError)

namespace Outcome

def exitCode : Outcome → Nat
  | .usage _ => 2
  | .failed _ => 1
  | _ => 0

def stdout : Outcome → String
  | .help => helpText
  | .version => versionText
  | _ => ""

def stderr : Outcome → String
  | .usage e => "error: " ++ e.message ++ "\n"
  | .shown dump => dump.render
  | .failed e => e.report
  | _ => ""

end Outcome

namespace Options

def outputPath (o : Options) : String :=
  o.output.getD (withExtension o.input "c")

def executablePath (o : Options) : String :=
  withExtension o.input ""

/-- The stage to show, of several the earliest. -/
def dumpFlag? (o : Options) : Option Flag :=
  [Flag.lex, .parse, .validate].find? (· ∈ o.flags)

end Options

/-- What a source text is made into: something to show, or the text of a C file. -/
inductive Product where
  | dump (d : Dump)
  | program (text : String)

def dumpTokens (source : String) : Except CompileError Dump := do
  let tokens ← (lex source).mapError .lex
  .ok (.tokens tokens)

def dumpSymbols (source : String) : Except CompileError Dump := do
  let m ← Mis.read source
  let _ ← (m.typed m.symbolTable).mapError .semantic
  .ok (.symbols m.symbolTable)

def Options.product (o : Options) (source : String) : Except CompileError Product :=
  match o.dumpFlag? with
  | some .lex => Product.dump <$> dumpTokens source
  | some .parse => (fun m => .dump (.tree m)) <$> Mis.read source
  | some _ => Product.dump <$> dumpSymbols source
  | none => Product.program <$> compile source

section Run

variable {m : Type → Type} [Monad m] (host : Host m)

def build (o : Options) : m Outcome := do
  match ← host.startCompiler [o.outputPath, "-o", o.executablePath] with
  | .error cause => return .failed (.compilerNotStarted cause)
  | .ok 0 => return .finished
  | .ok status => return .failed (.compilerFailed status)

/-- The C file is written only when the whole compilation has succeeded. -/
def finish (o : Options) : Product → m Outcome
  | .dump d => return .shown d
  | .program text => do
    match ← host.write o.outputPath text.toUTF8 with
    | .error cause => return .failed (.unwritable o.outputPath cause)
    | .ok () => if .cc ∈ o.flags then build host o else return .finished

/-- What a command does with what it has read. -/
def respond (o : Options) : Except Fault ByteArray → m Outcome
  | .error fault => return .failed (.ofReading o.input fault)
  | .ok bytes =>
    match String.fromUTF8? bytes with
    | none => return .failed (.unreadable o.input .notText)
    | some source =>
      match o.product source with
      | .error e => return .failed (.compile e)
      | .ok product => finish host o product

def runOptions (o : Options) : m Outcome := do
  respond host o (← host.read o.input)

def run (args : List String) : m Outcome :=
  match Request.ofArgs args with
  | .error e => return .usage e
  | .ok .help => return .help
  | .ok .version => return .version
  | .ok (.compile o) => runOptions host o

end Run

/-- A C compiler, as far as a command sees it: what it leaves behind and its exit status. -/
abbrev Compiler := List String → FileTree → Nat × FileTree

/-- A file tree as the world of a command, on a disk and with or without a C compiler. -/
def treeHost (disk : Disk) (cc : Option Compiler) : Host (StateM FileTree) where
  read path := do
    let t ← get
    return t.read path
  write path bytes := do
    match (← get).write path bytes disk with
    | .error (fault, t) => do
      set t
      return .error fault
    | .ok t => do
      set t
      return .ok ()
  startCompiler args := do
    match cc with
    | none => return .error .notFound
    | some cc => do
      let (status, t) := cc args (← get)
      set t
      return .ok status

/-- Runs a command on a file tree: what it reports, and the tree after it. -/
def runIn (cc : Option Compiler) (args : List String) (t : FileTree) : Outcome × FileTree :=
  (run (treeHost .sound cc) args).run t

end Mis.Cli
