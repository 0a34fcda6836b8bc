/-!
Command line arguments. They are read from left to right, and the first one
that asks for help, asks for the version or is wrong decides.
-/
namespace Mis.Cli

inductive Flag where
  | lex | parse | validate | cc
deriving DecidableEq, Repr

def Flag.ofName? : String → Option Flag
  | "lex" => some .lex
  | "parse" => some .parse
  | "validate" => some .validate
  | "cc" => some .cc
  | _ => none

inductive UsageError where
  | unknownOption (arg : String)
  | repeated (option : String)
  | unneededValue (option : String)
  | missingValue (option : String)
  | secondInput (arg : String)
  | missingInput
deriving DecidableEq, Repr

def UsageError.message : UsageError → String
  | .unknownOption arg => "unexpected argument '" ++ arg ++ "' found"
  | .repeated option => "the argument '" ++ option ++ "' cannot be used multiple times"
  | .unneededValue option => "no value is expected for '" ++ option ++ "'"
  | .missingValue option => "a value is required for '" ++ option ++ "' but none was supplied"
  | .secondInput arg => "unexpected argument '" ++ arg ++ "' found"
  | .missingInput => "the following required arguments were not provided: <INPUT>"

/-- What to compile and how. -/
structure Options where
  input : String
  output : Option String := none
  flags : List Flag := []
deriving DecidableEq, Repr

inductive Request where
  | help
  | version
  | compile (options : Options)
deriving DecidableEq, Repr

/-- The options met so far. -/
structure Draft where
  input : Option String := none
  output : Option String := none
  flags : List Flag := []

namespace Draft

def addFlag (d : Draft) (name : String) (flag : Flag) : Except UsageError Draft :=
  if flag ∈ d.flags then .error (.repeated ("--" ++ name))
  else .ok { d with flags := flag :: d.flags }

/-- An empty path is no value. -/
def setOutput (d : Draft) (path : String) : Except UsageError Draft :=
  if path.isEmpty then .error (.missingValue "--output <PATH>")
  else if d.output.isSome then .error (.repeated "--output <PATH>")
  else .ok { d with output := some path }

def setInput (d : Draft) (path : String) : Except UsageError Draft :=
  if d.input.isSome then .error (.secondInput path)
  else if path.isEmpty then .error (.missingValue "<INPUT>")
  else .ok { d with input := some path }

def finish (d : Draft) : Except UsageError Request :=
  match d.input with
  | some input => .ok (.compile { input := input, output := d.output, flags := d.flags })
  | none => .error .missingInput

end Draft

/-- A dash and something behind it. A lone dash is a path. -/
def looksLikeOption (arg : String) : Bool :=
  match arg.toList with
  | '-' :: _ :: _ => true
  | _ => false

/-- One argument. -/
inductive Arg where
  | help
  | version
  | flag (name : String) (flag : Flag)
  /-- The output option, with its value if that is attached. -/
  | output (value : Option String)
  /-- All that follows are inputs. -/
  | inputsOnly
  | input (path : String)
  | wrong (e : UsageError)

/-- A long option, without its dashes, and the value behind an equals sign. -/
def Arg.ofLong (name : String) (value : Option String) : Arg :=
  match name, value with
  | "help", none => .help
  | "version", none => .version
  | "output", value => .output value
  | name, value =>
    match Flag.ofName? name, value with
    | some f, none => .flag name f
    | some _, some _ => .wrong (.unneededValue ("--" ++ name))
    | none, _ => .wrong (.unknownOption ("--" ++ name))

def Arg.ofString (arg : String) : Arg :=
  match arg.toList with
  | ['-', '-'] => .inputsOnly
  | '-' :: '-' :: cs =>
    let name := cs.takeWhile (· ≠ '=')
    match cs.dropWhile (· ≠ '=') with
    | [] => .ofLong (String.ofList name) none
    | _ :: value => .ofLong (String.ofList name) (some (String.ofList value))
  | ['-'] => .input arg
  | '-' :: 'h' :: _ => .help
  | '-' :: 'V' :: _ => .version
  | ['-', 'o'] => .output none
  | '-' :: 'o' :: '=' :: value => .output (some (String.ofList value))
  | '-' :: 'o' :: value => .output (some (String.ofList value))
  | '-' :: _ => .wrong (.unknownOption arg)
  | _ => .input arg

def readInputs (d : Draft) : List String → Except UsageError Request
  | [] => d.finish
  | arg :: args => do
    let d ← d.setInput arg
    readInputs d args

def readArgs (d : Draft) : List String → Except UsageError Request
  | [] => d.finish
  | arg :: args =>
    match Arg.ofString arg with
    | .help => .ok .help
    | .version => .ok .version
    | .wrong e => .error e
    | .flag name flag => do
      let d ← d.addFlag name flag
      readArgs d args
    | .input path => do
      let d ← d.setInput path
      readArgs d args
    | .inputsOnly => readInputs d args
    | .output (some path) => do
      let d ← d.setOutput path
      readArgs d args
    | .output none =>
      match args with
      | [] => .error (.missingValue "--output <PATH>")
      | path :: args =>
        if looksLikeOption path then .error (.missingValue "--output <PATH>")
        else do
          let d ← d.setOutput path
          readArgs d args

def Request.ofArgs (args : List String) : Except UsageError Request :=
  readArgs {} args

def versionText : String := "misc 0.4.1\n"

def helpText : String :=
  String.join (List.map (· ++ "\n")
    ["Mis to C compiler",
     "",
     "Usage: misc [OPTIONS] <INPUT>",
     "",
     "Arguments:",
     "  <INPUT>  ",
     "",
     "Options:",
     "      --lex            Stop after lexing and dump the tokens",
     "      --parse          Stop after parsing and dump the syntax tree",
     "      --validate       Stop after semantic analysis and dump the symbol table",
     "  -o, --output <PATH>  Where to write the generated C (defaults to FILE with a .c extension)",
     "      --cc             Also build an executable from the generated C with `cc`",
     "  -h, --help           Print help",
     "  -V, --version        Print version"])

end Mis.Cli
