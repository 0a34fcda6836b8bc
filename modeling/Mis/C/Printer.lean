import Mis.C.Program

/-!
The text of a C program, as a list of lines: a fixed opening that defines the
built-in types and functions, then structs, globals, prototypes and functions,
each group with an empty line behind it, and `main`.
-/
namespace Mis.C

def indent (depth : Nat) : String :=
  String.join (List.replicate depth "    ")

/-- A line at the given depth. -/
def line (depth : Nat) (text : String) : String :=
  indent depth ++ text

def escapeChar : Char → String
  | '"' => "\\\""
  | '\\' => "\\\\"
  | '\n' => "\\n"
  | '\t' => "\\t"
  | '\r' => "\\r"
  | '\x00' => "\\0"
  | c => c.toString

def literalText (s : String) : String :=
  "\"" ++ String.join (s.toList.map escapeChar) ++ "\""

def renderLiteral : Literal → String
  | .int n => toString n
  | .text s => literalText s

def Operand.render : Operand → String
  | .name x => x
  | .addressOf x => "&" ++ x
  | .deref x => "*" ++ x

def renderTypedName (x : TypedName) : String :=
  x.type.render ++ " " ++ x.name

def Prototype.render (p : Prototype) : String :=
  "void " ++ p.name ++ "(" ++ ", ".intercalate (p.params.map renderTypedName) ++ ")"

/-- The operators that the built-in functions on numbers stand for. -/
def intOperators : List (String × String) :=
  [("isEqualInt", "=="), ("isLessInt", "<"), ("isGreaterInt", ">"),
   ("minusInt", "-"), ("plusInt", "+"), ("multiplyInt", "*")]

def opening : List String :=
  ["#include <stdio.h>",
   "",
   "typedef long long Int;",
   "typedef const char* String;",
   "",
   "void printString(String* value) \x7b",
   "    printf(\"%s\", *value);",
   "\x7d",
   "",
   "void printInt(Int* value) \x7b",
   "    printf(\"%lld\", *value);",
   "\x7d",
   "",
   "void printNewLine() \x7b",
   "    printf(\"\\n\");",
   "\x7d"] ++
  intOperators.flatMap fun (name, op) =>
    ["",
     "void " ++ name ++ "(Int* __result, Int* a, Int* b) \x7b",
     "    *__result = *a " ++ op ++ " *b;",
     "\x7d"]

mutual

def Stmt.lines (depth : Nat) : Stmt → List String
  | .call f args =>
    [line depth (f ++ "(" ++ ", ".intercalate (args.map Operand.render) ++ ");")]
  | .assign dst src => [line depth (dst.render ++ " = " ++ src.render ++ ";")]
  | .branch c yes none =>
    line depth ("if (" ++ c.render ++ ") \x7b") :: Stmt.linesAll (depth + 1) yes ++
      [line depth "\x7d"]
  | .branch c yes (some no) =>
    line depth ("if (" ++ c.render ++ ") \x7b") :: Stmt.linesAll (depth + 1) yes ++
      line depth "\x7d else \x7b" :: Stmt.linesAll (depth + 1) no ++ [line depth "\x7d"]
  | .loop body =>
    line depth "while (1) \x7b" :: Stmt.linesAll (depth + 1) body ++ [line depth "\x7d"]
  | .leaveLoopUnless c =>
    [line depth ("if (!" ++ c.render ++ ") \x7b"), line (depth + 1) "break;", line depth "\x7d"]
  | .leave => [line depth "return;"]
  | .comment text => [line depth ("/* " ++ text ++ " */")]

def Stmt.linesAll (depth : Nat) : List Stmt → List String
  | [] => []
  | s :: ss => Stmt.lines depth s ++ Stmt.linesAll depth ss

end

/-- Lines with an empty one behind them, or none at all. -/
def paragraph (ls : List String) : List String :=
  if ls.isEmpty then [] else ls ++ [""]

def Function.lines (f : Function) : List String :=
  (f.prototype.render ++ " \x7b") ::
    (paragraph (f.locals.map fun x => line 1 (renderTypedName x ++ ";")) ++
     paragraph (f.initials.map fun (x, v) => line 1 (x ++ " = " ++ renderLiteral v ++ ";")) ++
     Stmt.linesAll 1 f.body ++ ["\x7d"])

def Struct.lines (s : Struct) : List String :=
  ("struct " ++ s.name ++ " \x7b") ::
    (s.fields.map (fun x => line 1 (renderTypedName x ++ ";")) ++ ["\x7d;"])

def Global.lines (g : Global) : List String :=
  ["static " ++ g.type.render ++ " " ++ g.name ++ "__value = " ++ renderLiteral g.value ++ ";",
   "static " ++ g.type.pointer.render ++ " const " ++ g.name ++ " = &" ++ g.name ++ "__value;"]

def Entry.lines (e : Entry) : List String :=
  "int main() \x7b" ::
    ((match e.result with
      | some t => [line 1 (t.render ++ " result;"), line 1 (e.name ++ "(&result);")]
      | none => [line 1 (e.name ++ "();")]) ++
     [line 1 "return 0;", "\x7d"])

def Program.lines (p : Program) : List String :=
  paragraph opening ++
  paragraph (p.structs.map fun s => "typedef struct " ++ s.name ++ " " ++ s.name ++ ";") ++
  p.structs.flatMap (paragraph ·.lines) ++
  paragraph (p.globals.flatMap Global.lines) ++
  paragraph (p.prototypes.map fun q => q.render ++ ";") ++
  p.functions.flatMap (paragraph ·.lines) ++
  p.entry.lines

def Program.render (p : Program) : String :=
  String.join (p.lines.map (· ++ "\n"))

end Mis.C
