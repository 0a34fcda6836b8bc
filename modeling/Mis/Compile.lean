import Mis.C.Printer
import Mis.Generation
import Mis.Token.Lexer
import Mis.Tree.Parser

/-!
The compiler: from a source text to the text of a C program. The first stage
that fails gives the error.
-/
namespace Mis

inductive CompileError where
  | lex (e : LexError)
  | parse (e : ParseError)
  | semantic (e : SemanticError)
  | generate (e : GenerateError)
deriving DecidableEq, Repr

namespace CompileError

def message : CompileError → String
  | .lex e => e.message
  | .parse e => e.message
  | .semantic e => e.message
  | .generate e => e.message

/-- A name that fails to resolve only during generation is still a semantic error. -/
def ofGenerate : GenerateError → CompileError
  | .semantic e => .semantic e
  | e => .generate e

end CompileError

/-- The module that a source text spells. -/
def read (source : String) : Except CompileError (Module NodeId) := do
  let tokens ← (lex source).mapError .lex
  (parse tokens source).mapError .parse

/-- The program that a module means. -/
def Module.compile (m : Module NodeId) : Except CompileError C.Program := do
  let typed ← (m.typed m.symbolTable).mapError .semantic
  (typed.generate m.symbolTable).mapError .ofGenerate

def compile (source : String) : Except CompileError String := do
  let m ← read source
  let program ← m.compile
  .ok program.render

end Mis
