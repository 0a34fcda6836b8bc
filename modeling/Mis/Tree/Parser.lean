import Mis.Source.Diagnostic
import Mis.Tree.Phrase.Decl

/-!
From the tokens of a source to a module whose nodes are numbered in the order in
which they are read to their end. A failure is shown at the token at fault, or
behind the last line if the input ended too early.
-/
namespace Mis

abbrev ParseError := Diagnostic ParseCause

def ParseError.message (e : ParseError) : String :=
  e.render "Parser" ParseCause.message

/-- The place of a failure among the tokens that were read. -/
def Failure.position (f : Failure) (tokens : List (Located Token)) (source : String) : Position :=
  match (tokens.drop (tokens.length - f.rest.length)).head? with
  | some t => t.position
  | none => endPosition source

/-- Reading with a counter: the number that is free next. -/
abbrev Counting := StateT NodeId (Except Failure)

/-- Takes the number that is free. -/
def freshId : Counting NodeId := modifyGet fun n => (n, n + 1)

def parse (tokens : List (Located Token)) (source : String) : Except ParseError (Module NodeId) :=
  match (Read.Labelled.wholeModule freshId (tokens.map (·.value))).run' 0 with
  | .ok m => .ok m
  | .error f => .error (.inSource source f.cause (f.position tokens source))

end Mis
