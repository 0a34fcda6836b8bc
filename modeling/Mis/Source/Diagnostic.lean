import Mis.Source.Position

/-!
Lines of a source text, and errors shown under the line they are about.
-/
namespace Mis

/-- Lines end at a line feed, which takes a carriage return right before it with
it. Text after the last line feed is a line only if there is any. -/
def lines : List Char → List (List Char)
  | [] => []
  | '\n' :: cs => [] :: lines cs
  | '\r' :: '\n' :: cs => [] :: lines cs
  | c :: cs =>
    match lines cs with
    | [] => [[c]]
    | l :: ls => (c :: l) :: ls

/-- The line of `p`, empty where the source has none, over a caret at the column of `p`. -/
def excerpt (source : String) (p : Position) : String :=
  let line := ((lines source.toList)[p.line - 1]?).getD []
  String.ofList line ++ "\n" ++ String.ofList (List.replicate (p.column - 1) ' ') ++ "^"

/-- The place right after the last line. -/
def endPosition (source : String) : Position :=
  let ls := lines source.toList
  ⟨max ls.length 1, (ls.getLast?.getD []).length + 1⟩

/-- What went wrong, where, and the line it went wrong on. -/
structure Diagnostic (κ : Type) where
  cause : κ
  position : Position
  excerpt : String
deriving DecidableEq, Repr

def Diagnostic.inSource {κ : Type} (source : String) (cause : κ) (p : Position) : Diagnostic κ :=
  ⟨cause, p, Mis.excerpt source p⟩

/-- Place, stage and cause on the first line, the excerpt below. -/
def Diagnostic.render {κ : Type} (d : Diagnostic κ) (stage : String) (cause : κ → String) :
    String :=
  toString d.position.line ++ ":" ++ toString d.position.column ++ ": " ++ stage ++ " error: " ++
    cause d.cause ++ "\n" ++ d.excerpt

end Mis
