import Mis.Source.Diagnostic
import Mis.Token.Scan

/-!
From a source text to its tokens. Gaps are skipped, tokens follow one another,
and the first text that starts no token ends the reading with an error at the
place where that text starts.
-/
namespace Mis

abbrev LexError := Diagnostic LexCause

def LexError.message (e : LexError) : String :=
  e.render "Lexer" LexCause.message

/-- The tokens of a text that starts at `p`. -/
def lexFrom (p : Position) (cs : List Char) :
    Except (Located LexCause) (List (Located Token)) :=
  match _hgap : dropGap false cs with
  | [] => .ok []
  | c :: rest =>
    let here := p.after (takeGap false cs)
    match _hscan : Token.scan c rest with
    | .error cause => .error ⟨cause, here⟩
    | .ok s => do
      let more ← lexFrom (here.after s.lexeme) s.rest
      .ok (⟨s.value, here⟩ :: more)
termination_by cs.length
decreasing_by
  have hle := length_dropGap_le false cs
  have hlt := Token.length_rest_of_scan _hscan
  rw [_hgap] at hle
  omega

def lex (source : String) : Except LexError (List (Located Token)) :=
  match lexFrom .start source.toList with
  | .ok tokens => .ok tokens
  | .error e => .error (.inSource source e.value e.position)

end Mis
