import Mis.Steps
import Mis.Text.Blank
import Mis.Token

/-!
Reading at the head of a text: the gap before a token, and one token. Nothing
is lost: what was read and what follows it make up the text again.
-/
namespace Mis

inductive LexCause where
  | illegalCharacter (c : Char)
  | unterminatedText
  | unknownEscape (c : Char)
  | numberTooLarge (digits : String)
deriving DecidableEq, Repr

def LexCause.message : LexCause → String
  | .illegalCharacter c => "Illegal character '" ++ c.toString ++ "'"
  | .unterminatedText => "unterminated string literal"
  | .unknownEscape c => "unknown escape sequence '\\" ++ c.toString ++ "'"
  | .numberTooLarge digits => "number " ++ digits ++ " does not fit into Int"

/-- The blanks and comments at the head of a text. A comment runs from `#` to the
end of its line; `inComment` says that the text starts inside one. -/
def takeGap (inComment : Bool) : List Char → List Char
  | [] => []
  | c :: cs =>
    if inComment then c :: takeGap (c != '\n') cs
    else if Text.isBlank c then c :: takeGap false cs
    else if c = '#' then c :: takeGap true cs
    else []

/-- What follows the blanks and comments at the head of a text. -/
def dropGap (inComment : Bool) : List Char → List Char
  | [] => []
  | c :: cs =>
    if inComment then dropGap (c != '\n') cs
    else if Text.isBlank c then dropGap false cs
    else if c = '#' then dropGap true cs
    else c :: cs

theorem takeGap_append_dropGap (inComment : Bool) (cs : List Char) :
    takeGap inComment cs ++ dropGap inComment cs = cs := by
  induction cs generalizing inComment with
  | nil => rfl
  | cons c cs ih => grind [takeGap, dropGap]

theorem length_dropGap_le (inComment : Bool) (cs : List Char) :
    (dropGap inComment cs).length ≤ cs.length := by
  have h := congrArg List.length (takeGap_append_dropGap inComment cs)
  rw [List.length_append] at h
  omega

/-- One thing read: its value, the characters it was read from, and what follows. -/
structure Scan (α : Type) where
  value : α
  lexeme : List Char
  rest : List Char
deriving Repr

def Scan.map {α β : Type} (f : α → β) (s : Scan α) : Scan β :=
  ⟨f s.value, s.lexeme, s.rest⟩

def isWordStart (c : Char) : Bool :=
  c.isAlpha || c = '_'

def isWordPart (c : Char) : Bool :=
  c.isAlphanum || c = '_'

/-- The character that stands after a backslash for another one. -/
def unescape? : Char → Option Char
  | 'n' => some '\n'
  | 't' => some '\t'
  | '"' => some '"'
  | '\\' => some '\\'
  | _ => none

/-- Reads the inside of a quoted text and its closing quote. -/
def scanQuoted : List Char → Except LexCause (Scan (List Char))
  | [] => .error .unterminatedText
  | '"' :: cs => .ok ⟨[], ['"'], cs⟩
  | '\n' :: _ => .error .unterminatedText
  | '\\' :: [] => .error .unterminatedText
  | '\\' :: e :: cs =>
    match unescape? e with
    | none => .error (.unknownEscape e)
    | some c => do
      let s ← scanQuoted cs
      .ok ⟨c :: s.value, '\\' :: e :: s.lexeme, s.rest⟩
  | c :: cs => do
    let s ← scanQuoted cs
    .ok ⟨c :: s.value, c :: s.lexeme, s.rest⟩

/-- The largest number a literal may hold. -/
def maxInt : Nat := 9223372036854775807

def digitsValue (digits : List Char) : Nat :=
  digits.foldl (fun n c => 10 * n + (c.toNat - '0'.toNat)) 0

/-- Reads a run of digits. A letter right behind it is refused first, then the size. -/
def scanNumber (cs : List Char) : Except LexCause (Scan Int) :=
  let digits := cs.takeWhile Char.isDigit
  let rest := cs.dropWhile Char.isDigit
  match rest.head?.filter isWordStart with
  | some c => .error (.illegalCharacter c)
  | none =>
    if digitsValue digits ≤ maxInt then .ok ⟨digitsValue digits, digits, rest⟩
    else .error (.numberTooLarge (String.ofList digits))

def scanWord (cs : List Char) : Scan Token :=
  let word := cs.takeWhile isWordPart
  ⟨.ofWord (String.ofList word), word, cs.dropWhile isWordPart⟩

/-- Reads a token that one character, or a class of characters, tells from the others. -/
def scanSimple (c : Char) (cs : List Char) : Except LexCause (Scan Token) :=
  if c.isDigit then do
    let s ← scanNumber (c :: cs)
    .ok (s.map .number)
  else if isWordStart c then .ok (scanWord (c :: cs))
  else
    match Punct.ofChar? c with
    | some p => .ok ⟨.punct p, [c], cs⟩
    | none => .error (.illegalCharacter c)

/-- Reads the token whose first character is `c`, taking the longest one. -/
def Token.scan : Char → List Char → Except LexCause (Scan Token)
  | ':', ':' :: '=' :: cs => .ok ⟨.punct .defineOwn, [':', ':', '='], cs⟩
  | ':', '=' :: cs => .ok ⟨.punct .define, [':', '='], cs⟩
  | '-', '>' :: cs => .ok ⟨.punct .arrow, ['-', '>'], cs⟩
  | '"', cs => do
    let s ← scanQuoted cs
    .ok ⟨.text (String.ofList s.value), '"' :: s.lexeme, s.rest⟩
  | c, cs => scanSimple c cs

theorem lexeme_append_rest_of_scanQuoted {cs : List Char} {s : Scan (List Char)}
    (h : scanQuoted cs = .ok s) : s.lexeme ++ s.rest = cs := by
  fun_induction scanQuoted cs generalizing s with
  | case1 | case3 | case4 | case5 => simp at h
  | case2 cs => cases h; rfl
  | case6 _ _ _ _ ih | case7 _ _ _ _ _ _ ih =>
    obtain ⟨t, ht, hs⟩ := bind_eq_ok.1 h
    cases hs
    simp [ih ht]

private theorem lexeme_append_rest_of_scanNumber {cs : List Char} {s : Scan Int}
    (h : scanNumber cs = .ok s) : s.lexeme ++ s.rest = cs := by
  simp only [scanNumber] at h
  split at h
  · simp at h
  · split at h
    · cases h; simp
    · simp at h

private theorem lexeme_append_rest_of_scanSimple {c : Char} {cs : List Char} {s : Scan Token}
    (h : scanSimple c cs = .ok s) : s.lexeme ++ s.rest = c :: cs := by
  unfold scanSimple at h
  split at h
  · obtain ⟨t, ht, hs⟩ := bind_eq_ok.1 h
    cases hs
    exact lexeme_append_rest_of_scanNumber ht
  · split at h
    · cases h; simp [scanWord]
    · split at h
      · cases h; rfl
      · simp at h

theorem Token.lexeme_append_rest_of_scan {c : Char} {cs : List Char} {s : Scan Token}
    (h : Token.scan c cs = .ok s) : s.lexeme ++ s.rest = c :: cs := by
  unfold Token.scan at h
  split at h
  · cases h; rfl
  · cases h; rfl
  · cases h; rfl
  · obtain ⟨t, ht, hs⟩ := bind_eq_ok.1 h
    cases hs
    simp [lexeme_append_rest_of_scanQuoted ht]
  · exact lexeme_append_rest_of_scanSimple h

private theorem lexeme_ne_nil_of_scanSimple {c : Char} {cs : List Char} {s : Scan Token}
    (h : scanSimple c cs = .ok s) : s.lexeme ≠ [] := by
  unfold scanSimple at h
  split at h
  · rename_i hc
    obtain ⟨t, ht, hs⟩ := bind_eq_ok.1 h
    cases hs
    simp only [scanNumber] at ht
    split at ht
    · simp at ht
    · split at ht
      · cases ht; simp [Scan.map, hc]
      · simp at ht
  · split at h
    · rename_i hc
      cases h
      have hp : isWordPart c = true := by
        simp only [isWordStart, isWordPart, Char.isAlphanum, Bool.or_eq_true] at hc ⊢
        exact hc.imp_left Or.inl
      simp [scanWord, hp]
    · split at h
      · cases h; simp
      · simp at h

theorem Token.lexeme_ne_nil_of_scan {c : Char} {cs : List Char} {s : Scan Token}
    (h : Token.scan c cs = .ok s) : s.lexeme ≠ [] := by
  unfold Token.scan at h
  split at h
  · cases h; simp
  · cases h; simp
  · cases h; simp
  · obtain ⟨t, _, hs⟩ := bind_eq_ok.1 h
    cases hs; simp
  · exact lexeme_ne_nil_of_scanSimple h

/-- Reading a token uses up at least its first character. -/
theorem Token.length_rest_of_scan {c : Char} {cs : List Char} {s : Scan Token}
    (h : Token.scan c cs = .ok s) : s.rest.length < (c :: cs).length := by
  rw [← Token.lexeme_append_rest_of_scan h, List.length_append]
  have := List.length_pos_iff.2 (Token.lexeme_ne_nil_of_scan h)
  omega

end Mis
