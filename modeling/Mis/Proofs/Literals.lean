import Mis.Proofs.Lexing
import Mis.Proofs.Readable

/-!
Text literals of the printed program, read again. By the lexer of the source
language: it knows no escape for a carriage return or a null character, and
every other text comes back. By the rules of C: an escape of octal digits takes as
many of them as it can, so a null character takes the octal digits behind it
with it, and a text comes back unless it has such a pair.
-/
namespace Mis.C

/-- The inside of the literal of a text. -/
def escaped (cs : List Char) : List Char :=
  cs.flatMap fun c => (escapeChar c).toList

theorem escaped_cons (c : Char) (cs : List Char) :
    escaped (c :: cs) = (escapeChar c).toList ++ escaped cs :=
  List.flatMap_cons

theorem escaped_append (cs ds : List Char) : escaped (cs ++ ds) = escaped cs ++ escaped ds :=
  List.flatMap_append

theorem toList_renderLiteral (s : String) :
    (renderLiteral (.text s)).toList = '"' :: (escaped s.toList ++ ['"']) :=
  toList_literalText s

/-! By the lexer. -/

theorem scanQuoted_escapeChar {c : Char} (hcr : c ≠ '\r') (hnul : c ≠ '\x00') (cs : List Char) :
    scanQuoted ((escapeChar c).toList ++ cs) = (do
      let s ← scanQuoted cs
      .ok ⟨c :: s.value, (escapeChar c).toList ++ s.lexeme, s.rest⟩) := by
  simp only [escapeChar]
  split
  case h_5 => exact absurd rfl hcr
  case h_6 => exact absurd rfl hnul
  case h_7 hquote hslash hline _ _ _ =>
    rw [Char.toString, String.toList_singleton]
    exact scanQuoted_raw hquote hslash hline
  all_goals rfl

theorem scanQuoted_escaped {cs : List Char} (hcr : '\r' ∉ cs) (hnul : '\x00' ∉ cs) :
    scanQuoted (escaped cs ++ ['"']) = .ok ⟨cs, escaped cs ++ ['"'], []⟩ := by
  induction cs with
  | nil => rfl
  | cons c cs ih =>
      rw [List.mem_cons, not_or] at hcr hnul
      rw [escaped_cons, List.append_assoc, scanQuoted_escapeChar (Ne.symm hcr.1) (Ne.symm hnul.1),
        ih hcr.2 hnul.2]
      rfl

theorem exists_scanQuoted_error {cs : List Char} (h : '\r' ∈ cs ∨ '\x00' ∈ cs) :
    ∃ e, scanQuoted (escaped cs ++ ['"']) = .error (.unknownEscape e) := by
  induction cs with
  | nil => simp at h
  | cons c cs ih =>
      rw [escaped_cons, List.append_assoc]
      by_cases hcr : c = '\r'
      · subst hcr
        exact ⟨'r', rfl⟩
      by_cases hnul : c = '\x00'
      · subst hnul
        exact ⟨'0', rfl⟩
      simp only [List.mem_cons, Ne.symm hcr, Ne.symm hnul, false_or] at h
      obtain ⟨e, he⟩ := ih h
      refine ⟨e, ?_⟩
      rw [scanQuoted_escapeChar hcr hnul, he]
      rfl

/-- The lexer reads the literal of a text as that text, with nothing else, just if the text has
neither a carriage return nor a null character. -/
theorem lex_renderLiteral_text (s : String) :
    lex (renderLiteral (.text s)) = .ok [⟨.text s, ⟨1, 1⟩⟩] ↔
      '\r' ∉ s.toList ∧ '\x00' ∉ s.toList := by
  rw [lex_eq_ok_iff, toList_renderLiteral]
  have hgap : dropGap false ('"' :: (escaped s.toList ++ ['"'])) =
      '"' :: (escaped s.toList ++ ['"']) := rfl
  constructor
  · intro h
    by_contra hnot
    rw [not_and_or, not_not, not_not] at hnot
    obtain ⟨e, he⟩ := exists_scanQuoted_error hnot
    have hscan : Token.scan '"' (escaped s.toList ++ ['"']) = .error (.unknownEscape e) := by
      rw [Token.scan, he]
      rfl
    rw [lexFrom_error hgap hscan] at h
    cases h
  · rintro ⟨hcr, hnul⟩
    have hscan : Token.scan '"' (escaped s.toList ++ ['"']) =
        .ok ⟨.text s, '"' :: (escaped s.toList ++ ['"']), []⟩ := by
      rw [Token.scan, scanQuoted_escaped hcr hnul]
      simp [bind, Except.bind]
    rw [lexFrom_cons hgap hscan, lexFrom_nil rfl]
    rfl

/-! By the rules of C. -/

/-- The escapes of one letter, each with what it stands for. -/
def simpleEscapes : List (Char × Char) :=
  [('\x27', '\x27'), ('"', '"'), ('?', '?'), ('\\', '\\'), ('a', '\x07'), ('b', '\x08'),
    ('f', '\x0c'), ('n', '\n'), ('r', '\r'), ('t', '\t'), ('v', '\x0b')]

def isOctalDigit (c : Char) : Bool :=
  '0' ≤ c && c ≤ '7'

/-- The octal digits that a text starts with, at most `most` of them. -/
def octalDigits (most : Nat) (cs : List Char) : List Char :=
  (cs.takeWhile isOctalDigit).take most

/-- The character with an octal number, which has to fit a byte. -/
def octalChar? (ds : List Char) : Option Char :=
  if Nat.ofDigitChars 8 ds 0 ≤ 255 then some (Char.ofNat (Nat.ofDigitChars 8 ds 0)) else none

/-- The text of a literal, from behind its opening quote to its closing one, which ends the
input. An octal escape is one octal digit and at most two more. -/
def readInside : List Char → Option (List Char)
  | [] | ['\\'] | '\n' :: _ => none
  | ['"'] => some []
  | '"' :: _ => none
  | '\\' :: e :: cs =>
    if isOctalDigit e then do
      let ds := octalDigits 2 cs
      let c ← octalChar? (e :: ds)
      let text ← readInside (cs.drop ds.length)
      some (c :: text)
    else do
      let c ← simpleEscapes.lookup e
      let text ← readInside cs
      some (c :: text)
  | c :: cs => do
    let text ← readInside cs
    some (c :: text)
termination_by cs => cs.length

def readLiteral : List Char → Option (List Char)
  | '"' :: cs => readInside cs
  | _ => none

/-- The text that the literal of a text stands for: up to two octal digits go with the null
character in front of them. -/
def denoted : List Char → List Char
  | [] => []
  | c :: cs =>
    if c = '\x00' then
      let ds := octalDigits 2 cs
      Char.ofNat (Nat.ofDigitChars 8 ds 0) :: denoted (cs.drop ds.length)
    else c :: denoted cs
termination_by cs => cs.length

theorem octalDigits_append_drop (most : Nat) (cs : List Char) :
    octalDigits most cs ++ cs.drop (octalDigits most cs).length = cs := by
  apply List.prefix_iff_eq_append.mp
  have hmost : octalDigits most cs <+: cs.takeWhile isOctalDigit := List.take_prefix most _
  have hwhile : cs.takeWhile isOctalDigit <+: cs := List.takeWhile_prefix _
  exact hmost.trans hwhile

theorem isOctalDigit_of_mem {most : Nat} {cs : List Char} {d : Char}
    (h : d ∈ octalDigits most cs) : isOctalDigit d = true :=
  List.mem_takeWhile_imp (List.mem_of_mem_take h)

theorem octalDigits_cons_pos {most : Nat} {d : Char} (hd : isOctalDigit d = true)
    (cs : List Char) : octalDigits (most + 1) (d :: cs) = d :: octalDigits most cs := by
  rw [octalDigits, List.takeWhile_cons_of_pos hd, List.take_succ_cons, octalDigits]

theorem octalDigits_cons_neg {most : Nat} {d : Char} (hd : isOctalDigit d = false)
    (cs : List Char) : octalDigits most (d :: cs) = [] := by
  rw [octalDigits, List.takeWhile_cons_of_neg (by simp [hd]), List.take_nil]

theorem toNat_of_isOctalDigit {d : Char} (h : isOctalDigit d = true) :
    48 ≤ d.toNat ∧ d.toNat ≤ 55 := by
  simpa [isOctalDigit, Char.le_def, UInt32.le_iff_toNat_le] using h

/-- A character is written as itself, or it is no octal digit and a backslash is written first. -/
theorem escapeChar_cases (c : Char) :
    (escapeChar c).toList = [c] ∨
      isOctalDigit c = false ∧ ∃ e, (escapeChar c).toList = ['\\', e] := by
  simp only [escapeChar]
  split
  case h_7 =>
    left
    rw [Char.toString, String.toList_singleton]
  all_goals exact .inr ⟨by decide, _, rfl⟩

theorem octalDigits_escaped (most : Nat) (cs : List Char) :
    octalDigits most (escaped cs ++ ['"']) = octalDigits most cs := by
  induction cs generalizing most with
  | nil =>
      rw [escaped, List.flatMap_nil, List.nil_append, octalDigits_cons_neg rfl]
      exact List.take_nil.symm
  | cons c cs ih =>
      rw [escaped_cons, List.append_assoc]
      obtain hself | ⟨hc, e, hescape⟩ := escapeChar_cases c
      · rw [hself, List.singleton_append]
        cases most with
        | zero => rfl
        | succ most =>
            cases hc : isOctalDigit c with
            | false => rw [octalDigits_cons_neg hc, octalDigits_cons_neg hc]
            | true => rw [octalDigits_cons_pos hc, octalDigits_cons_pos hc, ih]
      · rw [hescape, octalDigits_cons_neg hc]
        exact octalDigits_cons_neg rfl _

theorem escaped_of_isOctalDigit {ds : List Char} (h : ∀ d ∈ ds, isOctalDigit d = true) :
    escaped ds = ds := by
  induction ds with
  | nil => rfl
  | cons d ds ih =>
      rw [List.forall_mem_cons] at h
      obtain hself | ⟨hd, _⟩ := escapeChar_cases d
      · rw [escaped_cons, hself, ih h.2, List.singleton_append]
      · rw [h.1] at hd
        cases hd

/-- Digits that are taken away before a text is escaped can be taken away behind that. -/
theorem drop_escaped (most : Nat) (cs : List Char) :
    (escaped cs ++ ['"']).drop (octalDigits most cs).length =
      escaped (cs.drop (octalDigits most cs).length) ++ ['"'] := by
  have hdigits : escaped (octalDigits most cs) = octalDigits most cs :=
    escaped_of_isOctalDigit fun _ => isOctalDigit_of_mem
  have hsplit := congrArg escaped (octalDigits_append_drop most cs)
  rw [escaped_append, hdigits] at hsplit
  rw [← hsplit, List.append_assoc, List.drop_left]

/-- The number of three octal digits that start with a zero fits a byte. -/
theorem octalChar?_zero (cs : List Char) :
    octalChar? ('0' :: octalDigits 2 cs) =
      some (Char.ofNat (Nat.ofDigitChars 8 (octalDigits 2 cs) 0)) := by
  have hzero : Nat.ofDigitChars 8 ('0' :: octalDigits 2 cs) 0 =
      Nat.ofDigitChars 8 (octalDigits 2 cs) 0 := rfl
  have hle : Nat.ofDigitChars 8 (octalDigits 2 cs) 0 ≤ 255 := by
    have hlength : (octalDigits 2 cs).length ≤ 2 := List.length_take_le 2 _
    have hdigits : ∀ d ∈ octalDigits 2 cs, d.toNat ≤ 55 :=
      fun d hd => (toNat_of_isOctalDigit (isOctalDigit_of_mem hd)).2
    match octalDigits 2 cs, hlength, hdigits with
    | [], _, _ => simp
    | [a], _, hdigits =>
        simp [Nat.ofDigitChars] at hdigits ⊢
        omega
    | [a, b], _, hdigits =>
        simp [Nat.ofDigitChars] at hdigits ⊢
        omega
  rw [octalChar?, hzero, if_pos hle]

theorem readInside_raw {c : Char} (hquote : c ≠ '"') (hslash : c ≠ '\\') (hline : c ≠ '\n')
    (cs : List Char) : readInside (c :: cs) = (readInside cs).map (c :: ·) := by
  rw [readInside]
  · cases readInside cs <;> rfl
  all_goals intros; simp_all

theorem readInside_simple {e c : Char} (hdigit : isOctalDigit e = false)
    (he : simpleEscapes.lookup e = some c) (cs : List Char) :
    readInside ('\\' :: e :: cs) = (readInside cs).map (c :: ·) := by
  rw [readInside, if_neg (by rw [hdigit]; exact Bool.false_ne_true), he]
  cases readInside cs <;> rfl

theorem readInside_octal {e c : Char} {cs : List Char} (hdigit : isOctalDigit e = true)
    (hc : octalChar? (e :: octalDigits 2 cs) = some c) :
    readInside ('\\' :: e :: cs) =
      (readInside (cs.drop (octalDigits 2 cs).length)).map (c :: ·) := by
  rw [readInside, if_pos hdigit]
  simp only [hc]
  cases readInside (cs.drop (octalDigits 2 cs).length) <;> rfl

/-- One character that is written is one character read, but for the null character. -/
theorem readInside_escapeChar {c : Char} (hnul : c ≠ '\x00') (cs : List Char) :
    readInside ((escapeChar c).toList ++ cs) = (readInside cs).map (c :: ·) := by
  simp only [escapeChar]
  split
  case h_6 => exact absurd rfl hnul
  case h_7 hquote hslash hline _ _ _ =>
    rw [Char.toString, String.toList_singleton]
    exact readInside_raw hquote hslash hline cs
  all_goals exact readInside_simple rfl rfl cs

/-- The null character goes on for as long as octal digits follow. -/
theorem readInside_nul (cs : List Char) :
    readInside ((escapeChar '\x00').toList ++ cs) =
      (readInside (cs.drop (octalDigits 2 cs).length)).map
        (Char.ofNat (Nat.ofDigitChars 8 (octalDigits 2 cs) 0) :: ·) :=
  readInside_octal rfl (octalChar?_zero cs)

theorem readInside_escaped (cs : List Char) :
    readInside (escaped cs ++ ['"']) = some (denoted cs) := by
  fun_induction denoted cs with
  | case1 =>
      rw [escaped, List.flatMap_nil, List.nil_append, readInside]
  | case2 cs ds ih =>
      rw [escaped_cons, List.append_assoc, readInside_nul, octalDigits_escaped, drop_escaped, ih]
      rfl
  | case3 c cs hnul ih =>
      rw [escaped_cons, List.append_assoc, readInside_escapeChar hnul, ih]
      rfl

theorem length_denoted_le (cs : List Char) : (denoted cs).length ≤ cs.length := by
  fun_induction denoted cs with
  | case1 => exact Nat.le_refl 0
  | case2 cs ds ih =>
      rw [List.length_drop] at ih
      rw [List.length_cons, List.length_cons]
      omega
  | case3 c cs _ ih => exact Nat.succ_le_succ ih

theorem pair_infix_cons {a b c : Char} {cs : List Char} :
    [a, b] <:+: c :: cs ↔ a = c ∧ cs.head? = some b ∨ [a, b] <:+: cs := by
  rw [List.infix_cons_iff, List.cons_prefix_cons]
  cases cs with
  | nil => simp
  | cons d cs => simp [eq_comm]

theorem denoted_nul_of_digit {d : Char} (hd : isOctalDigit d = true) (cs : List Char) :
    denoted ('\x00' :: d :: cs) ≠ '\x00' :: d :: cs := by
  intro heq
  rw [denoted, if_pos rfl, octalDigits_cons_pos hd] at heq
  -- the digit is gone, so the rest is shorter than what it should be
  have hrest : denoted (cs.drop (octalDigits 1 cs).length) = d :: cs := List.tail_eq_of_cons_eq heq
  have hlength := length_denoted_le (cs.drop (octalDigits 1 cs).length)
  rw [hrest, List.length_cons, List.length_drop] at hlength
  omega

theorem denoted_nul {cs : List Char} (hcs : ∀ d, cs.head? = some d → isOctalDigit d = false) :
    denoted ('\x00' :: cs) = '\x00' :: denoted cs := by
  have hnone : octalDigits 2 cs = [] := by
    cases cs with
    | nil => rfl
    | cons d cs => exact octalDigits_cons_neg (hcs d rfl) cs
  rw [denoted, if_pos rfl, hnone]
  rfl

theorem denoted_eq_self_iff (cs : List Char) :
    denoted cs = cs ↔ ∀ d, isOctalDigit d = true → ¬ ['\x00', d] <:+: cs := by
  induction cs with
  | nil => simp [denoted]
  | cons c cs ih =>
      simp only [pair_infix_cons, not_or]
      by_cases hc : c = '\x00'
      · subst hc
        by_cases hcs : ∀ d, cs.head? = some d → isOctalDigit d = false
        · rw [denoted_nul hcs, List.cons.injEq, eq_self, true_and, ih]
          refine forall₂_congr fun d hd => (and_iff_right ?_).symm
          rintro ⟨_, hhead⟩
          rw [hcs d hhead] at hd
          cases hd
        · simp only [not_forall, Bool.not_eq_false] at hcs
          obtain ⟨d, hhead, hd⟩ := hcs
          obtain ⟨cs, rfl⟩ := List.head?_eq_some_iff.mp hhead
          exact iff_of_false (denoted_nul_of_digit hd cs) fun h => (h d hd).1 ⟨rfl, hhead⟩
      · rw [denoted, if_neg hc, List.cons.injEq, eq_self, true_and, ih]
        simp [Ne.symm hc]

/-- The literal of a text is a literal of C, and it stands for the text itself just if the text has
no null character right before an octal digit. -/
theorem readLiteral_renderLiteral (s : String) :
    readLiteral (renderLiteral (.text s)).toList = some (denoted s.toList) ∧
      (denoted s.toList = s.toList ↔
        ∀ d, isOctalDigit d = true → ¬ ['\x00', d] <:+: s.toList) := by
  constructor
  · rw [toList_renderLiteral, readLiteral, readInside_escaped]
  · exact denoted_eq_self_iff s.toList

/-- A null character and the digit `1` are read as the character with number one. -/
theorem nulBeforeDigit_misread :
    readLiteral (renderLiteral (.text "\x001")).toList = some ['\x01'] ∧
      "\x001".toList = ['\x00', '1'] := by
  constructor
  · decide +kernel
  · rfl

end Mis.C
