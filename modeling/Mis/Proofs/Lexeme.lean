import Mathlib.Algebra.Group.Nat.Defs
import Mathlib.Data.List.TakeWhile
import Mis.Token.Scan

/-!
How gaps and tokens are written, said apart from the functions that read them.
A token can have many written forms: a number any count of leading zeros, a
quoted text an escape or the character itself. What follows a written form may
go on with it, as a letter goes on with a word. Reading at the head of a text
finds a token exactly where a written form stands that is not gone on with.
-/
namespace Mis

/-- Blanks and comments that stand before `rest`. A comment runs from `#` to the next line
feed, which it does not take, or to the end of the text. -/
inductive IsGap (rest : List Char) : List Char → Prop
  | nil : IsGap rest []
  | blank {c : Char} {cs : List Char} : Text.isBlank c = true → IsGap rest cs → IsGap rest (c :: cs)
  | comment {body cs : List Char} : '\n' ∉ body → (∀ c, (cs ++ rest).head? = some c → c = '\n') →
      IsGap rest cs → IsGap rest ('#' :: body ++ cs)

/-- The letters that stand behind a backslash, each with what the two stand for. -/
def escapes : List (Char × Char) :=
  [('n', '\n'), ('t', '\t'), ('"', '"'), ('\\', '\\')]

/-- The inside of a quoted text, and the text. -/
inductive Quotes : List Char → List Char → Prop
  | nil : Quotes [] []
  | raw {c : Char} {cs value : List Char} : c ≠ '"' → c ≠ '\\' → c ≠ '\n' → Quotes cs value →
      Quotes (c :: cs) (c :: value)
  | escape {e c : Char} {cs value : List Char} : (e, c) ∈ escapes → Quotes cs value →
      Quotes ('\\' :: e :: cs) (c :: value)

/-- A letter or underscore, then letters, digits and underscores. -/
def isWord : List Char → Bool
  | [] => false
  | c :: cs => isWordStart c && cs.all isWordPart

/-- The written forms of a token. -/
inductive Token.Spelled : Token → List Char → Prop
  | keyword (k : Keyword) : Spelled (.keyword k) k.spelling.toList
  | punct (p : Punct) : Spelled (.punct p) p.spelling.toList
  | identifier {x : String} : isWord x.toList = true → (∀ k : Keyword, k.spelling ≠ x) →
      Spelled (.identifier x) x.toList
  | number {n : Nat} {ds : List Char} : ds ≠ [] → (∀ d ∈ ds, d.isDigit = true) →
      Nat.ofDigitChars 10 ds 0 = n → n ≤ 2 ^ 63 - 1 → Spelled (.number n) ds
  | text {cs value : List Char} : Quotes cs value →
      Spelled (.text (String.ofList value)) ('"' :: cs ++ ['"'])

/-- What follows a written form of the token does not go on with it. -/
def Token.EndsBefore : Token → List Char → Prop
  | .keyword _, rest | .identifier _, rest | .number _, rest =>
    ∀ c, rest.head? = some c → isWordPart c = false
  | .punct .colon, rest => ¬ ['='] <+: rest ∧ ¬ [':', '='] <+: rest
  | .punct _, _ | .text _, _ => True

/-! Classes of characters. -/

theorem toNat_of_isDigit {c : Char} (h : c.isDigit = true) : 48 ≤ c.toNat ∧ c.toNat ≤ 57 := by
  simp only [Char.isDigit, Bool.and_eq_true, decide_eq_true_eq, ge_iff_le,
    UInt32.le_iff_toNat_le] at h
  exact h

theorem toNat_of_isWordStart {c : Char} (h : isWordStart c = true) :
    65 ≤ c.toNat ∧ c.toNat ≤ 122 := by
  simp only [isWordStart, Bool.or_eq_true, decide_eq_true_eq] at h
  obtain h | rfl := h
  · change (decide ('A'.val ≤ c.val ∧ c.val ≤ 'Z'.val) ||
      (decide ('a'.val ≤ c.val) && decide (c.val ≤ 'z'.val))) = true at h
    simp only [Bool.or_eq_true, Bool.and_eq_true, decide_eq_true_eq,
      UInt32.le_iff_toNat_le] at h
    change (65 ≤ c.toNat ∧ c.toNat ≤ 90) ∨ (97 ≤ c.toNat ∧ c.toNat ≤ 122) at h
    omega
  · decide

theorem isWordPart_eq_or (c : Char) : isWordPart c = (c.isDigit || isWordStart c) := by
  simp only [isWordPart, isWordStart, Char.isAlphanum]
  cases c.isAlpha <;> cases c.isDigit <;> simp

theorem isWordPart_of_isWordStart {c : Char} (h : isWordStart c = true) : isWordPart c = true := by
  rw [isWordPart_eq_or, h, Bool.or_true]

theorem not_isDigit_of_isWordStart {c : Char} (h : isWordStart c = true) : c.isDigit = false := by
  have hletter := toNat_of_isWordStart h
  cases hdigit : c.isDigit with
  | false => rfl
  | true =>
      have := toNat_of_isDigit hdigit
      omega

theorem not_isBlank_of_toNat {c : Char} (hlow : 32 < c.toNat) (hhigh : c.toNat < 133) :
    Text.isBlank c = false := by
  simp only [Text.isBlank, Text.blankRanges, List.any_cons, List.any_nil, Bool.or_eq_false_iff,
    Bool.and_eq_false_iff, decide_eq_false_iff_not, and_true]
  omega

theorem visible_of_isWordStart {c : Char} (h : isWordStart c = true) :
    33 ≤ c.toNat ∧ c.toNat ≤ 125 ∧ c ≠ '#' := by
  have hrange := toNat_of_isWordStart h
  refine ⟨by omega, by omega, ?_⟩
  rintro rfl
  cases h

theorem not_isWordPart_of_isBlank {c : Char} (h : Text.isBlank c = true) :
    isWordPart c = false := by
  cases hpart : isWordPart c with
  | false => rfl
  | true =>
      rw [isWordPart_eq_or, Bool.or_eq_true] at hpart
      have hrange : 48 ≤ c.toNat ∧ c.toNat ≤ 122 := by
        obtain hdigit | hletter := hpart
        · have := toNat_of_isDigit hdigit
          omega
        · have := toNat_of_isWordStart hletter
          omega
      rw [not_isBlank_of_toNat (by omega) (by omega)] at h
      cases h

/-! Gaps. -/

theorem IsGap.comment_cons {rest cs : List Char} {c : Char} (hc : c ≠ '\n')
    (h : IsGap rest ('#' :: cs)) : IsGap rest ('#' :: c :: cs) := by
  cases h with
  | blank hblank _ => cases hblank
  | @comment body cs hbody hends hcs =>
      have hlonger : '\n' ∉ c :: body := by
        rw [List.mem_cons, not_or]
        exact ⟨hc.symm, hbody⟩
      exact .comment hlonger hends hcs

/-- What is skipped is a gap, also if the skipping starts inside a comment. -/
theorem isGap_takeGap (cs : List Char) :
    IsGap (dropGap false cs) (takeGap false cs) ∧
      IsGap (dropGap true cs) ('#' :: takeGap true cs) := by
  induction cs with
  | nil => exact ⟨.nil, @IsGap.comment _ [] [] (by simp) (by simp [dropGap]) .nil⟩
  | cons c cs ih =>
      constructor
      · rw [takeGap, dropGap]
        cases hblank : Text.isBlank c with
        | true => simpa [hblank] using IsGap.blank hblank ih.1
        | false =>
            by_cases hc : c = '#'
            · subst hc
              simpa [hblank] using ih.2
            · simpa [hblank, hc] using IsGap.nil
      · rw [takeGap, dropGap, if_pos rfl, if_pos rfl]
        by_cases hc : c = '\n'
        · subst hc
          exact @IsGap.comment _ [] _ (by simp) (by simp) (.blank (by decide) ih.1)
        · have hne : (c != '\n') = true := by simpa using hc
          rw [hne]
          exact ih.2.comment_cons hc

/-- The text starts neither with a blank nor with a comment. -/
def StartsNoGap (cs : List Char) : Prop :=
  ∀ c, cs.head? = some c → Text.isBlank c = false ∧ c ≠ '#'

theorem takeGap_of_startsNoGap {cs : List Char} (h : StartsNoGap cs) : takeGap false cs = [] := by
  cases cs with
  | nil => rfl
  | cons c cs =>
      obtain ⟨hblank, hc⟩ := h c rfl
      simp [takeGap, hblank, hc]

theorem takeGap_comment {body cs : List Char} (hbody : '\n' ∉ body)
    (hcs : ∀ c, cs.head? = some c → c = '\n') :
    takeGap true (body ++ cs) = body ++ takeGap false cs := by
  induction body with
  | nil =>
      cases cs with
      | nil => rfl
      | cons c cs =>
          cases hcs c rfl
          rfl
  | cons c body ih =>
      rw [List.mem_cons, not_or] at hbody
      have hne : (c != '\n') = true := by simpa using Ne.symm hbody.1
      rw [List.cons_append, takeGap, if_pos rfl, hne, ih hbody.2, List.cons_append]

/-- A gap is skipped whole, with what follows it and is skipped too. -/
theorem IsGap.takeGap_join {rest gap : List Char} (h : IsGap rest gap) :
    takeGap false (gap ++ rest) = gap ++ takeGap false rest := by
  induction h with
  | nil => rfl
  | @blank c cs hblank _ ih =>
      rw [List.cons_append, takeGap, if_neg Bool.false_ne_true, if_pos hblank, ih,
        List.cons_append]
  | @comment body cs hbody hends _ ih =>
      have hmark : takeGap false ('#' :: (body ++ (cs ++ rest))) =
          '#' :: takeGap true (body ++ (cs ++ rest)) := rfl
      rw [List.append_assoc, List.cons_append, hmark, takeGap_comment hbody hends, ih,
        List.append_assoc, List.cons_append]

theorem IsGap.dropGap_join {rest gap : List Char} (h : IsGap rest gap) :
    dropGap false (gap ++ rest) = dropGap false rest := by
  have hwhole := takeGap_append_dropGap false (gap ++ rest)
  have hrest := takeGap_append_dropGap false rest
  rw [h.takeGap_join, List.append_assoc] at hwhole
  exact List.append_cancel_left ((List.append_cancel_left hwhole).trans hrest.symm)

/-- A gap is skipped whole, and no more than the gap. -/
theorem IsGap.takeGap_append {rest gap : List Char} (h : IsGap rest gap)
    (hrest : StartsNoGap rest) : takeGap false (gap ++ rest) = gap := by
  rw [h.takeGap_join, takeGap_of_startsNoGap hrest, List.append_nil]

theorem dropGap_of_startsNoGap {cs : List Char} (h : StartsNoGap cs) : dropGap false cs = cs := by
  have htext := takeGap_append_dropGap false cs
  rwa [takeGap_of_startsNoGap h, List.nil_append] at htext

theorem IsGap.dropGap_append {rest gap : List Char} (h : IsGap rest gap)
    (hrest : StartsNoGap rest) : dropGap false (gap ++ rest) = rest := by
  rw [h.dropGap_join, dropGap_of_startsNoGap hrest]

/-! Quoted texts. -/

theorem unescape?_eq_some_iff {e c : Char} : unescape? e = some c ↔ (e, c) ∈ escapes := by
  constructor
  · intro h
    unfold unescape? at h
    split at h
    · cases h; decide
    · cases h; decide
    · cases h; decide
    · cases h; decide
    · cases h
  · intro h
    simp only [escapes, List.mem_cons, Prod.mk.injEq, List.not_mem_nil, or_false] at h
    obtain ⟨rfl, rfl⟩ | ⟨rfl, rfl⟩ | ⟨rfl, rfl⟩ | ⟨rfl, rfl⟩ := h <;> rfl

theorem scanQuoted_raw {c : Char} {cs : List Char} (hquote : c ≠ '"') (hslash : c ≠ '\\')
    (hline : c ≠ '\n') :
    scanQuoted (c :: cs) = (do
      let s ← scanQuoted cs
      .ok ⟨c :: s.value, c :: s.lexeme, s.rest⟩) := by
  rw [scanQuoted]
  all_goals intros; simp_all

theorem scanQuoted_of_quotes {cs value : List Char} (h : Quotes cs value) (rest : List Char) :
    scanQuoted (cs ++ '"' :: rest) = .ok ⟨value, cs ++ ['"'], rest⟩ := by
  induction h with
  | nil => rfl
  | @raw c cs value hquote hslash hline _ ih =>
      rw [List.cons_append, scanQuoted_raw hquote hslash hline, ih]
      rfl
  | @escape e c cs value he _ ih =>
      rw [List.cons_append, List.cons_append, scanQuoted, unescape?_eq_some_iff.mpr he, ih]
      rfl

theorem quotes_of_scanQuoted {cs : List Char} {s : Scan (List Char)}
    (h : scanQuoted cs = .ok s) : ∃ inner, Quotes inner s.value ∧ s.lexeme = inner ++ ['"'] := by
  fun_induction scanQuoted cs generalizing s with
  | case1 | case3 | case4 | case5 => cases h
  | case2 cs =>
      cases h
      exact ⟨[], .nil, rfl⟩
  | case6 e cs c hescape ih =>
      obtain ⟨t, ht, hs⟩ := bind_eq_ok.mp h
      cases hs
      obtain ⟨inner, hinner, hlexeme⟩ := ih ht
      exact ⟨'\\' :: e :: inner, .escape (unescape?_eq_some_iff.mp hescape) hinner,
        congrArg ('\\' :: e :: ·) hlexeme⟩
  | case7 c cs hquote hline hend hslash ih =>
      obtain ⟨t, ht, hs⟩ := bind_eq_ok.mp h
      cases hs
      obtain ⟨inner, hinner, hlexeme⟩ := ih ht
      have hplain : c ≠ '\\' := by
        intro heq
        cases cs with
        | nil => exact hend heq rfl
        | cons e cs => exact hslash e cs heq rfl
      exact ⟨c :: inner, .raw hquote hplain hline hinner, congrArg (c :: ·) hlexeme⟩

/-! Runs of characters of one class. -/

section Runs

variable {p : Char → Bool} {cs rest : List Char}

theorem takeWhile_append_stop (hcs : ∀ c ∈ cs, p c = true)
    (hrest : ∀ c, rest.head? = some c → p c = false) : (cs ++ rest).takeWhile p = cs := by
  rw [List.takeWhile_append_of_pos hcs]
  cases rest with
  | nil => simp
  | cons c rest => simp [hrest c rfl]

theorem dropWhile_append_stop (hcs : ∀ c ∈ cs, p c = true)
    (hrest : ∀ c, rest.head? = some c → p c = false) : (cs ++ rest).dropWhile p = rest := by
  rw [List.dropWhile_append_of_pos hcs]
  cases rest with
  | nil => rfl
  | cons c rest => simp [hrest c rfl]

theorem head?_dropWhile_stop {c : Char} (h : (cs.dropWhile p).head? = some c) : p c = false := by
  have hnot := List.head?_dropWhile_not p cs
  rw [h] at hnot
  exact hnot

end Runs

/-! Numbers and words. -/

theorem digitsValue_eq (ds : List Char) : digitsValue ds = Nat.ofDigitChars 10 ds 0 := rfl

theorem scanNumber_of_digits {n : Nat} {ds rest : List Char} (hds : ∀ d ∈ ds, d.isDigit = true)
    (hvalue : Nat.ofDigitChars 10 ds 0 = n) (hsize : n ≤ 2 ^ 63 - 1)
    (hrest : ∀ c, rest.head? = some c → isWordPart c = false) :
    scanNumber (ds ++ rest) = .ok ⟨n, ds, rest⟩ := by
  have hdigit : ∀ c, rest.head? = some c → c.isDigit = false := by
    intro c hc
    have hpart := hrest c hc
    rw [isWordPart_eq_or, Bool.or_eq_false_iff] at hpart
    exact hpart.1
  have hletter : rest.head?.filter isWordStart = none := by
    cases hhead : rest.head? with
    | none => rfl
    | some c =>
        have hpart := hrest c hhead
        rw [isWordPart_eq_or, Bool.or_eq_false_iff] at hpart
        simp [Option.filter, hpart.2]
  simp only [scanNumber, takeWhile_append_stop hds hdigit, dropWhile_append_stop hds hdigit,
    hletter, digitsValue_eq, hvalue]
  exact if_pos hsize

theorem scanNumber_eq_ok {cs : List Char} {s : Scan Int} (h : scanNumber cs = .ok s) :
    (∀ d ∈ s.lexeme, d.isDigit = true) ∧
      (∃ n : Nat, s.value = n ∧ Nat.ofDigitChars 10 s.lexeme 0 = n ∧ n ≤ 2 ^ 63 - 1) ∧
      ∀ c, s.rest.head? = some c → isWordPart c = false := by
  simp only [scanNumber] at h
  split at h
  · cases h
  · rename_i hletter
    split at h
    · rename_i hsize
      cases h
      refine ⟨fun d hd => List.mem_takeWhile_imp hd, ⟨_, rfl, digitsValue_eq _, hsize⟩, ?_⟩
      intro c hc
      rw [isWordPart_eq_or, head?_dropWhile_stop hc, Bool.false_or]
      rw [hc, Option.filter_eq_none_iff] at hletter
      simpa using hletter c rfl
    · cases h

theorem Keyword.ofSpelling?_spelling (k : Keyword) : ofSpelling? k.spelling = some k := by
  cases k <;> decide

theorem Keyword.ofSpelling?_eq_some {word : String} {k : Keyword}
    (h : ofSpelling? word = some k) : word = k.spelling := by
  have := List.find?_some h
  simpa using Eq.symm (of_decide_eq_true this)

theorem Keyword.ofSpelling?_eq_none {word : String} :
    ofSpelling? word = none ↔ ∀ k : Keyword, k.spelling ≠ word := by
  constructor
  · intro h k heq
    rw [← heq, ofSpelling?_spelling] at h
    cases h
  · intro h
    cases hword : ofSpelling? word with
    | none => rfl
    | some k => exact absurd (ofSpelling?_eq_some hword).symm (h k)

theorem exists_of_isWord {cs : List Char} (h : isWord cs = true) :
    ∃ c ds, cs = c :: ds ∧ isWordStart c = true := by
  cases cs with
  | nil => cases h
  | cons c ds => exact ⟨c, ds, rfl, (Bool.and_eq_true_iff.mp h).1⟩

theorem isWordPart_of_isWord {cs : List Char} (h : isWord cs = true) :
    ∀ c ∈ cs, isWordPart c = true := by
  cases cs with
  | nil => cases h
  | cons c cs =>
      obtain ⟨hc, hcs⟩ := Bool.and_eq_true_iff.mp h
      exact List.forall_mem_cons.mpr ⟨isWordPart_of_isWordStart hc, List.all_eq_true.mp hcs⟩

theorem scanWord_of_isWord {word rest : List Char} (hword : isWord word = true)
    (hrest : ∀ c, rest.head? = some c → isWordPart c = false) :
    scanWord (word ++ rest) = ⟨.ofWord (String.ofList word), word, rest⟩ := by
  have hparts := isWordPart_of_isWord hword
  simp only [scanWord, takeWhile_append_stop hparts hrest, dropWhile_append_stop hparts hrest]

/-! Tokens. -/

namespace Token

theorem ofWord_keyword (k : Keyword) : ofWord k.spelling = .keyword k := by
  rw [ofWord, Keyword.ofSpelling?_spelling]

theorem ofWord_identifier {word : String} (h : ∀ k : Keyword, k.spelling ≠ word) :
    ofWord word = .identifier word := by
  rw [ofWord, Keyword.ofSpelling?_eq_none.mpr h]

/-- Only three characters need a look at the next one. -/
theorem scan_eq_scanSimple {c : Char} (cs : List Char) (hcolon : c ≠ ':') (hminus : c ≠ '-')
    (hquote : c ≠ '"') : scan c cs = scanSimple c cs := by
  unfold scan
  split
  · exact absurd rfl hcolon
  · exact absurd rfl hcolon
  · exact absurd rfl hminus
  · exact absurd rfl hquote
  · rfl

theorem scan_word {x : String} {rest : List Char} (hx : isWord x.toList = true)
    (hrest : ∀ d, rest.head? = some d → isWordPart d = false) :
    ∃ c cs, x.toList = c :: cs ∧ scan c (cs ++ rest) = .ok ⟨.ofWord x, x.toList, rest⟩ := by
  obtain ⟨c, cs, hlist, hc⟩ := exists_of_isWord hx
  refine ⟨c, cs, hlist, ?_⟩
  rw [scan_eq_scanSimple, scanSimple, not_isDigit_of_isWordStart hc, if_neg Bool.false_ne_true,
    if_pos hc, ← List.cons_append, ← hlist, scanWord_of_isWord hx hrest, String.ofList_toList]
  · rintro rfl
    cases hc
  · rintro rfl
    cases hc
  · rintro rfl
    cases hc

theorem scan_number {n : Nat} {c : Char} {cs rest : List Char}
    (hds : ∀ d ∈ c :: cs, d.isDigit = true) (hvalue : Nat.ofDigitChars 10 (c :: cs) 0 = n)
    (hsize : n ≤ 2 ^ 63 - 1) (hrest : ∀ d, rest.head? = some d → isWordPart d = false) :
    scan c (cs ++ rest) = .ok ⟨.number n, c :: cs, rest⟩ := by
  have hc : c.isDigit = true := hds c List.mem_cons_self
  rw [scan_eq_scanSimple, scanSimple, if_pos hc, ← List.cons_append,
    scanNumber_of_digits hds hvalue hsize hrest]
  · rfl
  · rintro rfl
    cases hc
  · rintro rfl
    cases hc
  · rintro rfl
    cases hc

theorem scan_text {cs value : List Char} (h : Quotes cs value) (rest : List Char) :
    scan '"' (cs ++ ['"'] ++ rest) =
      .ok ⟨.text (String.ofList value), '"' :: cs ++ ['"'], rest⟩ := by
  rw [List.append_assoc, scan, List.singleton_append, scanQuoted_of_quotes h]
  rfl

theorem scan_colon {rest : List Char} (hdefine : ¬ ['='] <+: rest)
    (hown : ¬ [':', '='] <+: rest) : scan ':' rest = .ok ⟨.punct .colon, [':'], rest⟩ := by
  unfold scan
  split
  · exact absurd (by simp) hown
  · exact absurd (by simp) hdefine
  · rename_i heq
    cases heq
  · rename_i heq
    cases heq
  · rfl

theorem scan_punct {p : Punct} {rest : List Char} (hrest : (Token.punct p).EndsBefore rest) :
    ∃ c cs, p.spelling.toList = c :: cs ∧
      scan c (cs ++ rest) = .ok ⟨.punct p, p.spelling.toList, rest⟩ := by
  cases p with
  | colon => exact ⟨_, _, rfl, scan_colon hrest.1 hrest.2⟩
  | define | defineOwn | arrow => exact ⟨_, _, rfl, rfl⟩
  | assign | comma | semicolon | openParen | closeParen | openBrace | closeBrace =>
      refine ⟨_, _, rfl, ?_⟩
      rw [scan_eq_scanSimple _ (by decide) (by decide) (by decide)]
      rfl

end Token

theorem Keyword.isWord_spelling (k : Keyword) : isWord k.spelling.toList = true := by
  cases k <;> decide +kernel

namespace Token

/-- A written form is read as what it is a form of, if what follows does not go on with it. -/
theorem Spelled.scan_append {t : Token} {lexeme rest : List Char} (h : t.Spelled lexeme)
    (hrest : t.EndsBefore rest) :
    ∃ c cs, lexeme = c :: cs ∧ scan c (cs ++ rest) = .ok ⟨t, lexeme, rest⟩ := by
  cases h with
  | keyword k =>
      rw [← ofWord_keyword]
      exact scan_word k.isWord_spelling hrest
  | punct p => exact scan_punct hrest
  | identifier hx hkeyword =>
      rw [← ofWord_identifier hkeyword]
      exact scan_word hx hrest
  | number hne hds hvalue hsize =>
      obtain ⟨c, cs, rfl⟩ := List.exists_cons_of_ne_nil hne
      exact ⟨c, cs, rfl, scan_number hds hvalue hsize hrest⟩
  | text hquotes => exact ⟨_, _, rfl, scan_text hquotes rest⟩

/-- A written form starts with a character that no gap starts with. -/
theorem Spelled.startsNoGap {t : Token} {lexeme : List Char} (h : t.Spelled lexeme)
    (rest : List Char) : StartsNoGap (lexeme ++ rest) := by
  have hvisible : ∃ c cs, lexeme = c :: cs ∧ 33 ≤ c.toNat ∧ c.toNat ≤ 125 ∧ c ≠ '#' := by
    cases h with
    | punct p => cases p <;> exact ⟨_, _, rfl, by decide, by decide, by decide⟩
    | keyword k =>
        obtain ⟨c, cs, hlist, hc⟩ := exists_of_isWord k.isWord_spelling
        exact ⟨c, cs, hlist, visible_of_isWordStart hc⟩
    | identifier hx _ =>
        obtain ⟨c, cs, hlist, hc⟩ := exists_of_isWord hx
        exact ⟨c, cs, hlist, visible_of_isWordStart hc⟩
    | number hne hds _ _ =>
        obtain ⟨c, cs, rfl⟩ := List.exists_cons_of_ne_nil hne
        have hc := hds c List.mem_cons_self
        have hrange := toNat_of_isDigit hc
        refine ⟨c, cs, rfl, by omega, by omega, ?_⟩
        rintro rfl
        cases hc
    | text _ => exact ⟨_, _, rfl, by decide, by decide, by decide⟩
  obtain ⟨c, cs, rfl, hlow, hhigh, hmark⟩ := hvisible
  intro d hd
  cases hd
  exact ⟨not_isBlank_of_toNat (by omega) (by omega), hmark⟩

theorem Punct.spelling_of_ofChar? {c : Char} {p : Punct} (h : Punct.ofChar? c = some p) :
    p.spelling.toList = [c] := by
  unfold Punct.ofChar? at h
  split at h <;> cases h <;> rfl

theorem spelled_ofWord {x : String} (hx : isWord x.toList = true) :
    (ofWord x).Spelled x.toList := by
  cases hword : Keyword.ofSpelling? x with
  | none =>
      have hkeyword := Keyword.ofSpelling?_eq_none.mp hword
      rw [ofWord_identifier hkeyword]
      exact .identifier hx hkeyword
  | some k =>
      rw [Keyword.ofSpelling?_eq_some hword, ofWord_keyword]
      exact .keyword k

theorem endsBefore_ofWord {x : String} {rest : List Char} :
    (ofWord x).EndsBefore rest ↔ ∀ c, rest.head? = some c → isWordPart c = false := by
  rw [ofWord]
  split <;> rfl

theorem endsBefore_punct {p : Punct} {rest : List Char} (hp : p ≠ .colon) :
    (Token.punct p).EndsBefore rest := by
  cases p with
  | colon => exact absurd rfl hp
  | define | defineOwn | assign | arrow | comma | semicolon | openParen | closeParen | openBrace
  | closeBrace => trivial

theorem spelled_of_scanSimple {c : Char} {cs : List Char} {s : Scan Token}
    (hcolon : c = ':' → ¬ ['='] <+: cs ∧ ¬ [':', '='] <+: cs) (h : scanSimple c cs = .ok s)
    (hne : s.lexeme ≠ []) : s.value.Spelled s.lexeme ∧ s.value.EndsBefore s.rest := by
  unfold scanSimple at h
  split at h
  · rename_i hdigit
    obtain ⟨t, ht, hs⟩ := bind_eq_ok.mp h
    cases hs
    obtain ⟨hds, ⟨n, hn, hvalue, hsize⟩, hrest⟩ := scanNumber_eq_ok ht
    refine ⟨?_, hrest⟩
    simp only [Scan.map, hn]
    exact .number hne hds hvalue hsize
  · split at h
    · rename_i hstart
      cases h
      have hword : isWord ((c :: cs).takeWhile isWordPart) = true := by
        rw [List.takeWhile_cons_of_pos (isWordPart_of_isWordStart hstart), isWord, hstart,
          Bool.true_and]
        exact List.all_takeWhile
      have hform := spelled_ofWord (x := String.ofList ((c :: cs).takeWhile isWordPart))
        (by rwa [String.toList_ofList])
      rw [String.toList_ofList] at hform
      exact ⟨hform, endsBefore_ofWord.mpr fun d hd => head?_dropWhile_stop hd⟩
    · split at h
      · rename_i p hp
        cases h
        have hform := Spelled.punct p
        rw [Punct.spelling_of_ofChar? hp] at hform
        refine ⟨hform, ?_⟩
        by_cases hmark : p = .colon
        · subst hmark
          have hc := List.head_eq_of_cons_eq (Punct.spelling_of_ofChar? hp)
          exact hcolon hc.symm
        · exact endsBefore_punct hmark
      · cases h

/-- What is read is a written form of the token, and what follows does not go on with it. -/
theorem spelled_of_scan {c : Char} {cs : List Char} {s : Scan Token} (h : scan c cs = .ok s) :
    s.value.Spelled s.lexeme ∧ s.value.EndsBefore s.rest := by
  have hne := lexeme_ne_nil_of_scan h
  unfold scan at h
  split at h
  · cases h
    exact ⟨.punct .defineOwn, trivial⟩
  · cases h
    exact ⟨.punct .define, trivial⟩
  · cases h
    exact ⟨.punct .arrow, trivial⟩
  · obtain ⟨t, ht, hs⟩ := bind_eq_ok.mp h
    cases hs
    obtain ⟨inner, hinner, hlexeme⟩ := quotes_of_scanQuoted ht
    refine ⟨?_, trivial⟩
    simp only [hlexeme]
    exact .text hinner
  · rename_i hown hdefine _
    refine spelled_of_scanSimple ?_ h hne
    intro hc
    constructor
    · intro hmark
      obtain ⟨rest, hrest⟩ := hmark
      exact hdefine rest hc hrest.symm
    · intro hmark
      obtain ⟨rest, hrest⟩ := hmark
      exact hown rest hc hrest.symm

end Token

end Mis
