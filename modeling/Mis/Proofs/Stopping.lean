import Mis.Proofs.Lexing

/-!
Where lexing stops. A text on which it fails is cut in two: the front part spells
tokens, also with nothing behind it, and the other part starts no token. The
failure is shown at the cut. An illegal character stands at the place that is
shown for it, with one exception: a letter right behind a number is shown at the
first digit of the number.
-/
namespace Mis

/-! Places. -/

namespace Position

theorem line_after (p : Position) (cs : List Char) :
    (p.after cs).line = p.line + cs.count '\n' := by
  induction cs generalizing p with
  | nil => rfl
  | cons c cs ih =>
      rw [after_cons, ih, next]
      by_cases hc : c = '\n'
      · subst hc
        rw [if_pos rfl, List.count_cons_self, Nat.add_assoc, Nat.add_comm 1]
      · rw [if_neg hc, List.count_cons_of_ne hc]

theorem after_of_notMem (p : Position) {cs : List Char} (h : '\n' ∉ cs) :
    p.after cs = ⟨p.line, p.column + cs.length⟩ := by
  induction cs generalizing p with
  | nil => rfl
  | cons c cs ih =>
      rw [List.mem_cons, not_or] at h
      rw [after_cons, ih _ h.2, next, if_neg (Ne.symm h.1), List.length_cons]
      simp only [Nat.add_assoc, Nat.add_comm 1]

/-- No text leads back to the place where it starts. -/
theorem eq_nil_of_after_eq {p : Position} {cs : List Char} (h : p.after cs = p) : cs = [] := by
  have hline := congrArg line h
  rw [line_after, Nat.add_eq_left, List.count_eq_zero] at hline
  rw [after_of_notMem p hline] at h
  have hcolumn := congrArg column h
  exact List.length_eq_zero_iff.mp (Nat.add_eq_left.mp hcolumn)

/-- Two fronts of one text that end at the same place are the same. -/
theorem eq_of_behind_eq {front front' cs cs' : List Char} (htext : front ++ cs = front' ++ cs')
    (h : behind front = behind front') : front = front' := by
  obtain ⟨more, rfl, _⟩ | ⟨more, rfl, _⟩ := List.append_eq_append_iff.mp htext
  · rw [← after_behind, eq_comm] at h
    rw [eq_nil_of_after_eq h, List.append_nil]
  · rw [← after_behind] at h
    rw [eq_nil_of_after_eq h, List.append_nil]

end Position

/-- The character of a source at a place. -/
def CharAt (source : String) (p : Position) (c : Char) : Prop :=
  ∃ before more, source.toList = before ++ c :: more ∧ .behind before = p

theorem CharAt.unique {source : String} {p : Position} {c d : Char} (hc : CharAt source p c)
    (hd : CharAt source p d) : c = d := by
  obtain ⟨before, more, htext, rfl⟩ := hc
  obtain ⟨before', more', htext', hplace⟩ := hd
  rw [htext] at htext'
  obtain rfl := Position.eq_of_behind_eq htext' hplace.symm
  exact List.head_eq_of_cons_eq (List.append_cancel_left htext')

/-! What is cut off at its end stays a gap, and a token still ends there. -/

theorem IsGap.of_append {rest more gap : List Char} (h : IsGap (rest ++ more) gap) :
    IsGap rest gap := by
  induction h with
  | nil => exact .nil
  | blank hblank _ ih => exact .blank hblank ih
  | @comment body cs hbody hends _ ih =>
      refine .comment hbody (fun c hc => hends c ?_) ih
      rw [← List.append_assoc, List.head?_append, hc, Option.some_or]

theorem Token.EndsBefore.of_append {t : Token} {rest more : List Char}
    (h : t.EndsBefore (rest ++ more)) : t.EndsBefore rest := by
  cases t with
  | keyword _ | identifier _ | number _ =>
      intro c hc
      exact h c (by rw [List.head?_append, hc, Option.some_or])
  | punct p =>
      by_cases hp : p = .colon
      · subst hp
        exact ⟨fun hmark => h.1 (hmark.trans (List.prefix_append rest more)),
          fun hmark => h.2 (hmark.trans (List.prefix_append rest more))⟩
      · exact Token.endsBefore_punct hp
  | text _ => trivial

theorem startsNoGap_dropGap (inComment : Bool) (cs : List Char) :
    StartsNoGap (dropGap inComment cs) := by
  induction cs generalizing inComment with
  | nil => exact fun c hc => nomatch hc
  | cons c cs ih =>
      rw [dropGap]
      split
      · exact ih _
      · split
        · exact ih _
        · split
          · exact ih _
          · rename_i hblank hmark
            rintro d ⟨⟩
            exact ⟨Bool.eq_false_iff.mpr hblank, hmark⟩

/-! Failing. -/

/-- Reading the text `cs` behind `before` stops behind `front`, where `c :: rest` starts no
token. -/
structure Stops (before cs front rest : List Char) (c : Char) (e : Located LexCause) : Prop where
  text : cs = front ++ c :: rest
  spelled : ∃ tokens, Spells before front tokens
  startsNoGap : StartsNoGap (c :: rest)
  scan : Token.scan c rest = .error e.value
  position : e.position = .behind (before ++ front)

theorem Stops.gap {before gap rest : List Char} {c : Char} {cause : LexCause}
    (hgap : IsGap (c :: rest) gap) (hstart : StartsNoGap (c :: rest))
    (hscan : Token.scan c rest = .error cause) :
    Stops before (gap ++ c :: rest) gap rest c ⟨cause, .behind (before ++ gap)⟩ where
  text := rfl
  spelled := ⟨[], .done (IsGap.of_append hgap)⟩
  startsNoGap := hstart
  scan := hscan
  position := rfl

/-- Reading that stops behind a token stops behind what the token and the gap before it add. -/
theorem Stops.token {before gap lexeme cs front rest : List Char} {t : Token} {c : Char}
    {e : Located LexCause} (hgap : IsGap (lexeme ++ cs) gap) (hne : lexeme ≠ [])
    (hform : t.Spelled lexeme) (hends : t.EndsBefore cs)
    (h : Stops (before ++ gap ++ lexeme) cs front rest c e) :
    Stops before (gap ++ lexeme ++ cs) (gap ++ lexeme ++ front) rest c e where
  text := by rw [h.text, List.append_assoc (gap ++ lexeme)]
  spelled := by
    obtain ⟨tokens, hspelled⟩ := h.spelled
    rw [h.text] at hends hgap
    rw [← List.append_assoc] at hgap
    exact ⟨_, .token hgap.of_append hne hform hends.of_append hspelled⟩
  startsNoGap := h.startsNoGap
  scan := h.scan
  position := by rw [h.position, ← List.append_assoc, ← List.append_assoc]

theorem exists_stops {p : Position} {before cs : List Char} {e : Located LexCause}
    (hp : p = .behind before) (h : lexFrom p cs = .error e) :
    ∃ front rest c, Stops before cs front rest c e := by
  -- along the recursion `before` grows by what was read, so `p` stays the place behind it
  fun_induction lexFrom p cs generalizing before e with
  | case1 => cases h
  | case2 p cs c rest hgap here cause =>
      rename_i hscan
      cases h
      have hcut := (isGap_takeGap cs).1
      have hstart := startsNoGap_dropGap false cs
      have hwhole := takeGap_append_dropGap false cs
      rw [hgap] at hcut hstart hwhole
      have hstops : Stops before _ _ _ _ _ := .gap hcut hstart hscan
      rw [hwhole, ← Position.after_behind, ← hp] at hstops
      exact ⟨_, _, _, hstops⟩
  | case3 p cs c rest hgap here s hscan =>
      rename_i ih
      have hmore : lexFrom (here.after s.lexeme) s.rest = .error e := by
        obtain hmore | ⟨more, _, hok⟩ := bind_eq_error.mp h
        · exact hmore
        · cases hok
      have hhere : here.after s.lexeme = .behind (before ++ takeGap false cs ++ s.lexeme) := by
        rw [← Position.after_behind, ← Position.after_behind, ← hp]
      obtain ⟨front, rest', d, hstops⟩ := ih hhere hmore
      obtain ⟨hwhole, hcut⟩ := cut_of_scan hgap hscan
      obtain ⟨hform, hends⟩ := Token.spelled_of_scan hscan
      have hstops' := hstops.token hcut (Token.lexeme_ne_nil_of_scan hscan) hform hends
      rw [hwhole] at hstops'
      exact ⟨_, rest', d, hstops'⟩

theorem lex_eq_error_iff {source : String} {e : LexError} :
    lex source = .error e ↔
      ∃ f, lexFrom .start source.toList = .error f ∧ e = .inSource source f.value f.position := by
  rw [lex]
  cases lexFrom .start source.toList with
  | ok tokens => simp
  | error f => simp [eq_comm]

theorem exists_stops_of_lex {source : String} {e : LexError} (h : lex source = .error e) :
    ∃ front rest c, Stops [] source.toList front rest c ⟨e.cause, e.position⟩ := by
  obtain ⟨f, hf, rfl⟩ := lex_eq_error_iff.mp h
  exact exists_stops rfl hf

section Cut

variable {cs front rest : List Char} {c : Char} {e : Located LexCause}

theorem Stops.exists_lex_front (h : Stops [] cs front rest c e) :
    ∃ tokens, lex (String.ofList front) = .ok tokens := by
  obtain ⟨tokens, hspelled⟩ := h.spelled
  refine ⟨tokens, lex_eq_ok_iff.mpr ?_⟩
  rw [String.toList_ofList]
  exact lexFrom_of_spells hspelled

/-- What starts no token is refused at its first character. -/
theorem Stops.lex_rest (h : Stops [] cs front rest c e) :
    lex (String.ofList (c :: rest)) =
      .error (.inSource (String.ofList (c :: rest)) e.value ⟨1, 1⟩) := by
  refine lex_eq_error_iff.mpr ⟨⟨e.value, ⟨1, 1⟩⟩, ?_, rfl⟩
  rw [String.toList_ofList, lexFrom_error (dropGap_of_startsNoGap h.startsNoGap) h.scan,
    takeGap_of_startsNoGap h.startsNoGap]
  rfl

end Cut

/-- Lexing fails at the first text that starts no token: what stands before it is lexed, it starts
with a character that no gap starts with, and by itself it fails in the same way at its start. -/
theorem lex_error_at_token {source : String} {e : LexError} (h : lex source = .error e) :
    ∃ offset c, source.toList[offset]? = some c ∧
      e.position = .behind (source.toList.take offset) ∧
      (∃ tokens, lex (String.ofList (source.toList.take offset)) = .ok tokens) ∧
      Text.isBlank c = false ∧ c ≠ '#' ∧
      ∃ e', lex (String.ofList (source.toList.drop offset)) = .error e' ∧ e'.cause = e.cause ∧
        e'.position = ⟨1, 1⟩ := by
  obtain ⟨front, rest, c, hstops⟩ := exists_stops_of_lex h
  have htext := hstops.text
  have hfront : source.toList.take front.length = front := by rw [htext, List.take_left]
  have hrest : source.toList.drop front.length = c :: rest := by rw [htext, List.drop_left]
  obtain ⟨hblank, hmark⟩ := hstops.startsNoGap c rfl
  have hfails := hstops.lex_rest
  rw [← hrest] at hfails
  refine ⟨front.length, c, ?_, ?_, ?_, hblank, hmark, _, hfails, rfl, rfl⟩
  · rw [← List.head?_drop, hrest, List.head?_cons]
  · rw [hfront]
    exact hstops.position
  · rw [hfront]
    exact hstops.exists_lex_front

/-- The string behind the comment is not closed. In front of it stands a colon, which looks two
characters ahead. -/
theorem unclosed_error_at_token :
    lex "x: # a\"\n:\"b\\" =
      .error ⟨.unterminatedText, ⟨2, 2⟩, ":\"b\\\n ^"⟩ ∧
    ∃ offset, (∃ tokens, lex (String.ofList ("x: # a\"\n:\"b\\".toList.take offset)) = .ok tokens) ∧
      ∃ e', lex (String.ofList ("x: # a\"\n:\"b\\".toList.drop offset)) = .error e' ∧
        e'.cause = .unterminatedText ∧ e'.position = ⟨1, 1⟩ := by
  have hlex : lex "x: # a\"\n:\"b\\" =
      .error ⟨.unterminatedText, ⟨2, 2⟩, ":\"b\\\n ^"⟩ := by decide +kernel
  obtain ⟨offset, _, _, _, hfront, _, _, hrest⟩ := lex_error_at_token hlex
  exact ⟨hlex, offset, hfront, hrest⟩

/-! Illegal characters. -/

theorem scanQuoted_ne_illegalCharacter {cs : List Char} {c : Char} :
    scanQuoted cs ≠ .error (.illegalCharacter c) := by
  intro h
  fun_induction scanQuoted cs with
  | case1 | case2 | case3 | case4 | case5 => cases h
  | case6 _ _ _ _ ih | case7 _ _ _ _ _ _ ih =>
      obtain hmore | ⟨_, _, hok⟩ := bind_eq_error.mp h
      · exact ih hmore
      · cases hok

/-- A character that is refused behind digits is a letter. -/
theorem scanNumber_eq_illegalCharacter {cs : List Char} {c : Char}
    (h : scanNumber cs = .error (.illegalCharacter c)) :
    isWordStart c = true ∧ ∃ more, cs = cs.takeWhile Char.isDigit ++ c :: more := by
  simp only [scanNumber] at h
  split at h
  · rename_i d hletter
    cases h
    obtain ⟨hhead, hstart⟩ := Option.filter_eq_some_iff.mp hletter
    obtain ⟨more, hmore⟩ := List.head?_eq_some_iff.mp hhead
    refine ⟨hstart, more, ?_⟩
    rw [← hmore, List.takeWhile_append_dropWhile]
  · split at h
    · cases h
    · cases h

/-- The characters that are refused one by one: those that start nothing, and letters behind a
number. -/
theorem Token.scan_eq_illegalCharacter {c d : Char} {cs : List Char}
    (h : Token.scan c cs = .error (.illegalCharacter d)) :
    ∃ digits more, c :: cs = digits ++ d :: more ∧ (∀ x ∈ digits, x.isDigit = true) ∧
      (digits ≠ [] → isWordStart d = true) := by
  unfold Token.scan at h
  split at h
  · cases h
  · cases h
  · cases h
  · obtain hquoted | ⟨_, _, hok⟩ := bind_eq_error.mp h
    · exact absurd hquoted scanQuoted_ne_illegalCharacter
    · cases hok
  · unfold scanSimple at h
    split at h
    · obtain hnumber | ⟨_, _, hok⟩ := bind_eq_error.mp h
      · obtain ⟨hstart, more, hmore⟩ := scanNumber_eq_illegalCharacter hnumber
        exact ⟨_, more, hmore, fun x hx => List.mem_takeWhile_imp hx, fun _ => hstart⟩
      · cases hok
    · split at h
      · cases h
      · split at h
        · cases h
        · cases h
          exact ⟨[], cs, rfl, by simp, fun hne => absurd rfl hne⟩

theorem notMem_of_isDigit {digits : List Char} (h : ∀ d ∈ digits, d.isDigit = true) :
    '\n' ∉ digits :=
  fun hmem => nomatch h _ hmem

/-- An illegal character stands on the line that is shown for it, behind the digits that start at
the column that is shown. It stands at that column exactly if there are no such digits, and
otherwise it is a letter. -/
theorem illegalCharacter_behind_digits {source : String} {e : LexError} {c : Char}
    (h : lex source = .error e) (hc : e.cause = .illegalCharacter c) :
    ∃ before digits more, source.toList = before ++ digits ++ c :: more ∧
      e.position = .behind before ∧ (∀ d ∈ digits, d.isDigit = true) ∧
      (digits ≠ [] → isWordStart c = true) ∧
      CharAt source ⟨e.position.line, e.position.column + digits.length⟩ c ∧
      (CharAt source e.position c ↔ digits = []) := by
  obtain ⟨before, rest, first, hstops⟩ := exists_stops_of_lex h
  obtain ⟨digits, more, htext, hdigits, hletter⟩ :=
    Token.scan_eq_illegalCharacter (hc ▸ hstops.scan)
  have hsource : source.toList = before ++ digits ++ c :: more := by
    rw [hstops.text, htext, List.append_assoc]
  have hplace : e.position = .behind before := hstops.position
  have hchar : CharAt source ⟨e.position.line, e.position.column + digits.length⟩ c := by
    refine ⟨before ++ digits, more, hsource, ?_⟩
    rw [← Position.after_behind, Position.after_of_notMem _ (notMem_of_isDigit hdigits), hplace]
  refine ⟨before, digits, more, hsource, hplace, hdigits, hletter, hchar, ?_, ?_⟩
  · intro hshown
    cases digits with
    | nil => rfl
    | cons d digits =>
        have hfirst : CharAt source e.position d :=
          ⟨before, digits ++ c :: more, by rw [hsource, List.append_assoc]; rfl, hplace.symm⟩
        have hdigit := hdigits d List.mem_cons_self
        rw [← hshown.unique hfirst, not_isDigit_of_isWordStart (hletter (List.cons_ne_nil _ _))]
          at hdigit
        cases hdigit
  · rintro rfl
    exact hchar

/-- A hyphen by itself is shown where it stands. -/
theorem loneHyphen_behind_digits :
    lex "x\n  - y" = .error ⟨.illegalCharacter '-', ⟨2, 3⟩, "  - y\n  ^"⟩ ∧
      ∃ digits : List Char, (∀ d ∈ digits, d.isDigit = true) ∧
        CharAt "x\n  - y" ⟨2, 3 + digits.length⟩ '-' ∧
        (CharAt "x\n  - y" ⟨2, 3⟩ '-' ↔ digits = []) := by
  have hlex : lex "x\n  - y" = .error ⟨.illegalCharacter '-', ⟨2, 3⟩, "  - y\n  ^"⟩ := by
    decide +kernel
  obtain ⟨_, digits, _, _, _, hdigits, _, hchar, hshown⟩ :=
    illegalCharacter_behind_digits hlex rfl
  exact ⟨hlex, digits, hdigits, hchar, hshown⟩

/-- The letter behind the number is shown at the number. -/
theorem letterBehindNumber_not_shown :
    lex "x := 1foo" = .error ⟨.illegalCharacter 'f', ⟨1, 6⟩, "x := 1foo\n     ^"⟩ ∧
      ¬ CharAt "x := 1foo" ⟨1, 6⟩ 'f' := by
  refine ⟨by decide +kernel, fun hshown => ?_⟩
  have hfirst : CharAt "x := 1foo" ⟨1, 6⟩ '1' :=
    ⟨['x', ' ', ':', '=', ' '], ['f', 'o', 'o'], rfl, rfl⟩
  cases hshown.unique hfirst

end Mis
