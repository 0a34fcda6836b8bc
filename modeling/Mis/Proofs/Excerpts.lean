import Mis.Compile
import Mis.Proofs.Failing
import Mis.Proofs.Faults
import Mis.Proofs.Joining

/-!
What is shown with a failure of the lexer or the parser. Places count line feeds,
while the line that is shown has lost a carriage return at its end; no token
starts with one, so the caret under the line still stands below the first character
of what the failure is about. Where the source ends too early it stands right behind
the last line.
-/
namespace Mis

/-- The line of a place, empty where the source has none. -/
def lineAt (source : String) (p : Position) : List Char :=
  ((lines source.toList)[p.line - 1]?).getD []

/-- A place on a line of the source or right behind it, shown by the line over a caret. -/
structure Shows (source : String) (p : Position) (shown : String) : Prop where
  line_pos : 1 ≤ p.line
  line_le : p.line ≤ max 1 (lines source.toList).length
  column_pos : 1 ≤ p.column
  column_le : p.column ≤ (lineAt source p).length + 1
  text : shown = String.ofList (lineAt source p) ++ "\n" ++
    String.ofList (List.replicate (p.column - 1) ' ') ++ "^"

/-- A written form of the token stands at its place in the source, and `c` is its first
character. -/
def Located.StartsWith (x : Located Token) (source : String) (c : Char) : Prop :=
  ∃ before form rest, source.toList = before ++ c :: form ++ rest ∧
    x.position = .behind before ∧ x.value.Spelled (c :: form) ∧ x.value.EndsBefore rest

namespace CompileError

/-- The place and the excerpt of a failure that has them. -/
def shown? : CompileError → Option (Position × String)
  | .lex e => some (e.position, e.excerpt)
  | .parse e => some (e.position, e.excerpt)
  | .semantic _ | .generate _ => none

/-- The failure is that the source ends too early. -/
def IsEnd (e : CompileError) : Prop :=
  ∃ d : ParseError, e = .parse d ∧ d.cause = .unexpectedEnd

/-- `c` is the first character of what the failure was found at: of the text that starts no token,
or of the token that the parser gave up in front of and names. -/
inductive FoundAt (source : String) : CompileError → Char → Prop
  | lex {e : LexError} {front rest : List Char} {c : Char} :
      Stops [] source.toList front rest c ⟨e.cause, e.position⟩ → FoundAt source (.lex e) c
  | parse {e : ParseError} {tokens : List (Located Token)} {k : Nat} {x : Located Token}
      {c : Char} :
      Mis.lex source = .ok tokens → StopsAt tokens e.cause k → tokens[k]? = some x →
      e.position = x.position → e.cause.token? = some x.value → x.StartsWith source c →
      FoundAt source (.parse e) c

end CompileError

/-! Characters of a line. -/

/-- The line that `before` ends on comes right below as many lines as `before` has line feeds. -/
theorem exists_lines_above (before : List Char) :
    ∃ above : List (List Char), above.length = before.count '\n' ∧
      ∀ cs, lines (before ++ cs) = above ++ lines (before.rtakeWhile (· ≠ '\n') ++ cs) := by
  induction before using List.reverseRecOn with
  | nil => exact ⟨[], rfl, fun cs => rfl⟩
  | append_singleton before c ih =>
      by_cases hc : c = '\n'
      · subst hc
        obtain ⟨above, hlength, hlines⟩ := exists_lines_append_newline before
        refine ⟨above, by rw [hlength, List.count_append]; rfl, fun cs => ?_⟩
        rw [List.append_assoc, List.singleton_append, hlines,
          List.rtakeWhile_concat_neg _ _ _ (by decide), List.nil_append]
      · obtain ⟨above, hlength, hlines⟩ := ih
        refine ⟨above, ?_, fun cs => ?_⟩
        · rw [hlength, List.count_append, List.count_singleton, if_neg (by simpa using hc),
            Nat.add_zero]
        · rw [List.append_assoc, hlines, List.rtakeWhile_concat_pos _ _ _ (by simpa using hc),
            List.append_assoc]

/-- A line goes on over a character that is no part of a line end. -/
theorem exists_lines_front {front : List Char} {c : Char} (hfront : '\n' ∉ front) (hc : c ≠ '\n')
    (hcr : c ≠ '\r') (more : List Char) :
    ∃ line below, lines (front ++ c :: more) = (front ++ c :: line) :: below := by
  induction front with
  | nil =>
      cases hmore : lines more with
      | nil =>
          refine ⟨[], [], ?_⟩
          rw [List.nil_append, lines, hmore]
          · rfl
          · exact hc
          · intro _ h
            exact absurd h hcr
      | cons line below =>
          exact ⟨line, below, lines_cons hc (fun h => absurd h hcr) hmore⟩
  | cons d front ih =>
      rw [List.mem_cons, not_or] at hfront
      obtain ⟨line, below, hlines⟩ := ih hfront.2
      refine ⟨line, below, lines_cons (Ne.symm hfront.1) (fun _ hhead => ?_) hlines⟩
      cases front with
      | nil => exact hc (Option.some.inj hhead)
      | cons d' front =>
          apply hfront.2
          rw [← Option.some.inj hhead]
          exact List.mem_cons_self

theorem notMem_rtakeWhile (before : List Char) : '\n' ∉ before.rtakeWhile (· ≠ '\n') := by
  intro hmem
  simpa using List.mem_rtakeWhile_imp hmem

section Shown

variable {source : String} {p : Position} {c : Char}

/-- A character that is not blank is the one that its line has at its column. -/
theorem CharAt.getElem?_lineAt (h : CharAt source p c) (hblank : Text.isBlank c = false) :
    p.line ≤ (lines source.toList).length ∧ (lineAt source p)[p.column - 1]? = some c := by
  obtain ⟨before, more, htext, rfl⟩ := h
  have hc : c ≠ '\n' := by
    rintro rfl
    cases hblank
  have hcr : c ≠ '\r' := by
    rintro rfl
    cases hblank
  obtain ⟨above, hlength, hlines⟩ := exists_lines_above before
  obtain ⟨line, below, hfront⟩ := exists_lines_front (notMem_rtakeWhile before) hc hcr more
  have hall := hlines (c :: more)
  rw [← htext, hfront] at hall
  have hline : (Position.behind before).line - 1 = above.length := by
    rw [hlength]
    exact Nat.add_sub_cancel_left 1 _
  have hcolumn : (Position.behind before).column - 1 = (before.rtakeWhile (· ≠ '\n')).length :=
    Nat.add_sub_cancel_left 1 _
  constructor
  · rw [hall, List.length_append, List.length_cons, hlength]
    simp only [Position.behind]
    omega
  · rw [lineAt, hall, hline, hcolumn]
    simp

theorem CharAt.pos (h : CharAt source p c) : 1 ≤ p.line ∧ 1 ≤ p.column := by
  obtain ⟨before, more, _, rfl⟩ := h
  exact ⟨Nat.le_add_right 1 _, Nat.le_add_right 1 _⟩

theorem CharAt.column_le (h : CharAt source p c) (hblank : Text.isBlank c = false) :
    p.column ≤ (lineAt source p).length := by
  obtain ⟨hlt, _⟩ := List.getElem?_eq_some_iff.mp (h.getElem?_lineAt hblank).2
  have := h.pos.2
  omega

theorem CharAt.shows (h : CharAt source p c) (hblank : Text.isBlank c = false) :
    Shows source p (excerpt source p) where
  line_pos := h.pos.1
  line_le := (h.getElem?_lineAt hblank).1.trans (Nat.le_max_right 1 _)
  column_pos := h.pos.2
  column_le := (h.column_le hblank).trans (Nat.le_succ _)
  text := rfl

theorem shows_endPosition (source : String) :
    Shows source (endPosition source) (excerpt source (endPosition source)) where
  line_pos := Nat.le_max_right _ 1
  line_le := Nat.le_of_eq (Nat.max_comm _ 1)
  column_pos := Nat.le_add_left 1 _
  column_le := by
    have hindex : (endPosition source).line - 1 = (lines source.toList).length - 1 := by
      simp only [endPosition]
      omega
    rw [lineAt, hindex, ← List.getLast?_eq_getElem?]
    exact Nat.le_refl _
  text := rfl

end Shown

/-! What a failure is about. -/

/-- Every token stands where its place says. -/
theorem Spells.exists_startsWith {before cs : List Char} {tokens : List (Located Token)}
    (h : Spells before cs tokens) {source : String} (hsource : source.toList = before ++ cs)
    {x : Located Token} (hx : x ∈ tokens) : ∃ c, x.StartsWith source c := by
  induction h with
  | done _ => cases hx
  | @token before gap lexeme rest t tokens _ hne hform hends _ ih =>
      obtain rfl | hx := List.mem_cons.mp hx
      · obtain ⟨c, form, rfl⟩ := List.exists_cons_of_ne_nil hne
        refine ⟨c, before ++ gap, form, rest, ?_, rfl, hform, hends⟩
        rw [hsource]
        simp only [List.append_assoc]
      · apply ih _ hx
        rw [hsource]
        simp only [List.append_assoc]

theorem exists_startsWith_of_lex {source : String} {tokens : List (Located Token)}
    (h : lex source = .ok tokens) {x : Located Token} (hx : x ∈ tokens) :
    ∃ c, x.StartsWith source c := by
  have hspells : Spells [] source.toList tokens := spells_of_lexFrom rfl (lex_eq_ok_iff.mp h)
  exact hspells.exists_startsWith rfl hx

theorem Located.StartsWith.charAt {x : Located Token} {source : String} {c : Char}
    (h : x.StartsWith source c) : CharAt source x.position c ∧ Text.isBlank c = false := by
  obtain ⟨before, form, rest, htext, hplace, hform, _⟩ := h
  constructor
  · refine ⟨before, form ++ rest, ?_, hplace.symm⟩
    rw [htext, List.append_assoc, List.cons_append]
  · exact (hform.startsNoGap rest c rfl).1

/-- The parser gives up in front of the token that its failure names, or at the end. -/
theorem exists_stopsAt_token? {tokens : List (Located Token)} {source : String} {e : ParseError}
    (h : parse tokens source = .error e) :
    ∃ k, StopsAt tokens e.cause k ∧ e = .inSource source e.cause (placeOf tokens source k) ∧
      e.cause.token? = (tokens[k]?).map (·.value) := by
  obtain ⟨f, hf, hcause⟩ := parse_eq_error h
  obtain ⟨⟨ts, hts⟩, hnamed⟩ := (Read.locates_wholeModule _).failed (Read.toEnd_eq_error.mpr hf)
  obtain ⟨hstops, hnext⟩ := StopsAt.of_append hf hts.symm
  rw [hcause] at hstops hnamed
  refine ⟨ts.length, hstops, ?_, by rw [hnamed, hnext]⟩
  rw [hstops.parse_eq source] at h
  exact (Except.error.inj h).symm

theorem read_eq_error {source : String} {e : CompileError} (h : read source = .error e) :
    (∃ d, e = .lex d ∧ lex source = .error d) ∨
      ∃ d tokens, e = .parse d ∧ lex source = .ok tokens ∧ parse tokens source = .error d := by
  obtain h | ⟨tokens, hlex, h⟩ := bind_eq_error.mp h
  · obtain ⟨d, hd, rfl⟩ := mapError_eq_error.mp h
    exact .inl ⟨d, rfl, hd⟩
  · obtain ⟨d, hd, rfl⟩ := mapError_eq_error.mp h
    exact .inr ⟨d, tokens, rfl, mapError_eq_ok.mp hlex, hd⟩

/-- A module that was read fails with nothing to show. -/
theorem shown?_of_compile {m : Module NodeId} {e : CompileError} (h : m.compile = .error e) :
    e.shown? = none := by
  obtain h | ⟨typed, _, h⟩ := bind_eq_error.mp h
  · obtain ⟨d, _, rfl⟩ := mapError_eq_error.mp h
    rfl
  · obtain ⟨d, _, rfl⟩ := mapError_eq_error.mp h
    cases d <;> rfl

theorem read_eq_error_of_shown? {source : String} {e : CompileError} (h : compile source = .error e)
    (hshown : e.shown? ≠ none) : read source = .error e := by
  obtain h | ⟨m, _, h⟩ := bind_eq_error.mp h
  · exact h
  obtain h | ⟨program, _, h⟩ := bind_eq_error.mp h
  · exact absurd (shown?_of_compile h) hshown
  · cases h

theorem Stops.charAt {source : String} {front rest : List Char} {c : Char} {e : Located LexCause}
    (h : Stops [] source.toList front rest c e) :
    CharAt source e.position c ∧ Text.isBlank c = false :=
  ⟨⟨front, rest, h.text, h.position.symm⟩, (h.startsNoGap c rfl).1⟩

theorem ParseCause.eq_unexpectedEnd {cause : ParseCause} (h : cause.token? = none) :
    cause = .unexpectedEnd := by
  cases cause with
  | expected _ _ | expectedIdentifier _ | unexpected _ | expectedDeclaration _
  | expectedCall _ => cases h
  | unexpectedEnd => rfl

/-- A source that cannot be read fails at its end, or at a character that is not blank. -/
theorem exists_shown? {source : String} {e : CompileError} (h : read source = .error e) :
    ∃ p, e.shown? = some (p, excerpt source p) ∧
      (e.IsEnd ∧ p = endPosition source ∨
        ∃ c, e.FoundAt source c ∧ CharAt source p c ∧ Text.isBlank c = false) := by
  obtain ⟨d, rfl, hlex⟩ | ⟨d, tokens, rfl, hlex, hparse⟩ := read_eq_error h
  · obtain ⟨front, rest, c, hstops⟩ := exists_stops_of_lex hlex
    obtain ⟨f, _, rfl⟩ := lex_eq_error_iff.mp hlex
    exact ⟨f.position, rfl, .inr ⟨c, .lex hstops, hstops.charAt⟩⟩
  · obtain ⟨k, hstops, hd, hnamed⟩ := exists_stopsAt_token? hparse
    refine ⟨placeOf tokens source k, ?_, ?_⟩
    · rw [hd]
      rfl
    · cases hx : tokens[k]? with
      | none =>
          rw [hx] at hnamed
          exact .inl ⟨⟨d, rfl, ParseCause.eq_unexpectedEnd hnamed⟩, by rw [placeOf, hx]; rfl⟩
      | some x =>
          rw [hx] at hnamed
          have hplace : placeOf tokens source k = x.position := by
            rw [placeOf, hx]
            rfl
          obtain ⟨c, hstarts⟩ := exists_startsWith_of_lex hlex (List.mem_of_getElem? hx)
          have hposition : d.position = x.position := by
            rw [hd, ← hplace]
            rfl
          rw [hplace]
          exact .inr ⟨c, .parse hlex hstops hx hposition hnamed hstarts, hstarts.charAt⟩

/-- The place of a failure of the lexer or the parser is on the line that is shown, or right behind
it, and the caret stands below it. Unless the source ends too early, the character there is the
first one of what the failure is about. -/
theorem compile_error_shown {source : String} {e : CompileError} {p : Position} {shown : String}
    (h : compile source = .error e) (hshown : e.shown? = some (p, shown)) :
    Shows source p shown ∧
      (¬ e.IsEnd → p.column ≤ (lineAt source p).length ∧
        ∃ c, (lineAt source p)[p.column - 1]? = some c ∧ e.FoundAt source c) := by
  have hread := read_eq_error_of_shown? h (by rw [hshown]; exact Option.some_ne_none _)
  obtain ⟨q, hq, hcases⟩ := exists_shown? hread
  rw [hshown, Option.some.injEq, Prod.mk.injEq] at hq
  obtain ⟨rfl, rfl⟩ := hq
  obtain ⟨hend, rfl⟩ | ⟨c, hfound, hchar, hblank⟩ := hcases
  · exact ⟨shows_endPosition source, fun hnot => absurd hend hnot⟩
  · exact ⟨hchar.shows hblank, fun _ =>
      ⟨hchar.column_le hblank, c, (hchar.getElem?_lineAt hblank).2, hfound⟩⟩

/-- A name in the place of a statement, on lines that end in carriage returns. -/
def bareName : String := "func f() \x7b\r\n  a\r\n\x7d"

/-- The name is what the failure is about, and the carriage return is not shown. A constant that
ends behind its colon is shown there. -/
theorem bareName_shown :
    compile bareName = .error (.parse ⟨.expectedCall (.identifier "a"), ⟨2, 3⟩, "  a\n  ^"⟩) ∧
    Shows bareName ⟨2, 3⟩ "  a\n  ^" ∧
    CompileError.FoundAt bareName
      (.parse ⟨.expectedCall (.identifier "a"), ⟨2, 3⟩, "  a\n  ^"⟩) 'a' ∧
    compile "const x:\r\n" = .error (.parse ⟨.unexpectedEnd, ⟨1, 9⟩, "const x:\n        ^"⟩) ∧
    Shows "const x:\r\n" ⟨1, 9⟩ "const x:\n        ^" := by
  have hname : compile bareName =
      .error (.parse ⟨.expectedCall (.identifier "a"), ⟨2, 3⟩, "  a\n  ^"⟩) := by decide +kernel
  have hends : compile "const x:\r\n" =
      .error (.parse ⟨.unexpectedEnd, ⟨1, 9⟩, "const x:\n        ^"⟩) := by decide +kernel
  obtain ⟨hshows, hfound⟩ := compile_error_shown hname rfl
  obtain ⟨_, c, hc, hfound⟩ := hfound (by rintro ⟨d, ⟨⟩, hd⟩; cases hd)
  have ha : (lineAt bareName ⟨2, 3⟩)[2]? = some 'a' := by rfl
  obtain rfl : 'a' = c := Option.some.inj (ha.symm.trans hc)
  exact ⟨hname, hshows, hfound, hends, (compile_error_shown hends rfl).1⟩

end Mis
