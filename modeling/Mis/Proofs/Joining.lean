import Mis.Proofs.Stopping

/-!
Texts joined by a line feed. No gap, no written form of a token and no look ahead
reaches over the end of a line, so the tokens of a text stay what they are when
other lines follow, and what the other lines give is what they give by themselves,
further down by as many lines as stand above them. A failure keeps its cause,
its column and the line that is shown with it.
-/
namespace Mis

/-! Places further down. -/

/-- The place `k` lines below, in the same column. -/
def Position.down (k : Nat) (p : Position) : Position :=
  ⟨p.line + k, p.column⟩

def Located.down {α : Type} (k : Nat) (x : Located α) : Located α :=
  ⟨x.value, x.position.down k⟩

theorem Position.after_down (k : Nat) (p : Position) (cs : List Char) :
    (p.down k).after cs = (p.after cs).down k := by
  induction cs generalizing p with
  | nil => rfl
  | cons c cs ih =>
      rw [after_cons, after_cons, ← ih]
      congr 1
      by_cases hc : c = '\n'
      · simp [next, down, hc, Nat.add_right_comm]
      · simp [next, down, hc]

/-- Behind a text and a line feed a new line starts, below all lines of the text. -/
theorem Position.behind_newline (cs : List Char) :
    behind (cs ++ ['\n']) = start.down (cs.count '\n' + 1) := by
  simp [behind, down, start]

theorem lexFrom_down (k : Nat) (p : Position) (cs : List Char) :
    lexFrom (p.down k) cs =
      ((lexFrom p cs).map (List.map (Located.down k))).mapError (Located.down k) := by
  fun_induction lexFrom p cs with
  | case1 p cs hgap => exact lexFrom_nil hgap
  | case2 p cs c rest hgap here cause =>
      rename_i hscan
      rw [lexFrom_error hgap hscan, Position.after_down]
      rfl
  | case3 p cs c rest hgap here s hscan =>
      rename_i ih
      rw [lexFrom_cons hgap hscan, Position.after_down, Position.after_down, ih]
      cases lexFrom (here.after s.lexeme) s.rest with
      | ok more => rfl
      | error e => rfl

/-! Ends of lines. -/

theorem lexFrom_gap {p : Position} {gap rest : List Char} (h : IsGap rest gap) :
    lexFrom p (gap ++ rest) = lexFrom (p.after gap) rest := by
  have htake : p.after (takeGap false (gap ++ rest)) =
      (p.after gap).after (takeGap false rest) := by
    rw [h.takeGap_join, Position.after_append]
  cases hdrop : dropGap false rest with
  | nil => rw [lexFrom_nil (h.dropGap_join.trans hdrop), lexFrom_nil hdrop]
  | cons c cs => rw [lexFrom_scan (h.dropGap_join.trans hdrop), lexFrom_scan hdrop, htake]

theorem IsGap.append_newline {rest gap : List Char} (h : IsGap rest gap) (cs : List Char) :
    IsGap (rest ++ '\n' :: cs) gap := by
  induction h with
  | nil => exact .nil
  | blank hblank _ ih => exact .blank hblank ih
  | @comment body gap hbody hends _ ih =>
      refine .comment hbody (fun c hc => ?_) ih
      rw [← List.append_assoc, List.head?_append] at hc
      cases hhead : (gap ++ rest).head? with
      | none =>
          rw [hhead] at hc
          cases hc
          rfl
      | some d =>
          rw [hhead] at hc
          cases hc
          exact hends _ hhead

theorem prefix_of_prefix_append_cons {word rest cs : List Char} {c : Char} (hc : c ∉ word)
    (h : word <+: rest ++ c :: cs) : word <+: rest := by
  obtain hword | ⟨more, rfl⟩ := List.prefix_or_prefix_of_prefix h (List.prefix_append rest _)
  · exact hword
  · rw [List.prefix_append_right_inj] at h
    cases more with
    | nil => simp
    | cons d more =>
        obtain ⟨rfl, _⟩ := List.cons_prefix_cons.mp h
        exact absurd (by simp) hc

theorem Token.EndsBefore.append_newline {t : Token} {rest : List Char} (h : t.EndsBefore rest)
    (cs : List Char) : t.EndsBefore (rest ++ '\n' :: cs) := by
  cases t with
  | keyword _ | identifier _ | number _ =>
      intro c hc
      cases rest with
      | nil =>
          cases hc
          decide
      | cons d rest => exact h c hc
  | punct p =>
      by_cases hp : p = .colon
      · subst hp
        exact ⟨fun hmark => h.1 (prefix_of_prefix_append_cons (by decide) hmark),
          fun hmark => h.2 (prefix_of_prefix_append_cons (by decide) hmark)⟩
      · exact Token.endsBefore_punct hp
  | text _ => trivial

/-- A text that spells tokens spells them also with more lines behind it. -/
theorem Spells.lexFrom_append_newline {before front : List Char} {tokens : List (Located Token)}
    (h : Spells before front tokens) (cs : List Char) :
    lexFrom (.behind before) (front ++ '\n' :: cs) =
      (lexFrom (.behind (before ++ front ++ ['\n'])) cs).map (tokens ++ ·) := by
  induction h with
  | @done before gap hgap =>
      have hgap' : IsGap ('\n' :: cs) gap := hgap.append_newline cs
      have hline : IsGap cs ['\n'] := .blank (by decide) .nil
      rw [lexFrom_gap hgap', ← List.singleton_append, lexFrom_gap hline, Position.after_behind,
        Position.after_behind]
      cases lexFrom (.behind (before ++ gap ++ ['\n'])) cs with
      | ok more => rfl
      | error e => rfl
  | @token before gap lexeme rest t tokens hgap _ hform hends _ ih =>
      have hgap' := hgap.append_newline cs
      rw [List.append_assoc] at hgap'
      rw [List.append_assoc, lexFrom_token hgap' hform (hends.append_newline cs), ih]
      simp only [List.append_assoc]
      cases lexFrom (.behind (before ++ (gap ++ (lexeme ++ (rest ++ ['\n']))))) cs with
      | ok more => rfl
      | error e => rfl

theorem lexFrom_joined {front : List Char} {tokens : List (Located Token)}
    (h : lexFrom .start front = .ok tokens) (back : List Char) :
    lexFrom .start (front ++ '\n' :: back) =
      (((lexFrom .start back).map (List.map (Located.down (front.count '\n' + 1)))).mapError
        (Located.down (front.count '\n' + 1))).map (tokens ++ ·) := by
  have hspells : Spells [] front tokens := spells_of_lexFrom rfl h
  rw [← lexFrom_down, ← Position.behind_newline]
  exact hspells.lexFrom_append_newline back

/-! Lines that are shown. -/

theorem lines_cons {c : Char} {cs line : List Char} {below : List (List Char)} (hc : c ≠ '\n')
    (hpair : c = '\r' → cs.head? ≠ some '\n') (h : lines cs = line :: below) :
    lines (c :: cs) = (c :: line) :: below := by
  rw [lines, h]
  · exact hc
  · rintro ds hcr rfl
    exact hpair hcr rfl

/-- The lines of a text that ends in a line feed, whatever follows. -/
theorem exists_lines_append_newline (cs : List Char) :
    ∃ above : List (List Char), above.length = cs.count '\n' + 1 ∧
      ∀ ds, lines (cs ++ '\n' :: ds) = above ++ lines ds := by
  induction cs with
  | nil => exact ⟨[[]], rfl, fun ds => rfl⟩
  | cons c cs ih =>
      obtain ⟨above, hlength, hlines⟩ := ih
      by_cases hc : c = '\n'
      · subst hc
        exact ⟨[] :: above, by simp [hlength], fun ds => congrArg ([] :: ·) (hlines ds)⟩
      · have hcount : (c :: cs).count '\n' = cs.count '\n' := List.count_cons_of_ne hc
        by_cases hpair : c = '\r' ∧ (cs ++ ['\n']).head? = some '\n'
        · -- the carriage return goes with the line feed behind it
          obtain ⟨rfl, hhead⟩ := hpair
          refine ⟨above, by rw [hcount, hlength], fun ds => ?_⟩
          rw [← hlines ds]
          cases cs with
          | nil => rfl
          | cons d cs =>
              cases hhead
              rfl
        · obtain ⟨line, below, rfl⟩ := List.exists_cons_of_length_pos (by omega : 0 < above.length)
          refine ⟨(c :: line) :: below, by rw [hcount, ← hlength]; rfl, fun ds => ?_⟩
          refine lines_cons hc (fun hcr hhead => hpair ⟨hcr, ?_⟩) (hlines ds)
          cases cs with
          | nil => rfl
          | cons d cs => exact hhead

theorem toList_joined (front back : String) :
    (front ++ "\n" ++ back).toList = front.toList ++ '\n' :: back.toList := by
  simp

/-- The line that is shown for a place is the same with other lines above it. -/
theorem excerpt_down {front back : String} {p : Position} (hp : 0 < p.line) :
    excerpt (front ++ "\n" ++ back) (p.down (front.toList.count '\n' + 1)) = excerpt back p := by
  obtain ⟨above, hlength, hlines⟩ := exists_lines_append_newline front.toList
  have hindex : (p.down (front.toList.count '\n' + 1)).line - 1 =
      above.length + (p.line - 1) := by
    simp only [Position.down, hlength]
    omega
  have hline : (lines (front ++ "\n" ++ back).toList)[above.length + (p.line - 1)]? =
      (lines back.toList)[p.line - 1]? := by
    rw [toList_joined, hlines, List.getElem?_append_right (Nat.le_add_right _ _),
      Nat.add_sub_cancel_left]
  rw [excerpt, excerpt, hindex, hline]
  rfl

/-- Lexing a text, a line feed and another text gives what lexing the two gives, the second one
further down by the number of lines of the first. -/
theorem lex_joined {front back : String} {tokens : List (Located Token)}
    (h : lex front = .ok tokens) :
    (∀ more, lex back = .ok more →
      lex (front ++ "\n" ++ back) =
        .ok (tokens ++ more.map (Located.down (front.toList.count '\n' + 1)))) ∧
    ∀ e, lex back = .error e →
      lex (front ++ "\n" ++ back) =
        .error ⟨e.cause, e.position.down (front.toList.count '\n' + 1), e.excerpt⟩ := by
  have hjoined := lexFrom_joined (lex_eq_ok_iff.mp h) back.toList
  rw [← toList_joined] at hjoined
  constructor
  · intro more hmore
    rw [lex_eq_ok_iff] at hmore ⊢
    rw [hjoined, hmore]
    rfl
  · intro e he
    obtain ⟨_, _, _, hstops⟩ := exists_stops_of_lex he
    have hline : 0 < e.position.line := by
      have hplace : e.position = .behind _ := hstops.position
      rw [hplace]
      exact Nat.lt_add_right _ Nat.one_pos
    obtain ⟨f, hf, rfl⟩ := lex_eq_error_iff.mp he
    refine lex_eq_error_iff.mpr ⟨f.down (front.toList.count '\n' + 1), ?_, ?_⟩
    · rw [hjoined, hf]
      rfl
    · exact congrArg (Diagnostic.mk f.value _) (excerpt_down hline).symm

/-- The first text ends in a comment and a carriage return. Of the two that may follow, one would
go on with its last token on the same line, and the other fails on its own second line. -/
theorem comment_joined :
    lex "x :# y\r" = .ok [⟨.identifier "x", ⟨1, 1⟩⟩, ⟨.punct .colon, ⟨1, 3⟩⟩] ∧
    lex "= 1" = .ok [⟨.punct .assign, ⟨1, 1⟩⟩, ⟨.number 1, ⟨1, 3⟩⟩] ∧
    lex ("x :# y\r" ++ "\n" ++ "= 1") =
      .ok [⟨.identifier "x", ⟨1, 1⟩⟩, ⟨.punct .colon, ⟨1, 3⟩⟩, ⟨.punct .assign, ⟨2, 1⟩⟩,
        ⟨.number 1, ⟨2, 3⟩⟩] ∧
    lex "y\n \"z" = .error ⟨.unterminatedText, ⟨2, 2⟩, " \"z\n ^"⟩ ∧
    lex ("x :# y\r" ++ "\n" ++ "y\n \"z") =
      .error ⟨.unterminatedText, ⟨3, 2⟩, " \"z\n ^"⟩ := by
  have hfront : lex "x :# y\r" = .ok [⟨.identifier "x", ⟨1, 1⟩⟩, ⟨.punct .colon, ⟨1, 3⟩⟩] := by
    decide +kernel
  have hback : lex "= 1" = .ok [⟨.punct .assign, ⟨1, 1⟩⟩, ⟨.number 1, ⟨1, 3⟩⟩] := by decide +kernel
  have hfails : lex "y\n \"z" = .error ⟨.unterminatedText, ⟨2, 2⟩, " \"z\n ^"⟩ := by decide +kernel
  exact ⟨hfront, hback, (lex_joined hfront).1 _ hback, hfails, (lex_joined hfront).2 _ hfails⟩

end Mis
