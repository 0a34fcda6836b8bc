import Mathlib.Algebra.Group.Int.Defs
import Mathlib.Data.List.DropRight
import Mathlib.Data.List.Induction
import Mis.Proofs.Lexeme
import Mis.Token.Lexer

/-!
Texts and the tokens they spell. A text is cut into gaps and written forms of
tokens, each form going as far as it can, and every token stands at the place
counted from the start of the text. Lexing succeeds exactly on the texts that can
be cut so, with the tokens of the cut. So tokens written with something between
any two of them are read back.
-/
namespace Mis

/-- The place behind a text: one more than its line feeds, one more than the characters behind
the last of them. -/
def Position.behind (before : List Char) : Position :=
  ⟨1 + before.count '\n', 1 + (before.rtakeWhile (· ≠ '\n')).length⟩

theorem Position.start_after (before : List Char) : start.after before = behind before := by
  induction before using List.reverseRecOn with
  | nil => rfl
  | append_singleton before c ih =>
      rw [after_append, ih, after_cons, after_nil, next]
      by_cases hc : c = '\n'
      · subst hc
        simp [behind, Nat.add_assoc]
      · simp [behind, hc, Nat.add_assoc]

theorem Position.after_behind (before cs : List Char) :
    (behind before).after cs = behind (before ++ cs) := by
  rw [← start_after, ← start_after, after_append]

/-- The text behind `before` is a sequence of gaps and written forms of the tokens, where no form
is gone on with. -/
inductive Spells : List Char → List Char → List (Located Token) → Prop
  | done {before gap : List Char} : IsGap [] gap → Spells before gap []
  | token {before gap lexeme rest : List Char} {t : Token} {tokens : List (Located Token)} :
      IsGap (lexeme ++ rest) gap → lexeme ≠ [] → t.Spelled lexeme → t.EndsBefore rest →
      Spells (before ++ gap ++ lexeme) rest tokens →
      Spells before (gap ++ lexeme ++ rest) (⟨t, .behind (before ++ gap)⟩ :: tokens)

section Reading

variable {p : Position} {cs : List Char}

theorem lexFrom_nil (h : dropGap false cs = []) : lexFrom p cs = .ok [] := by
  rw [lexFrom]
  split
  · rfl
  · rename_i hcons
    rw [h] at hcons
    cases hcons

/-- The token behind the gap is read, or the reading fails where it starts. -/
theorem lexFrom_scan {c : Char} {rest : List Char} (h : dropGap false cs = c :: rest) :
    lexFrom p cs = (do
      let s ← (Token.scan c rest).mapError fun cause => ⟨cause, p.after (takeGap false cs)⟩
      let more ← lexFrom ((p.after (takeGap false cs)).after s.lexeme) s.rest
      .ok (⟨s.value, p.after (takeGap false cs)⟩ :: more)) := by
  rw [lexFrom]
  split
  · rename_i hnil
    rw [h] at hnil
    cases hnil
  · rename_i hcons
    rw [h] at hcons
    cases hcons
    split
    · rename_i hscan
      rw [hscan]
      rfl
    · rename_i hscan
      rw [hscan]
      rfl

theorem lexFrom_cons {c : Char} {rest : List Char} {s : Scan Token}
    (h : dropGap false cs = c :: rest) (hs : Token.scan c rest = .ok s) :
    lexFrom p cs = (do
      let more ← lexFrom ((p.after (takeGap false cs)).after s.lexeme) s.rest
      .ok (⟨s.value, p.after (takeGap false cs)⟩ :: more)) := by
  rw [lexFrom_scan h, hs]
  rfl

theorem lexFrom_error {c : Char} {rest : List Char} {cause : LexCause}
    (h : dropGap false cs = c :: rest) (hs : Token.scan c rest = .error cause) :
    lexFrom p cs = .error ⟨cause, p.after (takeGap false cs)⟩ := by
  rw [lexFrom_scan h, hs]
  rfl

/-- A gap and a written form in front of what does not go on with it. -/
theorem lexFrom_token {before gap lexeme rest : List Char} {t : Token}
    (hgap : IsGap (lexeme ++ rest) gap) (hform : t.Spelled lexeme) (hends : t.EndsBefore rest) :
    lexFrom (.behind before) (gap ++ lexeme ++ rest) = (do
      let more ← lexFrom (.behind (before ++ gap ++ lexeme)) rest
      .ok (⟨t, .behind (before ++ gap)⟩ :: more)) := by
  obtain ⟨c, cs, hlexeme, hscan⟩ := hform.scan_append hends
  have hstop := hform.startsNoGap rest
  have hdrop := hgap.dropGap_append hstop
  have htake := hgap.takeGap_append hstop
  rw [← List.append_assoc] at hdrop htake
  have hfirst : dropGap false (gap ++ lexeme ++ rest) = c :: (cs ++ rest) := by
    rw [hdrop, hlexeme, List.cons_append]
  rw [lexFrom_cons hfirst hscan, htake, Position.after_behind, Position.after_behind]

/-- A token that is read cuts the text in three: the gap, its written form, and what follows. -/
theorem cut_of_scan {c : Char} {rest : List Char} {s : Scan Token}
    (h : dropGap false cs = c :: rest) (hs : Token.scan c rest = .ok s) :
    takeGap false cs ++ s.lexeme ++ s.rest = cs ∧
      IsGap (s.lexeme ++ s.rest) (takeGap false cs) := by
  have hgap := (isGap_takeGap cs).1
  have hwhole := takeGap_append_dropGap false cs
  rw [h, ← Token.lexeme_append_rest_of_scan hs] at hgap hwhole
  exact ⟨by rw [List.append_assoc, hwhole], hgap⟩

theorem spells_of_lexFrom {before : List Char} {tokens : List (Located Token)}
    (hp : p = .behind before) (h : lexFrom p cs = .ok tokens) : Spells before cs tokens := by
  fun_induction lexFrom p cs generalizing before tokens with
  | case1 p cs hgap =>
      cases h
      have hcut := (isGap_takeGap cs).1
      rw [hgap] at hcut
      have hwhole := takeGap_append_dropGap false cs
      rw [hgap, List.append_nil] at hwhole
      rw [hwhole] at hcut
      exact .done hcut
  | case2 => cases h
  | case3 p cs c rest hgap here s hscan =>
      rename_i ih
      obtain ⟨more, hmore, hs⟩ := bind_eq_ok.mp h
      cases hs
      obtain ⟨hwhole, hcut⟩ := cut_of_scan hgap hscan
      obtain ⟨hform, hends⟩ := Token.spelled_of_scan hscan
      have hhere : here = .behind (before ++ takeGap false cs) := by
        rw [← Position.after_behind, ← hp]
      have hafter : here.after s.lexeme = .behind (before ++ takeGap false cs ++ s.lexeme) := by
        rw [hhere, Position.after_behind]
      have hne := Token.lexeme_ne_nil_of_scan hscan
      have hsplit := Spells.token hcut hne hform hends (ih hafter hmore)
      rwa [hwhole, ← hhere] at hsplit

theorem lexFrom_of_spells {before : List Char} {tokens : List (Located Token)}
    (h : Spells before cs tokens) : lexFrom (.behind before) cs = .ok tokens := by
  induction h with
  | @done before gap hgap =>
      refine lexFrom_nil ?_
      have hdrop := hgap.dropGap_append (by simp [StartsNoGap])
      rwa [List.append_nil] at hdrop
  | @token before gap lexeme rest t tokens hgap _ hform hends _ ih =>
      rw [lexFrom_token hgap hform hends, ih]
      rfl

end Reading

theorem lex_eq_ok_iff {source : String} {tokens : List (Located Token)} :
    lex source = .ok tokens ↔ lexFrom .start source.toList = .ok tokens := by
  rw [lex]
  cases lexFrom .start source.toList <;> simp

/-- Lexing cuts a text into gaps and tokens, and there is no other way to cut it. -/
theorem lex_eq_ok_iff_spells {source : String} {tokens : List (Located Token)} :
    lex source = .ok tokens ↔ Spells [] source.toList tokens := by
  rw [lex_eq_ok_iff]
  constructor
  · intro h
    exact spells_of_lexFrom rfl h
  · intro h
    exact lexFrom_of_spells h

/-! Tokens written one after the other. -/

/-- Blanks, and comments with the line feed that ends them. -/
inductive IsSeparator : List Char → Prop
  | nil : IsSeparator []
  | blank {c : Char} {cs : List Char} : Text.isBlank c = true → IsSeparator cs →
      IsSeparator (c :: cs)
  | comment {body cs : List Char} : '\n' ∉ body → IsSeparator cs →
      IsSeparator ('#' :: body ++ '\n' :: cs)

/-- Written forms of the tokens, a separator behind each, which may be empty behind the last
one only. -/
inductive Spaced : List Token → List Char → Prop
  | nil : Spaced [] []
  | cons {t : Token} {tokens : List Token} {lexeme separator cs : List Char} :
      t.Spelled lexeme → IsSeparator separator → (tokens ≠ [] → separator ≠ []) →
      Spaced tokens cs → Spaced (t :: tokens) (lexeme ++ separator ++ cs)

/-- The tokens that have a written form. -/
def Token.isSpellable : Token → Bool
  | .keyword _ | .punct _ | .text _ => true
  | .identifier x => isWord x.toList && (Keyword.ofSpelling? x).isNone
  | .number n => 0 ≤ n && n ≤ 2 ^ 63 - 1

theorem exists_quotes (value : List Char) : ∃ cs, Quotes cs value := by
  induction value with
  | nil => exact ⟨[], .nil⟩
  | cons c value ih =>
      obtain ⟨cs, hcs⟩ := ih
      by_cases hquote : c = '"'
      · exact ⟨'\\' :: '"' :: cs, .escape (by subst hquote; decide) hcs⟩
      · by_cases hslash : c = '\\'
        · exact ⟨'\\' :: '\\' :: cs, .escape (by subst hslash; decide) hcs⟩
        · by_cases hline : c = '\n'
          · exact ⟨'\\' :: 'n' :: cs, .escape (by subst hline; decide) hcs⟩
          · exact ⟨c :: cs, .raw hquote hslash hline hcs⟩

theorem Token.exists_spelled {t : Token} (h : t.isSpellable = true) :
    ∃ lexeme, t.Spelled lexeme := by
  cases t with
  | keyword k => exact ⟨_, .keyword k⟩
  | punct p => exact ⟨_, .punct p⟩
  | identifier x =>
      obtain ⟨hword, hkeyword⟩ := Bool.and_eq_true_iff.mp h
      exact ⟨_, .identifier hword (Keyword.ofSpelling?_eq_none.mp (by simpa using hkeyword))⟩
  | number n =>
      simp only [isSpellable, Bool.and_eq_true, decide_eq_true_eq] at h
      obtain ⟨k, rfl⟩ := Int.eq_ofNat_of_zero_le h.1
      have hdigits : ∀ d ∈ Nat.toDigits 10 k, d.isDigit = true := fun d hd =>
        Nat.isDigit_of_mem_toDigits (by decide) (by decide) hd
      exact ⟨_, .number Nat.toDigits_ne_nil hdigits Nat.ofDigitChars_ten_toDigits (by omega)⟩
  | text value =>
      obtain ⟨cs, hcs⟩ := exists_quotes value.toList
      have hform := Spelled.text hcs
      rw [String.ofList_toList] at hform
      exact ⟨_, hform⟩

theorem exists_spaced {tokens : List Token} (h : ∀ t ∈ tokens, t.isSpellable = true) :
    ∃ cs, Spaced tokens cs := by
  induction tokens with
  | nil => exact ⟨[], .nil⟩
  | cons t tokens ih =>
      obtain ⟨lexeme, hlexeme⟩ := Token.exists_spelled (h t List.mem_cons_self)
      obtain ⟨cs, hcs⟩ := ih fun u hu => h u (List.mem_cons_of_mem _ hu)
      exact ⟨lexeme ++ [' '] ++ cs,
        .cons hlexeme (.blank (by decide) .nil) (fun _ => List.cons_ne_nil _ _) hcs⟩

theorem IsSeparator.isGap {separator : List Char} (h : IsSeparator separator) (rest : List Char) :
    IsGap rest separator := by
  induction h with
  | nil => exact .nil
  | blank hblank _ ih => exact .blank hblank ih
  | comment hbody _ ih => exact .comment hbody (by simp) (.blank (by decide) ih)

theorem Token.endsBefore_nil (t : Token) : t.EndsBefore [] := by
  cases t with
  | keyword _ | identifier _ | number _ => simp [EndsBefore]
  | punct p => cases p <;> simp [EndsBefore]
  | text _ => trivial

theorem Token.endsBefore_cons {c : Char} {rest : List Char} (t : Token)
    (hpart : isWordPart c = false) (hequal : c ≠ '=') (hcolon : c ≠ ':') :
    t.EndsBefore (c :: rest) := by
  cases t with
  | keyword _ | identifier _ | number _ => simpa [EndsBefore] using hpart
  | punct p =>
      by_cases hp : p = .colon
      · subst hp
        simp only [EndsBefore, List.cons_prefix_cons]
        exact ⟨fun h => hequal h.1.symm, fun h => hcolon h.1.symm⟩
      · exact Token.endsBefore_punct hp
  | text _ => trivial

/-- Neither a blank nor a comment goes on with a token. -/
theorem IsSeparator.endsBefore_append {separator : List Char} (h : IsSeparator separator)
    (hne : separator ≠ []) (t : Token) (rest : List Char) :
    t.EndsBefore (separator ++ rest) := by
  cases h with
  | nil => exact absurd rfl hne
  | blank hblank _ =>
      refine t.endsBefore_cons (not_isWordPart_of_isBlank hblank) ?_ ?_
      · rintro rfl
        cases hblank
      · rintro rfl
        cases hblank
  | comment _ _ => exact t.endsBefore_cons (by decide) (by decide) (by decide)

theorem exists_spells_of_spaced {tokens : List Token} {cs : List Char} (h : Spaced tokens cs)
    {lead : List Char} (hlead : IsSeparator lead) (before : List Char) :
    ∃ located, Spells before (lead ++ cs) located ∧ located.map (·.value) = tokens := by
  induction h generalizing lead before with
  | nil =>
      rw [List.append_nil]
      exact ⟨[], .done (hlead.isGap []), rfl⟩
  | @cons t tokens lexeme separator cs hform hseparator hspace hrest ih =>
      obtain ⟨located, hlocated, hvalues⟩ := ih hseparator (before ++ lead ++ lexeme)
      have hends : t.EndsBefore (separator ++ cs) := by
        by_cases hempty : separator = []
        · -- the last token: nothing follows
          have hlast : tokens = [] := by
            by_contra hmore
            exact hspace hmore hempty
          subst hempty hlast
          cases hrest
          exact t.endsBefore_nil
        · exact hseparator.endsBefore_append hempty t cs
      obtain ⟨c, ds, hlexeme, _⟩ := hform.scan_append hends
      have hne : lexeme ≠ [] := hlexeme ▸ List.cons_ne_nil c ds
      have hspells := Spells.token (hlead.isGap _) hne hform hends hlocated
      refine ⟨⟨t, .behind (before ++ lead)⟩ :: located, ?_, congrArg (t :: ·) hvalues⟩
      simpa only [List.append_assoc] using hspells

/-- Tokens that can be written can be written with separators, and however they are, they are
read back. -/
theorem lex_spaced {tokens : List Token} (htokens : ∀ t ∈ tokens, t.isSpellable = true) :
    (∃ cs, Spaced tokens cs) ∧
      ∀ lead cs, IsSeparator lead → Spaced tokens cs →
        ∃ located, lex (String.ofList (lead ++ cs)) = .ok located ∧
          located.map (·.value) = tokens := by
  refine ⟨exists_spaced htokens, ?_⟩
  intro lead cs hlead hcs
  obtain ⟨located, hspells, hvalues⟩ := exists_spells_of_spaced hcs hlead []
  refine ⟨located, lex_eq_ok_iff.mpr ?_, hvalues⟩
  rw [String.toList_ofList]
  exact lexFrom_of_spells hspells

def spacedTokens : List Token :=
  [.identifier "x", .punct .define, .number 7, .text "a\n", .keyword .returnKw]

/-- Leading zeros, an escape, a comment between two tokens and none behind the last. -/
def spacedText : String := "x := 007\t\"a\\n\" # end\nreturn"

theorem spacedTokens_read_back :
    (∀ t ∈ spacedTokens, t.isSpellable = true) ∧ Spaced spacedTokens spacedText.toList ∧
      ∃ located, lex spacedText = .ok located ∧ located.map (·.value) = spacedTokens := by
  have htokens : ∀ t ∈ spacedTokens, t.isSpellable = true := by decide
  have hquotes : Quotes ['a', '\\', 'n'] ['a', '\n'] :=
    .raw (by decide) (by decide) (by decide) (.escape (by decide) .nil)
  have hblank : IsSeparator [' '] := .blank (by decide) .nil
  have hcomment : IsSeparator (' ' :: ('#' :: [' ', 'e', 'n', 'd'] ++ ['\n'])) :=
    .blank (by decide) (.comment (by decide) .nil)
  have hname : (Token.identifier "x").Spelled "x".toList :=
    .identifier (by decide) (Keyword.ofSpelling?_eq_none.mp (by decide))
  have hnumber : (Token.number 7).Spelled ['0', '0', '7'] :=
    @Token.Spelled.number 7 _ (by decide) (List.all_eq_true.mp rfl) rfl (by decide)
  have hspaced : Spaced spacedTokens spacedText.toList :=
    .cons hname hblank (by decide) (.cons (.punct .define) hblank (by decide)
      (.cons hnumber (.blank (by decide) .nil) (by decide) (.cons (.text hquotes) hcomment
        (by decide) (.cons (.keyword .returnKw) .nil (by decide) .nil))))
  refine ⟨htokens, hspaced, ?_⟩
  have hlex := (lex_spaced htokens).2 [] spacedText.toList .nil hspaced
  rwa [List.nil_append, String.ofList_toList] at hlex

end Mis
