import Mis.Proofs.Readable

/-!
Lines inside braces. What stands behind the first word of a line tells what kind
of line it is, and the line can then be read from left to right. A block ends at
the first line that starts with a closing brace, so statements can be told from
their lines at every depth.
-/
namespace Mis.C

inductive Line where
  | declaration (x : TypedName)
  | initial (x : String) (v : Literal)
  | call (f : String) (args : List Operand)
  | assign (dst src : Operand)
  | branch (c : Operand)
  | test (c : Operand)
  | loop
  | leave
  | comment (text : String)
  | close
  | otherwise

namespace Line

def text : Line → String
  | .declaration x => renderTypedName x ++ ";"
  | .initial x v => x ++ " = " ++ renderLiteral v ++ ";"
  | .call f args => f ++ "(" ++ ", ".intercalate (args.map Operand.render) ++ ");"
  | .assign dst src => dst.render ++ " = " ++ src.render ++ ";"
  | .branch c => "if (" ++ c.render ++ ") \x7b"
  | .test c => "if (!" ++ c.render ++ ") \x7b"
  | .loop => "while (1) \x7b"
  | .leave => "return;"
  | .comment text => "/* " ++ text ++ " */"
  | .close => "\x7d"
  | .otherwise => "\x7d else \x7b"

/-- Names have the form of names. -/
def printable : Line → Bool
  | .declaration x => x.printable
  | .initial x _ => isName x
  | .call f args => isName f && args.all (isName ·.target)
  | .assign dst src => isName dst.target && isName src.target
  | .branch c | .test c => isName c.target
  | _ => true

inductive Kind where
  | declaration | initial | call | assign | branch | test | loop | leave | comment | close
  | otherwise

def kind : Line → Kind
  | .declaration _ => .declaration
  | .initial _ _ => .initial
  | .call _ _ => .call
  | .assign _ _ => .assign
  | .branch _ => .branch
  | .test _ => .test
  | .loop => .loop
  | .leave => .leave
  | .comment _ => .comment
  | .close => .close
  | .otherwise => .otherwise

/-- The kind of a line that goes on with an equals sign and then the given character. -/
def Kind.ofAssigned (c : Char) : Kind :=
  if isNumberPart c || c == '"' then .initial else .assign

/-- The kind of a line that goes on with a parenthesis and then the given character. -/
def Kind.ofCondition (c : Char) : Kind :=
  if c = '!' then .test else if c = '1' then .loop else .branch

/-- The kind of a line that starts with a word, from what stands behind the word. -/
def kindBehindWord : List Char → Kind
  | '(' :: _ => .call
  | ';' :: _ => .leave
  | ' ' :: '=' :: ' ' :: c :: _ => .ofAssigned c
  | ' ' :: '(' :: c :: _ => .ofCondition c
  | _ => .declaration

def readKind : List Char → Kind
  | '/' :: _ => .comment
  | ['\x7d'] => .close
  | '\x7d' :: _ => .otherwise
  | '&' :: _ | '*' :: _ => .assign
  | cs => kindBehindWord (cs.dropWhile isWordPart)

theorem readKind_append_of_isName {x : String} (hx : isName x = true) {r : List Char}
    (hr : StopsWord r) : readKind (x.toList ++ r) = kindBehindWord r := by
  have hdrop := dropWhile_append_stop (isWordPart_of_isWord hx) hr
  obtain ⟨c, cs, hlist, hc⟩ := exists_of_isName hx
  have hslash : c ≠ '/' := ne_of_isWordStart hc (by decide)
  have hbrace : c ≠ '\x7d' := ne_of_isWordStart hc (by decide)
  have hand : c ≠ '&' := ne_of_isWordStart hc (by decide)
  have hstar : c ≠ '*' := ne_of_isWordStart hc (by decide)
  rw [hlist, List.cons_append] at hdrop ⊢
  rw [readKind, hdrop] <;> simp [hslash, hbrace, hand, hstar]

theorem kindBehindWord_space {c : Char} (hc : isWordStart c = true) (r : List Char) :
    kindBehindWord (' ' :: c :: r) = .declaration := by
  have hequal : c ≠ '=' := ne_of_isWordStart hc (by decide)
  have hparen : c ≠ '(' := ne_of_isWordStart hc (by decide)
  rw [kindBehindWord] <;> simp [hequal, hparen]

/-- The characters that an operand can start with. -/
def isOperandStart (c : Char) : Bool :=
  isWordStart c || c == '&' || c == '*'

theorem exists_of_operand {o : Operand} (h : isName o.target = true) :
    ∃ c cs, o.render.toList = c :: cs ∧ isOperandStart c = true := by
  obtain ⟨c, cs, hlist, hc⟩ := exists_of_isName h
  rw [Operand.toList_render, hlist]
  cases o with
  | name x => exact ⟨c, cs, rfl, by simp [isOperandStart, hc]⟩
  | addressOf x | deref x => exact ⟨_, _, rfl, rfl⟩

theorem ofCondition_of_isOperandStart {c : Char} (hc : isOperandStart c = true) :
    Kind.ofCondition c = .branch := by
  have hne {d : Char} (hd : isOperandStart d = false) : c ≠ d := by
    intro heq
    rw [heq, hd] at hc
    cases hc
  rw [Kind.ofCondition, if_neg (hne (by decide)), if_neg (hne (by decide))]

theorem ofAssigned_of_isOperandStart {c : Char} (hc : isOperandStart c = true) :
    Kind.ofAssigned c = .assign := by
  simp only [isOperandStart, Bool.or_eq_true, beq_iff_eq] at hc
  obtain (hword | rfl) | rfl := hc
  · have hminus : c ≠ '-' := ne_of_isWordStart hword (by decide)
    have hquote : c ≠ '"' := ne_of_isWordStart hword (by decide)
    simp [Kind.ofAssigned, isNumberPart, not_isDigit_of_isWordStart hword, hminus, hquote]
  · rfl
  · rfl

theorem ofAssigned_of_literal (v : Literal) :
    ∃ c cs, (renderLiteral v).toList = c :: cs ∧ Kind.ofAssigned c = .initial := by
  cases v with
  | int n =>
      obtain ⟨c, cs, hlist, hc⟩ := exists_of_int n
      exact ⟨c, cs, hlist, by simp [Kind.ofAssigned, hc]⟩
  | text x =>
      rw [renderLiteral, literalText, String.toList_append, String.toList_append]
      exact ⟨'"', _, rfl, rfl⟩

theorem readKind_text {l : Line} (h : l.printable = true) : readKind l.text.toList = l.kind := by
  have hspace (r : List Char) : StopsWord (' ' :: r) := stopsWord_cons (by decide) r
  cases l with
  | declaration x =>
      rw [printable, TypedName.printable, Bool.and_eq_true] at h
      obtain ⟨c, cs, hlist, hc⟩ := exists_of_isName h.1
      simp only [text, renderTypedName, toList_render, String.toList_append, List.append_assoc,
        hlist]
      cases x.type.isPointer with
      | true => exact readKind_append_of_isName h.2 (stopsWord_cons (c := '*') (by decide) _)
      | false =>
          exact (readKind_append_of_isName h.2 (hspace _)).trans (kindBehindWord_space hc _)
  | initial x v =>
      obtain ⟨c, cs, hlist, hc⟩ := ofAssigned_of_literal v
      simp only [text, String.toList_append, List.append_assoc, hlist]
      exact (readKind_append_of_isName h (hspace _)).trans hc
  | call f args =>
      rw [printable, Bool.and_eq_true] at h
      simp only [text, String.toList_append, List.append_assoc]
      exact readKind_append_of_isName h.1 (stopsWord_cons (c := '(') (by decide) _)
  | assign dst src =>
      rw [printable, Bool.and_eq_true] at h
      obtain ⟨c, cs, hlist, hc⟩ := exists_of_operand h.2
      simp only [text, String.toList_append, List.append_assoc, hlist]
      cases dst with
      | name x =>
          exact (readKind_append_of_isName h.1 (hspace _)).trans (ofAssigned_of_isOperandStart hc)
      | addressOf x | deref x => simp [Operand.render, readKind, kind]
  | branch c =>
      obtain ⟨d, ds, hlist, hd⟩ := exists_of_operand h
      simp only [text, String.toList_append, List.append_assoc, hlist]
      exact ofCondition_of_isOperandStart hd
  | test c =>
      simp only [text, String.toList_append, List.append_assoc]
      rfl
  | comment t =>
      simp only [text, String.toList_append, List.append_assoc]
      rfl
  | loop | leave | close | otherwise => rfl

theorem eq_of_text {a b : Line} (ha : a.printable = true) (hb : b.printable = true)
    (h : a.text = b.text) : a = b := by
  have hkind : a.kind = b.kind := by rw [← readKind_text ha, ← readKind_text hb, h]
  have hchars := congrArg String.toList h
  have hsemi : StopsWord [';'] := stopsWord_cons (by decide) []
  have hparen : StopsWord ") \x7b".toList := stopsWord_cons (c := ')') (by decide) _
  cases a with
  | declaration x =>
      cases b with
      | declaration y =>
          simp only [text, String.toList_append] at hchars
          rw [(readable_typedName ha hb hsemi hsemi hchars).1]
      | _ => cases hkind
  | initial x v =>
      cases b with
      | initial y w =>
          simp only [text, String.toList_append, List.append_assoc] at hchars
          obtain ⟨hxy, hrest⟩ := readable_name ha hb (stopsWord_append (by decide) _)
            (stopsWord_append (by decide) _) hchars
          have hvw := readable_literal trivial trivial rfl rfl (List.append_cancel_left hrest)
          rw [hxy, hvw.1]
      | _ => cases hkind
  | call f args =>
      cases b with
      | call g args' =>
          rw [printable, Bool.and_eq_true, List.all_eq_true] at ha hb
          simp only [text, String.toList_append, List.append_assoc] at hchars
          obtain ⟨hfg, hrest⟩ := readable_name ha.1 hb.1 (stopsWord_append (by decide) _)
            (stopsWord_append (by decide) _) hchars
          have hargs := readable_operands ha.2 hb.2 rfl rfl (List.append_cancel_left hrest)
          rw [hfg, hargs.1]
      | _ => cases hkind
  | assign dst src =>
      cases b with
      | assign dst' src' =>
          rw [printable, Bool.and_eq_true] at ha hb
          simp only [text, String.toList_append, List.append_assoc] at hchars
          obtain ⟨hdst, hrest⟩ := readable_operand ha.1 hb.1 (stopsWord_append (by decide) _)
            (stopsWord_append (by decide) _) hchars
          have hsrc := readable_operand ha.2 hb.2 hsemi hsemi (List.append_cancel_left hrest)
          rw [hdst, hsrc.1]
      | _ => cases hkind
  | branch c =>
      cases b with
      | branch d =>
          simp only [text, String.toList_append, List.append_assoc] at hchars
          rw [(readable_operand ha hb hparen hparen (List.append_cancel_left hchars)).1]
      | _ => cases hkind
  | test c =>
      cases b with
      | test d =>
          simp only [text, String.toList_append, List.append_assoc] at hchars
          rw [(readable_operand ha hb hparen hparen (List.append_cancel_left hchars)).1]
      | _ => cases hkind
  | comment t =>
      cases b with
      | comment u =>
          simp only [text, String.toList_append, List.append_assoc] at hchars
          have htu := List.append_cancel_right (List.append_cancel_left hchars)
          rw [String.toList_inj.mp htu]
      | _ => cases hkind
  | loop | leave | close | otherwise =>
      cases b with
      | loop | leave | close | otherwise => first | rfl | cases hkind
      | _ => cases hkind

/-- No line starts with a blank, so its depth can be told from its text. -/
theorem exists_of_text {l : Line} (h : l.printable = true) :
    ∃ c cs, l.text.toList = c :: cs ∧ c ≠ ' ' := by
  have hname {x : String} (hx : isName x = true) (r : List Char) :
      ∃ c cs, x.toList ++ r = c :: cs ∧ c ≠ ' ' := by
    obtain ⟨c, cs, hlist, hc⟩ := exists_of_isName hx
    rw [hlist]
    exact ⟨c, cs ++ r, rfl, ne_of_isWordStart hc (by decide)⟩
  cases l with
  | declaration x =>
      rw [printable, TypedName.printable, Bool.and_eq_true] at h
      simp only [text, renderTypedName, toList_render, String.toList_append, List.append_assoc]
      exact hname h.2 _
  | initial x v =>
      simp only [text, String.toList_append, List.append_assoc]
      exact hname h _
  | call f args =>
      rw [printable, Bool.and_eq_true] at h
      simp only [text, String.toList_append, List.append_assoc]
      exact hname h.1 _
  | assign dst src =>
      rw [printable, Bool.and_eq_true] at h
      simp only [text, String.toList_append, Operand.toList_render, List.append_assoc]
      cases dst with
      | name x => exact hname h.1 _
      | addressOf x | deref x => exact ⟨_, _, rfl, by decide⟩
  | branch c | test c | comment t =>
      simp only [text, String.toList_append, List.append_assoc]
      exact ⟨_, _, rfl, by decide⟩
  | loop | leave | close | otherwise => exact ⟨_, _, rfl, by decide⟩

theorem toList_line (depth : Nat) (t : String) :
    (line depth t).toList = List.replicate (4 * depth) ' ' ++ t.toList := by
  induction depth with
  | zero => simp [line, indent]
  | succ n ih =>
      simp only [line, indent, String.toList_append, String.toList_join, List.append_left_inj,
        List.replicate_succ, List.flatMap_cons] at ih ⊢
      rw [ih, Nat.mul_succ, Nat.add_comm, ← List.replicate_append_replicate]
      rfl

theorem eq_of_line {a b : Line} (ha : a.printable = true) (hb : b.printable = true)
    {d e : Nat} (h : line d a.text = line e b.text) : a = b := by
  have hstop {l : Line} (hl : l.printable = true) :
      ∀ c, l.text.toList.head? = some c → (c == ' ') = false := by
    intro c hc
    obtain ⟨c', cs, hlist, hne⟩ := exists_of_text hl
    rw [hlist] at hc
    cases hc
    simpa using hne
  have hchars := congrArg String.toList h
  rw [toList_line, toList_line] at hchars
  have hblank (n : Nat) : ∀ c ∈ List.replicate n ' ', (c == ' ') = true := by
    intro c hc
    rw [(List.mem_replicate.mp hc).2]
    rfl
  have htext := append_inj_of_stop (hblank _) (hblank _) (hstop ha) (hstop hb) hchars
  exact eq_of_text ha hb (String.toList_inj.mp htext.2)

end Line

/-! Statements. -/

/-- All on one line. -/
def oneLine (s : String) : Bool :=
  !s.toList.contains '\n'

mutual

/-- Names have the form of names, and comments stay on their line. -/
def Stmt.printable : Stmt → Bool
  | .call f args => isName f && args.all (isName ·.target)
  | .assign dst src => isName dst.target && isName src.target
  | .branch c yes none => isName c.target && Stmt.printableAll yes
  | .branch c yes (some no) =>
    isName c.target && Stmt.printableAll yes && Stmt.printableAll no
  | .loop body => Stmt.printableAll body
  | .leaveLoopUnless c => isName c.target
  | .leave => true
  | .comment text => oneLine text

def Stmt.printableAll : List Stmt → Bool
  | [] => true
  | s :: ss => Stmt.printable s && Stmt.printableAll ss

end

/-- The first line of a statement. -/
def Stmt.first : Stmt → Line
  | .call f args => .call f args
  | .assign dst src => .assign dst src
  | .branch c _ _ => .branch c
  | .loop _ => .loop
  | .leaveLoopUnless c => .test c
  | .leave => .leave
  | .comment text => .comment text

/-- The lines of a branch behind the statements of its first block. -/
def Stmt.elseLines (depth : Nat) : Option (List Stmt) → List String
  | none => [line depth "\x7d"]
  | some no => line depth "\x7d else \x7b" :: Stmt.linesAll (depth + 1) no ++ [line depth "\x7d"]

theorem Stmt.lines_branch (depth : Nat) (c : Operand) (yes : List Stmt)
    (no : Option (List Stmt)) : (Stmt.branch c yes no).lines depth =
      line depth (Line.branch c).text ::
        (Stmt.linesAll (depth + 1) yes ++ Stmt.elseLines depth no) := by
  cases no with
  | none => rfl
  | some no => simp [lines, elseLines, Line.text]

theorem Stmt.printable_branch (c : Operand) (yes : List Stmt) (no : Option (List Stmt)) :
    (Stmt.branch c yes no).printable =
      (isName c.target && Stmt.printableAll yes && no.all Stmt.printableAll) := by
  cases no <;> simp [printable]

theorem Stmt.exists_lines (s : Stmt) (depth : Nat) :
    ∃ ls, s.lines depth = line depth s.first.text :: ls := by
  cases s with
  | branch c yes no => exact ⟨_, Stmt.lines_branch depth c yes no⟩
  | _ => exact ⟨_, rfl⟩

theorem Stmt.printable_first {s : Stmt} (h : s.printable = true) : s.first.printable = true := by
  cases s with
  | branch c yes no =>
      rw [printable_branch, Bool.and_eq_true, Bool.and_eq_true] at h
      exact h.1.1
  | call _ _ | assign _ _ | leaveLoopUnless _ => exact h
  | loop _ | leave | comment _ => rfl

/-- The first line is of one of the kinds. -/
def Leads (K : Line.Kind → Prop) (ls : List String) : Prop :=
  ∃ depth l rest, ls = line depth (Line.text l) :: rest ∧ l.printable = true ∧ K l.kind

theorem Leads.kind_of_eq {K : Line.Kind → Prop} {ls : List String} (h : Leads K ls) {l : Line}
    (hl : l.printable = true) {depth : Nat} {r : List String}
    (heq : ls = line depth l.text :: r) : K l.kind := by
  obtain ⟨d, l', rest, hls, hl', hK⟩ := h
  rw [hls] at heq
  injection heq with hhead _
  rw [← Line.eq_of_line hl' hl hhead]
  exact hK

/-- The first line closes a block. -/
def EndsBlock : List String → Prop :=
  Leads fun k => k = .close ∨ k = .otherwise

theorem endsBlock_close (depth : Nat) (ls : List String) :
    EndsBlock (line depth "\x7d" :: ls) :=
  ⟨depth, .close, ls, rfl, rfl, .inl rfl⟩

theorem endsBlock_elseLines (depth : Nat) (no : Option (List Stmt)) (ls : List String) :
    EndsBlock (Stmt.elseLines depth no ++ ls) := by
  cases no with
  | none => exact endsBlock_close depth ls
  | some no => exact ⟨depth, .otherwise, _, rfl, rfl, .inr rfl⟩

theorem EndsBlock.ne_lines {ls : List String} (h : EndsBlock ls) {s : Stmt}
    (hs : s.printable = true) (depth : Nat) (r : List String) : ls ≠ s.lines depth ++ r := by
  intro heq
  obtain ⟨more, hlines⟩ := s.exists_lines depth
  rw [hlines, List.cons_append] at heq
  have hkind := h.kind_of_eq (Stmt.printable_first hs) heq
  cases s <;> cases hkind <;> contradiction

theorem Stmt.first_eq {s t : Stmt} (hs : s.printable = true) (ht : t.printable = true)
    {d e : Nat} {r r' : List String} (h : s.lines d ++ r = t.lines e ++ r') :
    s.first = t.first := by
  obtain ⟨ls, hls⟩ := s.exists_lines d
  obtain ⟨ls', hls'⟩ := t.exists_lines e
  rw [hls, hls', List.cons_append, List.cons_append] at h
  injection h with hhead _
  exact Line.eq_of_line (printable_first hs) (printable_first ht) hhead

mutual

theorem Stmt.eq_of_lines : ∀ (s t : Stmt) (depth : Nat) {r r' : List String},
    s.printable = true → t.printable = true → s.lines depth ++ r = t.lines depth ++ r' →
      s = t ∧ r = r'
  | .call _ _, t, depth, r, r', hs, ht, heq
  | .assign _ _, t, depth, r, r', hs, ht, heq
  | .leaveLoopUnless _, t, depth, r, r', hs, ht, heq
  | .leave, t, depth, r, r', hs, ht, heq
  | .comment _, t, depth, r, r', hs, ht, heq => by
      have hfirst := Stmt.first_eq hs ht heq
      cases t <;> cases hfirst
      exact ⟨rfl, List.append_cancel_left heq⟩
  | .branch c yes no, t, depth, r, r', hs, ht, heq => by
      have hfirst := Stmt.first_eq hs ht heq
      cases t with
      | branch c' yes' no' =>
          cases hfirst
          simp only [printable_branch, Bool.and_eq_true] at hs ht
          simp only [lines_branch, List.cons_append, List.append_assoc, List.cons.injEq,
            true_and] at heq
          obtain ⟨rfl, hrest⟩ := Stmt.eq_of_linesAll yes yes' (depth + 1) hs.1.2 ht.1.2
            (endsBlock_elseLines depth no r) (endsBlock_elseLines depth no' r') heq
          obtain ⟨rfl, hend⟩ := Stmt.eq_of_elseLines no no' depth hs.2 ht.2 hrest
          exact ⟨rfl, hend⟩
      | _ => cases hfirst
  | .loop body, t, depth, r, r', hs, ht, heq => by
      have hfirst := Stmt.first_eq hs ht heq
      cases t with
      | loop body' =>
          rw [printable] at hs ht
          simp only [lines, List.cons_append, List.append_assoc, List.cons.injEq, true_and] at heq
          obtain ⟨rfl, hrest⟩ := Stmt.eq_of_linesAll body body' (depth + 1) hs ht
            (endsBlock_close depth r) (endsBlock_close depth r') heq
          exact ⟨rfl, List.tail_eq_of_cons_eq hrest⟩
      | _ => cases hfirst

theorem Stmt.eq_of_linesAll : ∀ (ss ts : List Stmt) (depth : Nat) {r r' : List String},
    Stmt.printableAll ss = true → Stmt.printableAll ts = true → EndsBlock r → EndsBlock r' →
      Stmt.linesAll depth ss ++ r = Stmt.linesAll depth ts ++ r' → ss = ts ∧ r = r'
  | [], [], depth, r, r', _, _, _, _, heq => ⟨rfl, heq⟩
  | [], t :: ts, depth, r, r', hs, ht, hr, hr', heq => by
      rw [printableAll, Bool.and_eq_true] at ht
      simp only [linesAll, List.nil_append, List.append_assoc] at heq
      exact absurd heq (hr.ne_lines ht.1 depth _)
  | s :: ss, [], depth, r, r', hs, ht, hr, hr', heq => by
      rw [printableAll, Bool.and_eq_true] at hs
      simp only [linesAll, List.nil_append, List.append_assoc] at heq
      exact absurd heq.symm (hr'.ne_lines hs.1 depth _)
  | s :: ss, t :: ts, depth, r, r', hs, ht, hr, hr', heq => by
      rw [printableAll, Bool.and_eq_true] at hs ht
      simp only [linesAll, List.append_assoc] at heq
      obtain ⟨rfl, hrest⟩ := Stmt.eq_of_lines s t depth hs.1 ht.1 heq
      obtain ⟨rfl, hend⟩ := Stmt.eq_of_linesAll ss ts depth hs.2 ht.2 hr hr' hrest
      exact ⟨rfl, hend⟩

theorem Stmt.eq_of_elseLines : ∀ (no no' : Option (List Stmt)) (depth : Nat) {r r' : List String},
    no.all Stmt.printableAll = true → no'.all Stmt.printableAll = true →
      Stmt.elseLines depth no ++ r = Stmt.elseLines depth no' ++ r' → no = no' ∧ r = r'
  | none, none, depth, r, r', _, _, heq => ⟨rfl, List.append_cancel_left heq⟩
  | none, some _, depth, r, r', _, _, heq => by
      injection heq with hhead _
      cases Line.eq_of_line (a := .close) (b := .otherwise) rfl rfl hhead
  | some _, none, depth, r, r', _, _, heq => by
      injection heq with hhead _
      cases Line.eq_of_line (a := .otherwise) (b := .close) rfl rfl hhead
  | some no, some no', depth, r, r', hno, hno', heq => by
      simp only [elseLines, List.cons_append, List.append_assoc, List.cons.injEq,
        true_and] at heq
      obtain ⟨rfl, hrest⟩ := Stmt.eq_of_linesAll no no' (depth + 1) hno hno'
        (endsBlock_close depth r) (endsBlock_close depth r') heq
      exact ⟨rfl, List.tail_eq_of_cons_eq hrest⟩

end

theorem Stmt.leads_linesAll {K : Line.Kind → Prop} (hK : ∀ s : Stmt, K s.first.kind)
    {depth : Nat} {ss : List Stmt} (hss : Stmt.printableAll ss = true) {r : List String}
    (hr : Leads K r) : Leads K (Stmt.linesAll depth ss ++ r) := by
  cases ss with
  | nil => exact hr
  | cons s ss =>
      rw [printableAll, Bool.and_eq_true] at hss
      obtain ⟨ls, hls⟩ := s.exists_lines depth
      rw [linesAll, hls]
      exact ⟨depth, s.first, _, rfl, printable_first hss.1, hK s⟩

end Mis.C
