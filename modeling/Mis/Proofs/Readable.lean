import Mis.C.Printer
import Mis.Proofs.Decimal
import Mis.Proofs.Lexeme

/-!
Texts that can be read back. What is written first can be told from the whole
text, as long as what follows cannot be taken for a part of it. The notion serves
for the characters of a line and for the lines of a program alike.
-/
namespace Mis

section Readable

variable {α τ : Type} {P : α → Prop} {Q : List τ → Prop} {f : α → List τ}

/-- What `f` writes for values with `P` can be read off in front of a rest with `Q`. -/
def Readable (P : α → Prop) (Q : List τ → Prop) (f : α → List τ) : Prop :=
  ∀ ⦃a b : α⦄, P a → P b → ∀ ⦃r s : List τ⦄, Q r → Q s → f a ++ r = f b ++ s → a = b ∧ r = s

/-- Nothing that `f` writes stands in front. -/
def NoneAhead (P : α → Prop) (f : α → List τ) (r : List τ) : Prop :=
  ∀ a, P a → ∀ s, r ≠ f a ++ s

/-- Pieces one after the other, up to a rest that is no further piece. -/
theorem Readable.flatMap (h : Readable P Q f) {R : List τ → Prop}
    (hmore : ∀ a, P a → ∀ r, Q (f a ++ r)) (hstop : ∀ r, R r → Q r ∧ NoneAhead P f r) :
    Readable (fun as => ∀ a ∈ as, P a) R (List.flatMap f) := by
  intro as bs has hbs r s hr hs heq
  have hfollow (as : List α) (has : ∀ a ∈ as, P a) {r : List τ} (hr : R r) :
      Q (as.flatMap f ++ r) := by
    cases as with
    | nil => exact (hstop r hr).1
    | cons a as =>
        rw [List.flatMap_cons, List.append_assoc]
        exact hmore a (has a List.mem_cons_self) _
  induction as generalizing bs with
  | nil =>
      cases bs with
      | nil => exact ⟨rfl, heq⟩
      | cons b bs =>
          rw [List.flatMap_cons, List.append_assoc] at heq
          exact absurd heq ((hstop r hr).2 b (hbs b List.mem_cons_self) _)
  | cons a as ih =>
      cases bs with
      | nil =>
          rw [List.flatMap_cons, List.append_assoc] at heq
          exact absurd heq.symm ((hstop s hs).2 a (has a List.mem_cons_self) _)
      | cons b bs =>
          rw [List.forall_mem_cons] at has hbs
          simp only [List.flatMap_cons, List.append_assoc] at heq
          obtain ⟨rfl, hrest⟩ :=
            h has.1 hbs.1 (hfollow as has.2 hr) (hfollow bs hbs.2 hs) heq
          obtain ⟨rfl, hend⟩ := ih has.2 hbs.2 hrest
          exact ⟨rfl, hend⟩

end Readable

/-! Names. -/

/-- A letter or underscore, then letters, digits and underscores. -/
def isName (x : String) : Bool :=
  isWord x.toList

/-- What follows does not go on with a name. -/
def StopsWord (r : List Char) : Prop :=
  ∀ c, r.head? = some c → isWordPart c = false

theorem stopsWord_cons {c : Char} (hc : isWordPart c = false) (r : List Char) :
    StopsWord (c :: r) := by
  intro d hd
  cases hd
  exact hc

theorem stopsWord_append {w : String} (hw : w.toList.head?.any (!isWordPart ·) = true)
    (r : List Char) : StopsWord (w.toList ++ r) := by
  cases hlist : w.toList with
  | nil =>
      rw [hlist] at hw
      cases hw
  | cons c cs =>
      rw [hlist] at hw
      exact stopsWord_cons (by simpa using hw) (cs ++ r)

theorem append_inj_of_stop {p : Char → Bool} {cs ds r s : List Char}
    (hcs : ∀ c ∈ cs, p c = true) (hds : ∀ c ∈ ds, p c = true)
    (hr : ∀ c, r.head? = some c → p c = false) (hs : ∀ c, s.head? = some c → p c = false)
    (h : cs ++ r = ds ++ s) : cs = ds ∧ r = s := by
  have htake := congrArg (List.takeWhile p) h
  rw [takeWhile_append_stop hcs hr, takeWhile_append_stop hds hs] at htake
  subst htake
  exact ⟨rfl, List.append_cancel_left h⟩

theorem readable_name : Readable (isName · = true) StopsWord String.toList := by
  intro x y hx hy r s hr hs heq
  obtain ⟨hxy, heq⟩ :=
    append_inj_of_stop (isWordPart_of_isWord hx) (isWordPart_of_isWord hy) hr hs heq
  exact ⟨String.toList_inj.mp hxy, heq⟩

/-- A name starts with a character that starts no other thing. -/
theorem exists_of_isName {x : String} (h : isName x = true) :
    ∃ c cs, x.toList = c :: cs ∧ isWordStart c = true :=
  exists_of_isWord h

theorem ne_of_isWordStart {c d : Char} (hc : isWordStart c = true) (hd : isWordStart d = false) :
    c ≠ d := by
  intro heq
  rw [heq, hd] at hc
  cases hc

theorem head?_append_of_isName {x : String} (h : isName x = true) {r : List Char} {d : Char}
    (hd : isWordStart d = false) : (x.toList ++ r).head? ≠ some d := by
  obtain ⟨c, cs, hx, hc⟩ := exists_of_isName h
  rw [hx]
  exact fun heq => ne_of_isWordStart hc hd (Option.some.inj heq)

/-! Lists with commas. -/

theorem toList_commas {α : Type} (f : α → String) (a : α) (as : List α) :
    (", ".intercalate ((a :: as).map f)).toList =
      (f a).toList ++ as.flatMap fun b => ", ".toList ++ (f b).toList := by
  induction as generalizing a with
  | nil => simp
  | cons b as ih =>
      have hb := ih b
      simp only [String.toList_intercalate, List.map_cons, List.intercalate_cons_cons,
        List.flatMap_cons, List.append_assoc] at hb ⊢
      rw [hb]

theorem stopsWord_commas {α : Type} (f : α → String) (as : List α) {r : List Char}
    (hr : r.head? = some ')') :
    StopsWord (as.flatMap (fun b => ", ".toList ++ (f b).toList) ++ r) := by
  cases as with
  | nil =>
      obtain ⟨r, rfl⟩ := List.head?_eq_some_iff.mp hr
      exact stopsWord_cons (by decide) r
  | cons b bs => exact stopsWord_cons (by decide) _

/-- Values with commas between them, up to a closing parenthesis. -/
theorem readable_commas {α : Type} {P : α → Prop} {f : α → String}
    (h : Readable P StopsWord fun a => (f a).toList)
    (hclose : ∀ r, r.head? = some ')' → NoneAhead P (fun a => (f a).toList) r) :
    Readable (fun as : List α => ∀ a ∈ as, P a) (·.head? = some ')')
      fun as => (", ".intercalate (as.map f)).toList := by
  have hmore : Readable (fun as : List α => ∀ a ∈ as, P a) (·.head? = some ')')
      (List.flatMap fun b => ", ".toList ++ (f b).toList) := by
    refine Readable.flatMap (Q := StopsWord) ?_ ?_ ?_
    · intro a b ha hb r s hr hs heq
      simp only [List.append_assoc] at heq
      exact h ha hb hr hs (List.append_cancel_left heq)
    · intro a _ r
      exact stopsWord_cons (by decide) _
    · intro r hr
      obtain ⟨r, rfl⟩ := List.head?_eq_some_iff.mp hr
      exact ⟨stopsWord_cons (by decide) r, fun _ _ _ heq => by cases heq⟩
  intro as bs has hbs r s hr hs heq
  cases as with
  | nil =>
      cases bs with
      | nil => exact ⟨rfl, heq⟩
      | cons b bs =>
          dsimp only at heq
          rw [toList_commas, List.append_assoc] at heq
          exact absurd heq (hclose r hr b (hbs b List.mem_cons_self) _)
  | cons a as =>
      cases bs with
      | nil =>
          dsimp only at heq
          rw [toList_commas, List.append_assoc] at heq
          exact absurd heq.symm (hclose s hs a (has a List.mem_cons_self) _)
      | cons b bs =>
          rw [List.forall_mem_cons] at has hbs
          dsimp only at heq
          rw [toList_commas, toList_commas, List.append_assoc, List.append_assoc] at heq
          obtain ⟨rfl, hrest⟩ :=
            h has.1 hbs.1 (stopsWord_commas f as hr) (stopsWord_commas f bs hs) heq
          obtain ⟨rfl, hend⟩ := hmore has.2 hbs.2 hr hs hrest
          exact ⟨rfl, hend⟩

def TypedName.printable (x : TypedName) : Bool :=
  isName x.name && isName x.type.name

namespace C

/-! Types and operands. -/

theorem toList_render (t : Ty) :
    t.render.toList = t.name.toList ++ (if t.isPointer then ['*'] else []) := by
  cases h : t.isPointer <;> simp [Ty.render, h]

theorem readable_type :
    Readable (fun t : Ty => isName t.name = true) (·.head? = some ' ')
      (fun t => t.render.toList) := by
  intro t u ht hu r s hr hs heq
  have hstops (b : Bool) (r : List Char) (hr : r.head? = some ' ') :
      StopsWord ((if b then ['*'] else []) ++ r) := by
    intro c hc
    cases b with
    | true =>
        cases hc
        decide
    | false =>
        rw [if_neg Bool.false_ne_true, List.nil_append, hr] at hc
        cases hc
        decide
  dsimp only at heq
  rw [toList_render, toList_render, List.append_assoc, List.append_assoc] at heq
  obtain ⟨hname, hrest⟩ := readable_name ht hu (hstops _ r hr) (hstops _ s hs) heq
  obtain ⟨x, p⟩ := t
  obtain ⟨y, q⟩ := u
  dsimp only at hname hrest
  subst hname
  cases p with
  | false =>
      cases q with
      | false => exact ⟨rfl, hrest⟩
      | true =>
          rw [if_neg Bool.false_ne_true, if_pos rfl] at hrest
          rw [show r = '*' :: s from hrest] at hr
          cases hr
  | true =>
      cases q with
      | false =>
          rw [if_neg Bool.false_ne_true, if_pos rfl] at hrest
          rw [show s = '*' :: r from hrest.symm] at hs
          cases hs
      | true => exact ⟨rfl, List.append_cancel_left hrest⟩

theorem readable_typedName :
    Readable (·.printable = true) StopsWord fun x => (renderTypedName x).toList := by
  intro x y hx hy r s hr hs heq
  rw [TypedName.printable, Bool.and_eq_true] at hx hy
  simp only [renderTypedName, String.toList_append, List.append_assoc] at heq
  obtain ⟨htype, hrest⟩ := readable_type hx.2 hy.2 rfl rfl heq
  obtain ⟨hname, hend⟩ := readable_name hx.1 hy.1 hr hs (List.append_cancel_left hrest)
  cases x
  cases y
  exact ⟨TypedName.mk.injEq .. ▸ ⟨hname, htype⟩, hend⟩

/-- What stands before the name of an operand. -/
def Operand.mark : Operand → List Char
  | .name _ => []
  | .addressOf _ => ['&']
  | .deref _ => ['*']

theorem Operand.toList_render (o : Operand) :
    o.render.toList = o.mark ++ o.target.toList := by
  cases o <;> simp [render, mark, target]

theorem readable_operand :
    Readable (fun o : Operand => isName o.target = true) StopsWord fun o => o.render.toList := by
  intro o o' ho ho' r s hr hs heq
  have hmarks (o : Operand) : ∀ c ∈ o.mark, (!isWordStart c) = true := by
    cases o <;> simp [Operand.mark] <;> decide
  have hstop {x : String} (hx : isName x = true) (r : List Char) :
      ∀ c, (x.toList ++ r).head? = some c → (!isWordStart c) = false := by
    intro c hc
    obtain ⟨d, ds, hlist, hd⟩ := exists_of_isName hx
    rw [hlist] at hc
    cases hc
    rw [hd]
    rfl
  simp only [Operand.toList_render, List.append_assoc] at heq
  obtain ⟨hmark, hrest⟩ :=
    append_inj_of_stop (hmarks o) (hmarks o') (hstop ho r) (hstop ho' s) heq
  obtain ⟨htarget, hend⟩ := readable_name ho ho' hr hs hrest
  refine ⟨?_, hend⟩
  cases o <;> cases o' <;> simp_all [Operand.mark, Operand.target]

theorem readable_params :
    Readable (fun xs : List TypedName => ∀ x ∈ xs, x.printable = true) (·.head? = some ')')
      fun xs => (", ".intercalate (xs.map renderTypedName)).toList := by
  refine readable_commas readable_typedName ?_
  intro r hr x hx s heq
  rw [TypedName.printable, Bool.and_eq_true] at hx
  simp only [renderTypedName, String.toList_append, toList_render, List.append_assoc] at heq
  rw [heq] at hr
  exact head?_append_of_isName hx.2 (by decide) hr

theorem readable_operands :
    Readable (fun os : List Operand => ∀ o ∈ os, isName o.target = true) (·.head? = some ')')
      fun os => (", ".intercalate (os.map Operand.render)).toList := by
  refine readable_commas readable_operand ?_
  intro r hr o ho s heq
  simp only [Operand.toList_render, List.append_assoc] at heq
  cases o with
  | name x =>
      rw [heq] at hr
      exact head?_append_of_isName ho (by decide) hr
  | addressOf x | deref x =>
      rw [heq] at hr
      cases hr

/-! Literals. -/

/-- The value of a character behind a backslash. -/
def unescape : Char → Char
  | 'n' => '\n'
  | 't' => '\t'
  | 'r' => '\r'
  | '0' => '\x00'
  | c => c

/-- The first character of an escaped text, and what follows. -/
def readEscaped : List Char → Option (Char × List Char)
  | [] => none
  | c :: r =>
    if c = '\\' then r.head?.map fun e => (unescape e, r.tail)
    else some (c, r)

theorem readEscaped_append (c : Char) (r : List Char) :
    readEscaped ((escapeChar c).toList ++ r) = some (c, r) := by
  simp only [escapeChar]
  split
  case h_7 hbackslash _ _ _ _ =>
    have hne : ¬ c = '\\' := hbackslash
    simp [readEscaped, hne]
  all_goals rfl

theorem readable_escaped :
    Readable (fun _ => True) (fun _ => True) fun c => (escapeChar c).toList := by
  intro c d _ _ r s _ _ heq
  have hread := congrArg readEscaped heq
  rw [readEscaped_append, readEscaped_append] at hread
  exact Prod.mk.inj (Option.some.inj hread)

/-- A quote ends a text, since one that belongs to the text has a backslash before it. -/
theorem noneAhead_quote {r : List Char} (hr : r.head? = some '"') :
    NoneAhead (fun _ => True) (fun c => (escapeChar c).toList) r := by
  intro c _ s heq
  obtain ⟨r, rfl⟩ := List.head?_eq_some_iff.mp hr
  have hread := congrArg readEscaped heq
  rw [readEscaped_append] at hread
  cases hread
  cases heq

theorem toList_literalText (x : String) : (literalText x).toList =
    '"' :: (x.toList.flatMap (fun c => (escapeChar c).toList) ++ ['"']) := by
  simp [literalText, String.toList_join, List.flatMap_map]

theorem readable_text :
    Readable (fun _ => True) (fun _ => True) fun x => (literalText x).toList := by
  intro x y _ _ r s _ _ heq
  have hread := readable_escaped.flatMap (fun _ _ _ => trivial)
    fun r (hr : r.head? = some '"') => ⟨trivial, noneAhead_quote hr⟩
  simp only [toList_literalText, List.cons_append, List.append_assoc, List.cons.injEq,
    true_and] at heq
  obtain ⟨hchars, hrest⟩ := hread (fun _ _ => trivial) (fun _ _ => trivial) rfl rfl heq
  exact ⟨String.toList_inj.mp hchars, List.tail_eq_of_cons_eq hrest⟩

/-- The characters of a written number. -/
def isNumberPart (c : Char) : Bool :=
  c.isDigit || c == '-'

theorem isNumberPart_of_mem {n : Int} {c : Char} (hc : c ∈ (toString n).toList) :
    isNumberPart c = true := by
  have hdigit {k : Nat} (hc : c ∈ (Nat.repr k).toList) : c.isDigit = true := by
    rw [Nat.toList_repr] at hc
    exact Nat.isDigit_of_mem_toDigits (by decide) (by decide) hc
  cases n with
  | ofNat k => simp [isNumberPart, hdigit hc]
  | negSucc k =>
      have hsplit : c ∈ '-' :: (Nat.repr (k + 1)).toList := by
        change c ∈ ("-" ++ Nat.repr (k + 1)).toList at hc
        simpa using hc
      rw [List.mem_cons] at hsplit
      cases hsplit with
      | inl hminus => simp [isNumberPart, hminus]
      | inr hrest => simp [isNumberPart, hdigit hrest]

theorem exists_of_int (n : Int) :
    ∃ c cs, (toString n).toList = c :: cs ∧ isNumberPart c = true := by
  cases hlist : (toString n).toList with
  | nil =>
      cases n with
      | ofNat k =>
          change (Nat.repr k).toList = [] at hlist
          rw [Nat.toList_repr] at hlist
          exact absurd hlist Nat.toDigits_ne_nil
      | negSucc k =>
          change ("-" ++ Nat.repr (k + 1)).toList = [] at hlist
          simp at hlist
  | cons c cs => exact ⟨c, cs, rfl, isNumberPart_of_mem (hlist ▸ List.mem_cons_self)⟩

theorem readable_int :
    Readable (fun _ => True) (·.head? = some ';') fun n : Int => (toString n).toList := by
  intro n k _ _ r s hr hs heq
  have hstop {r : List Char} (hr : r.head? = some ';') :
      ∀ c, r.head? = some c → isNumberPart c = false := by
    intro c hc
    rw [hr] at hc
    cases hc
    decide
  obtain ⟨hchars, hrest⟩ := append_inj_of_stop (fun _ => isNumberPart_of_mem)
    (fun _ => isNumberPart_of_mem) (hstop hr) (hstop hs) heq
  exact ⟨intRepr_injective (String.toList_inj.mp hchars), hrest⟩

theorem ne_text_of_int (n : Int) (x : String) (r s : List Char) :
    (toString n).toList ++ r ≠ (literalText x).toList ++ s := by
  intro heq
  obtain ⟨c, cs, hlist, hc⟩ := exists_of_int n
  rw [hlist] at heq
  have hquote : c = '"' := by simpa [literalText] using congrArg List.head? heq
  rw [hquote] at hc
  cases hc

theorem readable_literal :
    Readable (fun _ => True) (·.head? = some ';') fun v => (renderLiteral v).toList := by
  intro v w _ _ r s hr hs heq
  cases v with
  | int n =>
      cases w with
      | int k =>
          obtain ⟨rfl, hrest⟩ := readable_int trivial trivial hr hs heq
          exact ⟨rfl, hrest⟩
      | text y => exact absurd heq (ne_text_of_int n y r s)
  | text x =>
      cases w with
      | int k => exact absurd heq.symm (ne_text_of_int k x s r)
      | text y =>
          obtain ⟨rfl, hrest⟩ := readable_text trivial trivial trivial trivial heq
          exact ⟨rfl, hrest⟩

end C

end Mis
