import Mis.Steps
import Mis.Tree.Phrase.Decl

/-!
The readers without their bounds: functions from tokens to a value and the tokens
left, put in sequence by `andThen`. Every reader is told by what it does on the
tokens in front of it, so that what is proved of readers does not open them.
-/
namespace Mis

abbrev Reader (α : Type) := List Token → Except Failure (α × List Token)

namespace Reader

variable {α β : Type}

def done (a : α) : Reader α := fun ts => .ok (a, ts)

/-- Goes on behind what `r` has read. -/
def andThen (r : Reader α) (next : α → Reader β) : Reader β :=
  fun ts => r ts >>= fun p => next p.1 p.2

/-- Drops `t` if it comes next. -/
def skipping (t : Token) : Reader Unit := fun ts => .ok ((), Read.skip t ts)

theorem skipping_andThen (t : Token) (next : Unit → Reader β) (ts : List Token) :
    (skipping t).andThen next ts = next () (Read.skip t ts) := rfl

theorem andThen_of_ok {r : Reader α} {next : α → Reader β} {ts rest : List Token} {a : α}
    (h : r ts = .ok (a, rest)) : r.andThen next ts = next a rest := by
  rw [andThen, h]
  rfl

theorem andThen_eq_ok {r : Reader α} {next : α → Reader β} {ts : List Token}
    {out : β × List Token} :
    r.andThen next ts = .ok out ↔ ∃ a rest, r ts = .ok (a, rest) ∧ next a rest = .ok out := by
  rw [andThen, bind_eq_ok, Prod.exists]

theorem andThen_eq_error {r : Reader α} {next : α → Reader β} {ts : List Token} {f : Failure} :
    r.andThen next ts = .error f ↔
      r ts = .error f ∨ ∃ a rest, r ts = .ok (a, rest) ∧ next a rest = .error f := by
  rw [andThen, bind_eq_error, Prod.exists]

end Reader

/-- A reader without its bound. -/
def bare {α : Type} {bound : List Token → Nat}
    (r : (ts : List Token) → Except Failure (Phrase α (bound ts))) : Reader α :=
  fun ts => (r ts).map Phrase.toPair

section Bare

variable {α β : Type}

theorem exists_phrase {bound : List Token → Nat}
    {r : (ts : List Token) → Except Failure (Phrase α (bound ts))} {ts rest : List Token} {a : α}
    (h : bare r ts = .ok (a, rest)) : ∃ p : Phrase α (bound ts), p.value = a ∧ p.rest = rest := by
  rw [bare] at h
  cases hr : r ts with
  | error f =>
      rw [hr] at h
      cases h
  | ok p =>
      rw [hr] at h
      cases h
      exact ⟨p, rfl, rfl⟩

/-- What is made of the result of a sequence, made step by step. -/
theorem map_bind_eq {γ δ : Type} {x : Except Failure α} {f : α → Except Failure β} {k : β → δ}
    {g : α → γ} {next : γ → Except Failure δ} (h : ∀ a, (f a).map k = next (g a)) :
    (x >>= f).map k = x.map g >>= next := by
  cases x with
  | error e => rfl
  | ok a => exact h a

/-- Steps in sequence, each from where the one before has ended. -/
theorem map_toPair_bind {m : Nat} {bound : List Token → Nat}
    {r : (ts : List Token) → Except Failure (Phrase α (bound ts))} {ts : List Token}
    {f : Phrase α (bound ts) → Except Failure (Phrase β m)} {next : α → Reader β}
    (h : ∀ p, (f p).map Phrase.toPair = next p.value p.rest) :
    (r ts >>= f).map Phrase.toPair = (bare r).andThen next ts :=
  map_bind_eq h

/-- The same for a step that makes no labels. -/
theorem map_toPair_liftM_bind {m : Nat} {bound : List Token → Nat}
    {r : (ts : List Token) → Except Failure (Phrase α (bound ts))} {ts : List Token}
    {f : Phrase α (bound ts) → Except Failure (Phrase β m)} {next : α → Reader β}
    (h : ∀ p, (f p).map Phrase.toPair = next p.value p.rest) :
    ((liftM (r ts) : Except Failure (Phrase α (bound ts))) >>= f).map Phrase.toPair =
      (bare r).andThen next ts :=
  map_toPair_bind h

/-- A last step that only widens the bound. -/
theorem map_toPair_widen {n m : Nat} {x : Except Failure (Phrase α n)}
    {f : Phrase α n → Except Failure (Phrase α m)}
    (h : ∀ p, (f p).map Phrase.toPair = .ok p.toPair) :
    (x >>= f).map Phrase.toPair = x.map Phrase.toPair := by
  cases x with
  | error e => rfl
  | ok p => exact h p

end Bare

/-! Readers of trees with empty labels. -/

namespace Read

/-- No label has to be looked for where all are empty. -/
def unlabelled : Except Failure Unit := .ok ()

def expr : (ts : List Token) → Reading (Expr Unit) ts :=
  Labelled.expr unlabelled

def calls (e : Expr Unit) :
    (ts : List Token) → Except Failure (Phrase (Expr Unit) (ts.length + 1)) :=
  Labelled.calls unlabelled e

def arguments : (ts : List Token) → Reading (List (Expr Unit)) ts :=
  Labelled.arguments unlabelled

def argumentList : (ts : List Token) → Reading (List (Expr Unit)) ts :=
  Labelled.argumentList unlabelled

def leaveValue :
    (ts : List Token) → Except Failure (Phrase (Option (Expr Unit)) (ts.length + 1)) :=
  Labelled.leaveValue unlabelled

def callStmt : (ts : List Token) → Reading (Stmt Unit) ts :=
  Labelled.callStmt unlabelled

def stmt : (ts : List Token) → Reading (Stmt Unit) ts :=
  Labelled.stmt unlabelled

def elseBlock :
    (ts : List Token) → Except Failure (Phrase (Option (List (Stmt Unit))) (ts.length + 1)) :=
  Labelled.elseBlock unlabelled

def block : (ts : List Token) → Reading (List (Stmt Unit)) ts :=
  Labelled.block unlabelled

def stmts : (ts : List Token) → Reading (List (Stmt Unit)) ts :=
  Labelled.stmts unlabelled

def function : (ts : List Token) → Reading (FunctionDecl Unit) ts :=
  Labelled.function unlabelled

def constant : (ts : List Token) → Reading (ConstantDecl Unit) ts :=
  Labelled.constant unlabelled

def decl : (ts : List Token) → Reading (Decl Unit) ts :=
  Labelled.decl unlabelled

def decls : List Token → Except Failure (List (Decl Unit)) :=
  Labelled.decls unlabelled

def wholeModule : List Token → Except Failure (Module Unit) :=
  Labelled.wholeModule unlabelled

end Read

namespace Read

open Reader

theorem skip_self (t : Token) (ts : List Token) : skip t (t :: ts) = ts := by
  simp [skip]

theorem skip_of_head?_ne {t : Token} {ts : List Token} (h : ts.head? ≠ some t) :
    skip t ts = ts := by
  cases ts with
  | nil => rfl
  | cons u rest =>
      have hne : u ≠ t := fun heq => h (congrArg some heq)
      simp [skip, hne]

theorem head?_ne_some {t : Token} {ts : List Token} (h : ∀ rest, ts = t :: rest → False) :
    ts.head? ≠ some t := by
  intro ht
  obtain ⟨rest, rfl⟩ := List.head?_eq_some_iff.mp ht
  exact h rest rfl

/-! Words. -/

theorem bare_expect_nil (t : Token) : bare (expect t) [] = .error ⟨.unexpectedEnd, []⟩ := rfl

theorem bare_expect_self (t : Token) (rest : List Token) :
    bare (expect t) (t :: rest) = .ok ((), rest) := by
  simp [bare, expect, Except.map, Phrase.toPair]

theorem bare_expect_of_ne {t u : Token} (h : u ≠ t) (rest : List Token) :
    bare (expect t) (u :: rest) = .error ⟨.expected t u, u :: rest⟩ := by
  simp [bare, expect, h, fail, Except.map]

theorem bare_identifier_nil : bare identifier [] = .error ⟨.unexpectedEnd, []⟩ := rfl

theorem bare_identifier_identifier (x : String) (rest : List Token) :
    bare identifier (.identifier x :: rest) = .ok (x, rest) := rfl

theorem bare_identifier_of_ne {t : Token} (h : ∀ x, t ≠ .identifier x) (rest : List Token) :
    bare identifier (t :: rest) = .error ⟨.expectedIdentifier t, t :: rest⟩ := by
  cases t with
  | identifier x => exact absurd rfl (h x)
  | keyword _ | punct _ | number _ | text _ => rfl

theorem bare_type : bare type = (bare identifier).andThen fun x => done ⟨x, false⟩ := by
  funext ts
  exact map_toPair_bind fun x => rfl

theorem bare_typedName :
    bare typedName = (bare identifier).andThen fun x => (bare (expect (.punct .colon))).andThen
      fun _ => (bare type).andThen fun t => done ⟨x, t⟩ := by
  funext ts
  exact map_toPair_bind fun x => map_toPair_bind fun _ => map_toPair_bind fun t => rfl

theorem bare_typedNames_nil (close : Token) :
    bare (typedNames close) [] = .error ⟨.unexpectedEnd, []⟩ := by
  rw [bare, typedNames]
  rfl

theorem bare_typedNames_close (close : Token) (rest : List Token) :
    bare (typedNames close) (close :: rest) = .ok ([], rest) := by
  rw [bare, typedNames, if_pos rfl]
  rfl

theorem bare_typedNames_of_ne {close t : Token} (h : t ≠ close) (rest : List Token) :
    bare (typedNames close) (t :: rest) =
      ((bare typedName).andThen fun x => (skipping (.punct .comma)).andThen fun _ =>
        (bare (typedNames close)).andThen fun xs => done (x :: xs)) (t :: rest) := by
  rw [bare, typedNames, if_neg h]
  refine map_toPair_bind fun x => ?_
  rw [skipping_andThen]
  exact map_toPair_bind fun xs => rfl

/-! Expressions. -/

theorem bare_expr_nil : bare expr [] = .error ⟨.unexpectedEnd, []⟩ := by
  rw [bare, expr, Labelled.expr]
  rfl

theorem bare_expr_number (n : Int) (rest : List Token) :
    bare expr (.number n :: rest) = bare (calls (.literal () (.int n))) rest := by
  rw [bare, expr, Labelled.expr]
  rfl

theorem bare_expr_text (s : String) (rest : List Token) :
    bare expr (.text s :: rest) = bare (calls (.literal () (.text s))) rest := by
  rw [bare, expr, Labelled.expr]
  rfl

theorem bare_expr_identifier (x : String) (rest : List Token) :
    bare expr (.identifier x :: rest) = bare (calls (.name () x)) rest := by
  rw [bare, expr, Labelled.expr]
  rfl

theorem bare_expr_openParen (rest : List Token) :
    bare expr (.punct .openParen :: rest) =
      ((bare expr).andThen fun e => (bare (expect (.punct .closeParen))).andThen fun _ =>
        bare (calls e)) rest := by
  rw [bare, expr, Labelled.expr]
  exact map_toPair_bind fun e => map_toPair_liftM_bind fun _ => map_toPair_widen fun _ => rfl

theorem bare_expr_of_ne {t : Token} (hnumber : ∀ n, t = .number n → False)
    (htext : ∀ s, t = .text s → False) (hidentifier : ∀ x, t = .identifier x → False)
    (hopen : t = .punct .openParen → False) (rest : List Token) :
    bare expr (t :: rest) = .error ⟨.unexpected t, t :: rest⟩ := by
  rw [bare, expr, Labelled.expr]
  · rfl
  · exact hnumber
  · exact htext
  · exact hidentifier
  · exact hopen

theorem bare_calls_openParen (e : Expr Unit) (rest : List Token) :
    bare (calls e) (.punct .openParen :: rest) =
      ((bare arguments).andThen fun args => bare (calls (.call () e args)))
        (.punct .openParen :: rest) := by
  rw [bare, calls, Labelled.calls]
  exact map_toPair_bind fun a => map_toPair_widen fun _ => rfl

theorem bare_calls_of_head?_ne {ts : List Token} (h : ts.head? ≠ some (.punct .openParen))
    (e : Expr Unit) : bare (calls e) ts = .ok (e, ts) := by
  rw [bare, calls, Labelled.calls]
  · rfl
  · rintro rest rfl
    exact h rfl

theorem bare_arguments_nil : bare arguments [] = .error ⟨.unexpectedEnd, []⟩ := by
  rw [bare, arguments, Labelled.arguments]
  rfl

theorem bare_arguments_of_ne {t : Token} (h : t ≠ .punct .openParen) (rest : List Token) :
    bare arguments (t :: rest) = .error ⟨.expected (.punct .openParen) t, t :: rest⟩ := by
  rw [bare, arguments, Labelled.arguments]
  · rfl
  · intro _ ht _
    exact h ht
  · exact h

theorem bare_arguments_closeParen (rest : List Token) :
    bare arguments (.punct .openParen :: .punct .closeParen :: rest) = .ok ([], rest) := by
  rw [bare, arguments, Labelled.arguments]
  rfl

theorem bare_arguments_of_head?_ne {rest : List Token}
    (h : rest.head? ≠ some (.punct .closeParen)) :
    bare arguments (.punct .openParen :: rest) = bare argumentList rest := by
  rw [bare, arguments, Labelled.arguments]
  · exact map_toPair_widen fun _ => rfl
  · rintro more rfl
    exact h rfl

/-- What stands behind an argument. -/
def moreArguments (e : Expr Unit) : Reader (List (Expr Unit)) := fun ts =>
  if ts.head? = some (.punct .closeParen) then .ok ([e], ts.tail)
  else
    ((bare (expect (.punct .comma))).andThen fun _ =>
      (bare argumentList).andThen fun es => done (e :: es)) ts

theorem moreArguments_closeParen (e : Expr Unit) (rest : List Token) :
    moreArguments e (.punct .closeParen :: rest) = .ok ([e], rest) := rfl

theorem moreArguments_of_head?_ne {ts : List Token} (h : ts.head? ≠ some (.punct .closeParen))
    (e : Expr Unit) :
    moreArguments e ts =
      ((bare (expect (.punct .comma))).andThen fun _ =>
        (bare argumentList).andThen fun es => done (e :: es)) ts :=
  if_neg h

theorem bare_argumentList : bare argumentList = (bare expr).andThen moreArguments := by
  funext ts
  rw [bare, argumentList, Labelled.argumentList]
  refine map_toPair_bind fun e => ?_
  simp only [moreArguments]
  split
  · rfl
  · exact map_toPair_liftM_bind fun _ => map_toPair_bind fun es => rfl

/-! Statements. -/

theorem bare_callStmt_nil : bare callStmt [] = .error ⟨.unexpectedEnd, []⟩ := rfl

theorem bare_callStmt_cons (t : Token) (rest : List Token) :
    bare callStmt (t :: rest) =
      ((bare expr).andThen fun e => if e.isCall then done (.call () e)
        else fun _ => .error ⟨.expectedCall t, t :: rest⟩) (t :: rest) := by
  refine map_toPair_bind fun e => ?_
  split <;> rfl

theorem bare_callStmt_eq_ok {ts rest : List Token} {s : Stmt Unit} :
    bare callStmt ts = .ok (s, rest) ↔
      ∃ e, bare expr ts = .ok (e, rest) ∧ e.isCall = true ∧ s = .call () e := by
  cases ts with
  | nil => simp [bare_callStmt_nil, bare_expr_nil]
  | cons t more =>
      rw [bare_callStmt_cons, andThen_eq_ok]
      constructor
      · rintro ⟨e, rest', he, hs⟩
        split at hs
        · next hcall =>
            cases hs
            exact ⟨e, he, hcall, rfl⟩
        · cases hs
      · rintro ⟨e, he, hcall, rfl⟩
        exact ⟨e, rest, he, by rw [if_pos hcall]; rfl⟩

theorem bare_callStmt_of_error {ts : List Token} {f : Failure} (h : bare expr ts = .error f) :
    bare callStmt ts = .error f := by
  cases ts with
  | nil =>
      rw [bare_expr_nil] at h
      cases h
      exact bare_callStmt_nil
  | cons t rest => rw [bare_callStmt_cons, andThen_eq_error.mpr (.inl h)]

theorem bare_expr_of_callStmt_error {ts : List Token} {f : Failure}
    (h : bare callStmt ts = .error f) :
    bare expr ts = .error f ∨ ∃ t, f.cause = .expectedCall t := by
  cases ts with
  | nil =>
      rw [bare_callStmt_nil] at h
      cases h
      exact .inl bare_expr_nil
  | cons t rest =>
      rw [bare_callStmt_cons] at h
      obtain h | ⟨e, rest', _, h⟩ := andThen_eq_error.mp h
      · exact .inl h
      · split at h
        · cases h
        · cases h
          exact .inr ⟨t, rfl⟩

theorem bare_stmt_if (rest : List Token) :
    bare stmt (.keyword .ifKw :: rest) =
      ((bare expr).andThen fun c => (bare block).andThen fun yes => (bare elseBlock).andThen
        fun no => done (.branch () c yes no)) rest := by
  rw [bare, stmt, Labelled.stmt]
  exact map_toPair_bind fun c => map_toPair_bind fun yes => map_toPair_bind fun no => rfl

theorem bare_stmt_for (rest : List Token) :
    bare stmt (.keyword .forKw :: rest) =
      ((bare expr).andThen fun c => (bare block).andThen fun body => done (.loop () c body))
        rest := by
  rw [bare, stmt, Labelled.stmt]
  exact map_toPair_bind fun c => map_toPair_bind fun body => rfl

theorem bare_stmt_return_none {rest : List Token}
    (h : ∀ t, rest.head? = some t → t.endsStatement = true) :
    bare stmt (.keyword .returnKw :: rest) = .ok (.leave () none, rest) := by
  rw [bare, stmt, Labelled.stmt]
  cases rest with
  | nil => rfl
  | cons t rest =>
      rw [Labelled.leaveValue, if_pos (h t rfl)]
      rfl

theorem bare_stmt_return_some {t : Token} {rest : List Token} (ht : rest.head? = some t)
    (h : ¬ t.endsStatement = true) :
    bare stmt (.keyword .returnKw :: rest) =
      ((bare expr).andThen fun e => done (.leave () (some e))) rest := by
  obtain ⟨more, rfl⟩ := List.head?_eq_some_iff.mp ht
  rw [bare, stmt, Labelled.stmt, Labelled.leaveValue, if_neg h, bind_assoc]
  exact map_toPair_bind fun e => rfl

theorem bare_stmt_binding {mark : Token} (h : mark.isBindingMark = true) (x : String)
    (rest : List Token) :
    bare stmt (.identifier x :: mark :: rest) =
      ((bare expr).andThen fun e => done (bindingStmt () x mark e)) rest := by
  rw [bare, stmt, Labelled.stmt, if_pos h]
  exact map_toPair_bind fun e => rfl

/-! Any other statement is an expression. -/

theorem bare_stmt_identifier {rest : List Token}
    (h : ∀ mark, rest.head? = some mark → ¬ mark.isBindingMark = true) (x : String) :
    bare stmt (.identifier x :: rest) = bare callStmt (.identifier x :: rest) := by
  rw [bare, bare, stmt]
  cases rest with
  | nil =>
      rw [Labelled.stmt, callStmt]
      · rintro rest ⟨⟩
      · rintro rest ⟨⟩
      · rintro rest ⟨⟩
      · rintro y mark rest ⟨⟩
  | cons mark rest => rw [Labelled.stmt, if_neg (h mark rfl), callStmt]

theorem bare_stmt_of_head?_ne {ts : List Token} (hif : ts.head? ≠ some (.keyword .ifKw))
    (hfor : ts.head? ≠ some (.keyword .forKw)) (hreturn : ts.head? ≠ some (.keyword .returnKw))
    (hidentifier : ∀ x, ts.head? ≠ some (.identifier x)) :
    bare stmt ts = bare callStmt ts := by
  rw [bare, bare, stmt, Labelled.stmt, callStmt]
  · rintro rest rfl
    exact hif rfl
  · rintro rest rfl
    exact hfor rfl
  · rintro rest rfl
    exact hreturn rfl
  · rintro x mark rest rfl
    exact hidentifier x rfl

theorem bare_elseBlock_chain {rest : List Token} (h : rest.head? = some (.keyword .ifKw)) :
    bare elseBlock (.keyword .elseKw :: rest) =
      ((bare stmt).andThen fun s => done (some [s])) rest := by
  obtain ⟨more, rfl⟩ := List.head?_eq_some_iff.mp h
  rw [bare, elseBlock, Labelled.elseBlock]
  exact map_toPair_bind fun s => rfl

theorem bare_elseBlock_block {rest : List Token} (h : rest.head? ≠ some (.keyword .ifKw)) :
    bare elseBlock (.keyword .elseKw :: rest) =
      ((bare block).andThen fun b => done (some b)) rest := by
  rw [bare, elseBlock, Labelled.elseBlock]
  · exact map_toPair_bind fun b => rfl
  · rintro more rfl
    exact h rfl

theorem bare_elseBlock_of_head?_ne {ts : List Token} (h : ts.head? ≠ some (.keyword .elseKw)) :
    bare elseBlock ts = .ok (none, ts) := by
  rw [bare, elseBlock, Labelled.elseBlock]
  · rfl
  · rintro rest rfl
    exact h rfl
  · rintro rest rfl
    exact h rfl

theorem bare_block_nil : bare block [] = .error ⟨.unexpectedEnd, []⟩ := by
  rw [bare, block, Labelled.block]
  rfl

theorem bare_block_openBrace (rest : List Token) :
    bare block (.punct .openBrace :: rest) = bare stmts rest := by
  rw [bare, block, Labelled.block]
  exact map_toPair_widen fun _ => rfl

theorem bare_block_of_ne {t : Token} (h : t ≠ .punct .openBrace) (rest : List Token) :
    bare block (t :: rest) = .error ⟨.expected (.punct .openBrace) t, t :: rest⟩ := by
  rw [bare, block, Labelled.block]
  · rfl
  · exact h

theorem bare_stmts_closeBrace (rest : List Token) :
    bare stmts (.punct .closeBrace :: rest) = .ok ([], rest) := by
  rw [bare, stmts, Labelled.stmts]
  rfl

theorem bare_stmts_of_head?_ne {ts : List Token} (h : ts.head? ≠ some (.punct .closeBrace)) :
    bare stmts ts =
      ((bare stmt).andThen fun s => (skipping (.punct .semicolon)).andThen fun _ =>
        (bare stmts).andThen fun ss => done (s :: ss)) ts := by
  rw [bare, stmts, Labelled.stmts]
  · refine map_toPair_bind fun s => ?_
    rw [skipping_andThen]
    exact map_toPair_bind fun ss => rfl
  · rintro rest rfl
    exact h rfl

/-! Declarations. -/

theorem bare_resultType_arrow (rest : List Token) :
    bare resultType (.punct .arrow :: rest) =
      ((bare type).andThen fun t => done (some t)) rest := by
  exact map_toPair_bind fun t => rfl

theorem bare_resultType_of_head?_ne {ts : List Token} (h : ts.head? ≠ some (.punct .arrow)) :
    bare resultType ts = .ok (none, ts) := by
  rw [bare, resultType]
  · rfl
  · rintro rest rfl
    exact h rfl

theorem bare_function :
    bare function = (bare identifier).andThen fun x =>
      (bare (expect (.punct .openParen))).andThen fun _ =>
      (bare (typedNames (.punct .closeParen))).andThen fun params =>
      (bare resultType).andThen fun result =>
      (bare block).andThen fun body => done ⟨x, params, result, body⟩ := by
  funext ts
  exact map_toPair_liftM_bind fun x => map_toPair_liftM_bind fun _ =>
    map_toPair_liftM_bind fun params => map_toPair_liftM_bind fun result =>
      map_toPair_bind fun body => rfl

theorem bare_struct :
    bare struct = (bare identifier).andThen fun x =>
      (bare (expect (.punct .openBrace))).andThen fun _ =>
      (bare (typedNames (.punct .closeBrace))).andThen fun fields => done ⟨x, fields⟩ := by
  funext ts
  exact map_toPair_bind fun x => map_toPair_bind fun _ => map_toPair_bind fun fields => rfl

theorem bare_constant :
    bare constant = (bare typedName).andThen fun x =>
      (bare (expect (.punct .assign))).andThen fun _ =>
      (bare expr).andThen fun e =>
      (skipping (.punct .semicolon)).andThen fun _ => done ⟨x.name, x.type, e⟩ := by
  funext ts
  exact map_toPair_liftM_bind fun x => map_toPair_liftM_bind fun _ => map_toPair_bind fun e => rfl

theorem bare_decl_func (rest : List Token) :
    bare decl (.keyword .funcKw :: rest) =
      ((bare function).andThen fun f => done (.function f)) rest := by
  exact map_toPair_bind fun f => rfl

theorem bare_decl_struct (rest : List Token) :
    bare decl (.keyword .structKw :: rest) =
      ((bare struct).andThen fun s => done (.struct s)) rest := by
  exact map_toPair_liftM_bind fun s => rfl

theorem bare_decl_const (rest : List Token) :
    bare decl (.keyword .constKw :: rest) =
      ((bare constant).andThen fun c => done (.constant c)) rest := by
  exact map_toPair_bind fun c => rfl

theorem bare_decl_other {t : Token} (hfunc : t ≠ .keyword .funcKw)
    (hstruct : t ≠ .keyword .structKw) (hconst : t ≠ .keyword .constKw) (rest : List Token) :
    bare decl (t :: rest) = .error ⟨.expectedDeclaration t, t :: rest⟩ := by
  rw [bare, decl, Labelled.decl]
  · rfl
  · exact hfunc
  · exact hstruct
  · exact hconst

theorem bare_imports_import (rest : List Token) :
    bare imports (.keyword .importKw :: rest) =
      ((bare identifier).andThen fun x => (skipping (.punct .semicolon)).andThen fun _ =>
        (bare imports).andThen fun xs => done (x :: xs)) rest := by
  rw [bare, imports]
  refine map_toPair_bind fun x => ?_
  rw [skipping_andThen]
  exact map_toPair_bind fun xs => rfl

theorem bare_imports_of_head?_ne {ts : List Token} (h : ts.head? ≠ some (.keyword .importKw)) :
    bare imports ts = .ok ([], ts) := by
  rw [bare, imports]
  · rfl
  · rintro rest rfl
    exact h rfl

/-! Whole inputs. What reads to the end of the input leaves nothing. -/

def toEnd {α : Type} (r : List Token → Except Failure α) : Reader α :=
  fun ts => (r ts).map fun a => (a, [])

theorem toEnd_eq_ok {α : Type} {r : List Token → Except Failure α} {ts rest : List Token} {a : α} :
    toEnd r ts = .ok (a, rest) ↔ r ts = .ok a ∧ rest = [] := by
  rw [toEnd]
  cases r ts <;> simp [Except.map, eq_comm]

theorem toEnd_eq_error {α : Type} {r : List Token → Except Failure α} {ts : List Token}
    {f : Failure} : toEnd r ts = .error f ↔ r ts = .error f := by
  rw [toEnd]
  cases r ts <;> simp [Except.map]

theorem toEnd_decls_nil : toEnd decls [] = .ok ([], []) := by
  rw [toEnd, decls, Labelled.decls]
  rfl

theorem toEnd_decls_cons (t : Token) (rest : List Token) :
    toEnd decls (t :: rest) =
      ((bare decl).andThen fun d => (toEnd decls).andThen fun ds => done (d :: ds))
        (t :: rest) := by
  rw [toEnd, decls, Labelled.decls]
  exact map_bind_eq fun d => map_bind_eq fun ds => rfl

theorem toEnd_wholeModule :
    toEnd wholeModule = (bare imports).andThen fun names => (toEnd decls).andThen fun ds =>
      done ⟨names, ds⟩ := by
  funext ts
  exact map_bind_eq fun names => map_bind_eq fun ds => rfl

end Read
end Mis
