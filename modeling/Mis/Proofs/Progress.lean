import Mis.Proofs.Faults
import Mis.Proofs.Labels

/-!
Progress of the readers. A phrase that is read moves the cursor on, and not past
the last token. This is why reading ends: here the readers are taken apart into
levels, where those of one level call only those of the level below and those of
the lowest level never come to an end. The rounds of a loop count as calls. From
a level on that is told by the number of tokens left, every reader comes to its
end, whatever the tokens are, and gives what the reader without levels gives.
-/
namespace Mis

open Read

/-! Cursors. -/

/-- From the token with index `p` on, what is read ends at a later index. -/
def Reader.AdvancesFrom {α : Type} (r : Reader α) (tokens : List Token) (p : Nat) : Prop :=
  ∀ a rest, r (tokens.drop p) = .ok (a, rest) →
    ∃ q, p < q ∧ q ≤ tokens.length ∧ rest = tokens.drop q

theorem length_lt_of_bare {α : Type} {bound : List Token → Nat}
    {r : (ts : List Token) → Except Failure (Phrase α (bound ts))} {ts rest : List Token} {a : α}
    (h : bare r ts = .ok (a, rest)) : rest.length < bound ts := by
  obtain ⟨p, _, rfl⟩ := exists_phrase h
  exact p.shorter

theorem Reader.advancesFrom {α : Type} {r : (ts : List Token) → Reading α ts}
    {tokens : List Token} {p : Nat} (h : (bare r).Locates (tokens.drop p)) :
    (bare r).AdvancesFrom tokens p := by
  intro a rest hread
  have hlength : rest.length < (tokens.drop p).length := length_lt_of_bare hread
  rw [List.length_drop] at hlength
  refine ⟨tokens.length - rest.length, by omega, Nat.sub_le _ _, ?_⟩
  exact List.suffix_iff_eq_drop.mp ((h.read hread).trans (List.drop_suffix p tokens))

/-- A reader with a counter that starts at `n`, without its bound and the number that is free
behind it. -/
def counted {α : Type} (r : (ts : List Token) → Counting (Phrase α ts.length)) (n : NodeId) :
    Reader α :=
  fun ts => ((r ts).run n).map fun result => result.1.toPair

/-- A counter does not change how far is read. -/
theorem Reader.AdvancesFrom.counted {α β : Type} {number : α → Nat → β × Nat}
    {r : (ts : List Token) → Counting (Phrase β ts.length)} {s : (ts : List Token) → Reading α ts}
    {tokens : List Token} {p n : Nat} (h : (bare s).AdvancesFrom tokens p)
    (hrun : ∀ ts, (r ts).run n = (s ts).map (Phrase.numbered number n)) :
    (counted r n).AdvancesFrom tokens p := by
  intro b rest hread
  rw [Mis.counted, hrun] at hread
  cases hs : s (tokens.drop p) with
  | error f =>
      rw [hs] at hread
      cases hread
  | ok phrase =>
      rw [hs] at hread
      cases hread
      refine h phrase.value phrase.rest ?_
      rw [bare, hs]
      rfl

theorem length_le_of_skipping {t : Token} {ts rest : List Token}
    (h : Reader.skipping t ts = .ok ((), rest)) : rest.length ≤ ts.length := by
  cases h
  exact length_skip_le t ts

theorem Read.locates_decl_all (ts : List Token) : (bare decl).Locates ts := by
  cases ts with
  | nil => exact .ofError rfl rfl
  | cons t rest => exact locates_decl t rest

/-! Readers that may not come to an end. -/

abbrev Attempt (α : Type) := List Token → Option (Except Failure (α × List Token))

namespace Attempt

variable {α β : Type}

def ofReader (r : Reader α) : Attempt α := fun ts => some (r ts)

def done (a : α) : Attempt α := ofReader (.done a)

def andThen (r : Attempt α) (next : α → Attempt β) : Attempt β := fun ts =>
  match r ts with
  | none => none
  | some (.error f) => some (.error f)
  | some (.ok p) => next p.1 p.2

/-- On the tokens `ts` the attempt comes to an end, with what the reader gives. -/
def Settles (r : Attempt α) (s : Reader α) (ts : List Token) : Prop := r ts = some (s ts)

namespace Settles

variable {r r' : Attempt α} {s s' : Reader α} {ts us : List Token}

theorem ofReader (s : Reader α) (ts : List Token) : (Attempt.ofReader s).Settles s ts := rfl

theorem done (a : α) (ts : List Token) : (Attempt.done a).Settles (.done a) ts := rfl

theorem andThen {next : α → Attempt β} {more : α → Reader β} (h : r.Settles s ts)
    (hnext : ∀ a rest, s ts = .ok (a, rest) → (next a).Settles (more a) rest) :
    (r.andThen next).Settles (s.andThen more) ts := by
  rw [Settles, Attempt.andThen, Reader.andThen, h]
  cases hs : s ts with
  | error f => rfl
  | ok p => exact hnext p.1 p.2 hs

end Settles
end Attempt

/-! Levels. -/

open Attempt

/-- The readers that call themselves or one another. -/
structure Level where
  expr : Attempt (Expr Unit)
  calls : Expr Unit → Attempt (Expr Unit)
  arguments : Attempt (List (Expr Unit))
  argumentList : Attempt (List (Expr Unit))
  stmt : Attempt (Stmt Unit)
  elseBlock : Attempt (Option (List (Stmt Unit)))
  block : Attempt (List (Stmt Unit))
  stmts : Attempt (List (Stmt Unit))
  typedNames : Token → Attempt (List TypedName)
  imports : Attempt (List String)
  decls : Attempt (List (Decl Unit))

namespace Level

def lowest : Level where
  expr _ := none
  calls _ _ := none
  arguments _ := none
  argumentList _ := none
  stmt _ := none
  elseBlock _ := none
  block _ := none
  stmts _ := none
  typedNames _ _ := none
  imports _ := none
  decls _ := none

variable (below : Level)

def exprAbove : Attempt (Expr Unit)
  | [] => some (.error ⟨.unexpectedEnd, []⟩)
  | .number n :: rest => below.calls (.literal () (.int n)) rest
  | .text s :: rest => below.calls (.literal () (.text s)) rest
  | .identifier x :: rest => below.calls (.name () x) rest
  | .punct .openParen :: rest =>
    (below.expr.andThen fun e =>
      (ofReader (bare (expect (.punct .closeParen)))).andThen fun _ => below.calls e) rest
  | t :: rest => some (.error ⟨.unexpected t, t :: rest⟩)

def callsAbove (e : Expr Unit) : Attempt (Expr Unit)
  | .punct .openParen :: rest =>
    (below.arguments.andThen fun args => below.calls (.call () e args)) (.punct .openParen :: rest)
  | ts => some (.ok (e, ts))

def argumentsAbove : Attempt (List (Expr Unit))
  | .punct .openParen :: .punct .closeParen :: rest => some (.ok ([], rest))
  | .punct .openParen :: rest => below.argumentList rest
  | t :: rest => some (.error ⟨.expected (.punct .openParen) t, t :: rest⟩)
  | [] => some (.error ⟨.unexpectedEnd, []⟩)

def moreArgumentsAbove (e : Expr Unit) : Attempt (List (Expr Unit)) := fun ts =>
  if ts.head? = some (.punct .closeParen) then some (.ok ([e], ts.tail))
  else
    ((ofReader (bare (expect (.punct .comma)))).andThen fun _ =>
      below.argumentList.andThen fun es => done (e :: es)) ts

def argumentListAbove : Attempt (List (Expr Unit)) :=
  below.expr.andThen below.moreArgumentsAbove

def callStmtAbove : Attempt (Stmt Unit)
  | [] => some (.error ⟨.unexpectedEnd, []⟩)
  | t :: rest =>
    (below.expr.andThen fun e =>
      ofReader (if e.isCall then .done (.call () e)
        else fun _ => .error ⟨.expectedCall t, t :: rest⟩)) (t :: rest)

def stmtAbove : Attempt (Stmt Unit)
  | .keyword .ifKw :: rest =>
    (below.expr.andThen fun c => below.block.andThen fun yes => below.elseBlock.andThen fun no =>
      done (.branch () c yes no)) rest
  | .keyword .forKw :: rest =>
    (below.expr.andThen fun c => below.block.andThen fun body => done (.loop () c body)) rest
  | .keyword .returnKw :: rest =>
    if rest.head?.all Token.endsStatement then some (.ok (.leave () none, rest))
    else (below.expr.andThen fun e => done (.leave () (some e))) rest
  | .identifier x :: mark :: rest =>
    if mark.isBindingMark then (below.expr.andThen fun e => done (bindingStmt () x mark e)) rest
    else below.callStmtAbove (.identifier x :: mark :: rest)
  | ts => below.callStmtAbove ts

def elseBlockAbove : Attempt (Option (List (Stmt Unit)))
  | .keyword .elseKw :: rest =>
    if rest.head? = some (.keyword .ifKw) then (below.stmt.andThen fun s => done (some [s])) rest
    else (below.block.andThen fun b => done (some b)) rest
  | ts => some (.ok (none, ts))

def blockAbove : Attempt (List (Stmt Unit))
  | .punct .openBrace :: rest => below.stmts rest
  | t :: rest => some (.error ⟨.expected (.punct .openBrace) t, t :: rest⟩)
  | [] => some (.error ⟨.unexpectedEnd, []⟩)

def stmtsAbove : Attempt (List (Stmt Unit))
  | .punct .closeBrace :: rest => some (.ok ([], rest))
  | ts =>
    (below.stmt.andThen fun s => (ofReader (.skipping (.punct .semicolon))).andThen fun _ =>
      below.stmts.andThen fun ss => done (s :: ss)) ts

def typedNamesAbove (close : Token) : Attempt (List TypedName)
  | [] => some (.error ⟨.unexpectedEnd, []⟩)
  | t :: rest =>
    if t = close then some (.ok ([], rest))
    else
      ((ofReader (bare typedName)).andThen fun x =>
        (ofReader (.skipping (.punct .comma))).andThen fun _ =>
        (below.typedNames close).andThen fun xs => done (x :: xs)) (t :: rest)

def importsAbove : Attempt (List String)
  | .keyword .importKw :: rest =>
    ((ofReader (bare identifier)).andThen fun x =>
      (ofReader (.skipping (.punct .semicolon))).andThen fun _ =>
      below.imports.andThen fun xs => done (x :: xs)) rest
  | ts => some (.ok ([], ts))

def functionAbove : Attempt (FunctionDecl Unit) :=
  (ofReader (bare identifier)).andThen fun x =>
  (ofReader (bare (expect (.punct .openParen)))).andThen fun _ =>
  (below.typedNames (.punct .closeParen)).andThen fun params =>
  (ofReader (bare resultType)).andThen fun result =>
  below.block.andThen fun body => done ⟨x, params, result, body⟩

def structAbove : Attempt StructDecl :=
  (ofReader (bare identifier)).andThen fun x =>
  (ofReader (bare (expect (.punct .openBrace)))).andThen fun _ =>
  (below.typedNames (.punct .closeBrace)).andThen fun fields => done ⟨x, fields⟩

def constantAbove : Attempt (ConstantDecl Unit) :=
  (ofReader (bare typedName)).andThen fun x =>
  (ofReader (bare (expect (.punct .assign)))).andThen fun _ =>
  below.expr.andThen fun e =>
  (ofReader (.skipping (.punct .semicolon))).andThen fun _ => done ⟨x.name, x.type, e⟩

def declAbove : Attempt (Decl Unit)
  | [] => some (.error ⟨.unexpectedEnd, []⟩)
  | .keyword .funcKw :: rest => (below.functionAbove.andThen fun f => done (.function f)) rest
  | .keyword .structKw :: rest => (below.structAbove.andThen fun s => done (.struct s)) rest
  | .keyword .constKw :: rest => (below.constantAbove.andThen fun c => done (.constant c)) rest
  | t :: rest => some (.error ⟨.expectedDeclaration t, t :: rest⟩)

def declsAbove : Attempt (List (Decl Unit))
  | [] => some (.ok ([], []))
  | t :: rest =>
    (below.declAbove.andThen fun d => below.decls.andThen fun ds => done (d :: ds)) (t :: rest)

def above : Level where
  expr := below.exprAbove
  calls := below.callsAbove
  arguments := below.argumentsAbove
  argumentList := below.argumentListAbove
  stmt := below.stmtAbove
  elseBlock := below.elseBlockAbove
  block := below.blockAbove
  stmts := below.stmtsAbove
  typedNames := below.typedNamesAbove
  imports := below.importsAbove
  decls := below.declsAbove

def wholeModule (level : Level) : Attempt (Module Unit) :=
  level.imports.andThen fun names => level.decls.andThen fun ds => done ⟨names, ds⟩

def nth : Nat → Level
  | 0 => lowest
  | n + 1 => (nth n).above

/-! Settled levels. -/

/-- Two levels for each token left, and one on top, bring a reader to its end. A reader that starts
with another one at the same token needs one level more than that. -/
structure SettledBelow (level : Level) (n : Nat) : Prop where
  expr : ∀ ts, 2 * ts.length < n → level.expr.Settles (bare Read.expr) ts
  calls : ∀ e ts, 2 * ts.length + 1 < n → (level.calls e).Settles (bare (Read.calls e)) ts
  arguments : ∀ ts, 2 * ts.length < n → level.arguments.Settles (bare Read.arguments) ts
  argumentList : ∀ ts, 2 * ts.length + 1 < n →
    level.argumentList.Settles (bare Read.argumentList) ts
  stmt : ∀ ts, 2 * ts.length + 1 < n → level.stmt.Settles (bare Read.stmt) ts
  elseBlock : ∀ ts, 2 * ts.length < n → level.elseBlock.Settles (bare Read.elseBlock) ts
  block : ∀ ts, 2 * ts.length + 1 < n → level.block.Settles (bare Read.block) ts
  stmts : ∀ ts, 2 * ts.length + 2 < n → level.stmts.Settles (bare Read.stmts) ts
  typedNames : ∀ close ts, 2 * ts.length < n →
    (level.typedNames close).Settles (bare (Read.typedNames close)) ts
  imports : ∀ ts, 2 * ts.length < n → level.imports.Settles (bare Read.imports) ts
  decls : ∀ ts, 2 * ts.length < n → level.decls.Settles (toEnd Read.decls) ts

theorem settledBelow_lowest : lowest.SettledBelow 0 where
  expr _ h := absurd h (Nat.not_lt_zero _)
  calls _ _ h := absurd h (Nat.not_lt_zero _)
  arguments _ h := absurd h (Nat.not_lt_zero _)
  argumentList _ h := absurd h (Nat.not_lt_zero _)
  stmt _ h := absurd h (Nat.not_lt_zero _)
  elseBlock _ h := absurd h (Nat.not_lt_zero _)
  block _ h := absurd h (Nat.not_lt_zero _)
  stmts _ h := absurd h (Nat.not_lt_zero _)
  typedNames _ _ h := absurd h (Nat.not_lt_zero _)
  imports _ h := absurd h (Nat.not_lt_zero _)
  decls _ h := absurd h (Nat.not_lt_zero _)

namespace SettledBelow

variable {below : Level} {n : Nat} {ts : List Token}

/-! Expressions. -/

theorem expr_above (h : below.SettledBelow n) (hts : 2 * ts.length < n + 1) :
    exprAbove below ts = some (bare Read.expr ts) := by
  fun_cases exprAbove below ts with
  | case1 => rw [bare_expr_nil]
  | case2 k rest =>
      rw [bare_expr_number]
      rw [List.length_cons] at hts
      exact h.calls _ rest (by omega)
  | case3 s rest =>
      rw [bare_expr_text]
      rw [List.length_cons] at hts
      exact h.calls _ rest (by omega)
  | case4 x rest =>
      rw [bare_expr_identifier]
      rw [List.length_cons] at hts
      exact h.calls _ rest (by omega)
  | case5 rest =>
      rw [bare_expr_openParen]
      rw [List.length_cons] at hts
      refine (h.expr rest (by omega)).andThen fun e behind he => ?_
      have hbehind : behind.length < rest.length := length_lt_of_bare he
      refine (Settles.ofReader _ behind).andThen fun _ more hclose => ?_
      have hmore : more.length < behind.length := length_lt_of_bare hclose
      exact h.calls e more (by omega)
  | case6 t rest hnumber htext hidentifier hopen =>
      rw [bare_expr_of_ne hnumber htext hidentifier hopen]

theorem calls_above (h : below.SettledBelow n) (e : Expr Unit) (hts : 2 * ts.length + 1 < n + 1) :
    callsAbove below e ts = some (bare (Read.calls e) ts) := by
  fun_cases callsAbove below e ts with
  | case1 rest =>
      rw [bare_calls_openParen]
      refine (h.arguments _ (by omega)).andThen fun args behind hargs => ?_
      have hbehind : behind.length < (Token.punct .openParen :: rest).length :=
        length_lt_of_bare hargs
      exact h.calls _ behind (by omega)
  | case2 ts hopen => rw [bare_calls_of_head?_ne (head?_ne_some hopen)]

theorem arguments_above (h : below.SettledBelow n) (hts : 2 * ts.length < n + 1) :
    argumentsAbove below ts = some (bare Read.arguments ts) := by
  fun_cases argumentsAbove below ts with
  | case1 rest => rw [bare_arguments_closeParen]
  | case2 rest hclose =>
      rw [bare_arguments_of_head?_ne (head?_ne_some hclose)]
      rw [List.length_cons] at hts
      exact h.argumentList rest (by omega)
  | case3 t rest hempty hopen => rw [bare_arguments_of_ne hopen]
  | case4 => rw [bare_arguments_nil]

theorem argumentList_above (h : below.SettledBelow n) (hts : 2 * ts.length + 1 < n + 1) :
    argumentListAbove below ts = some (bare Read.argumentList ts) := by
  rw [bare_argumentList]
  refine (h.expr ts (by omega)).andThen fun e behind he => ?_
  have hbehind : behind.length < ts.length := length_lt_of_bare he
  rw [Settles, moreArgumentsAbove, moreArguments]
  split
  · rfl
  · refine (Settles.ofReader _ behind).andThen fun _ more hcomma => ?_
    have hmore : more.length < behind.length := length_lt_of_bare hcomma
    exact (h.argumentList more (by omega)).andThen fun es rest _ => .done _ rest

/-! Statements. -/

theorem callStmt_above (h : below.SettledBelow n) (hts : 2 * ts.length < n) :
    callStmtAbove below ts = some (bare callStmt ts) := by
  fun_cases callStmtAbove below ts with
  | case1 => rw [bare_callStmt_nil]
  | case2 t rest =>
      rw [bare_callStmt_cons]
      exact (h.expr _ hts).andThen fun e behind _ => .ofReader _ behind

theorem stmt_above (h : below.SettledBelow n) (hts : 2 * ts.length + 1 < n + 1) :
    stmtAbove below ts = some (bare Read.stmt ts) := by
  fun_cases stmtAbove below ts with
  | case1 rest =>
      rw [bare_stmt_if]
      rw [List.length_cons] at hts
      refine (h.expr rest (by omega)).andThen fun c behind hc => ?_
      have hbehind : behind.length < rest.length := length_lt_of_bare hc
      refine (h.block behind (by omega)).andThen fun yes more hyes => ?_
      have hmore : more.length < behind.length := length_lt_of_bare hyes
      exact (h.elseBlock more (by omega)).andThen fun no rest' _ => .done _ rest'
  | case2 rest =>
      rw [bare_stmt_for]
      rw [List.length_cons] at hts
      refine (h.expr rest (by omega)).andThen fun c behind hc => ?_
      have hbehind : behind.length < rest.length := length_lt_of_bare hc
      exact (h.block behind (by omega)).andThen fun body rest' _ => .done _ rest'
  | case3 rest hends => rw [bare_stmt_return_none ((Option.all_eq_true _ _).mp hends)]
  | case4 rest hends =>
      obtain ⟨t, ht, hgoes⟩ : ∃ t, rest.head? = some t ∧ ¬ t.endsStatement = true := by
        simpa [Option.all_eq_true] using hends
      rw [bare_stmt_return_some ht hgoes]
      rw [List.length_cons] at hts
      exact (h.expr rest (by omega)).andThen fun e behind _ => .done _ behind
  | case5 x mark rest hmark =>
      rw [bare_stmt_binding hmark]
      rw [List.length_cons, List.length_cons] at hts
      exact (h.expr rest (by omega)).andThen fun e behind _ => .done _ behind
  | case6 x mark rest hmark =>
      have hnot : ∀ t, (mark :: rest).head? = some t → ¬ t.isBindingMark = true := by
        rintro t ⟨⟩
        exact hmark
      rw [bare_stmt_identifier hnot]
      exact h.callStmt_above (by omega)
  | case7 ts hif hfor hreturn hmarked =>
      rw [h.callStmt_above (by omega)]
      -- a name at the very end is read here too, though it starts as a binding does
      by_cases hx : ∃ x, ts.head? = some (.identifier x)
      · obtain ⟨x, hx⟩ := hx
        obtain ⟨rest, rfl⟩ := List.head?_eq_some_iff.mp hx
        have hnot : ∀ t, rest.head? = some t → ¬ t.isBindingMark = true := by
          intro t ht
          obtain ⟨more, rfl⟩ := List.head?_eq_some_iff.mp ht
          exact absurd rfl (hmarked x t more)
        rw [bare_stmt_identifier hnot]
      · rw [bare_stmt_of_head?_ne (head?_ne_some hif) (head?_ne_some hfor)
          (head?_ne_some hreturn) (fun x h => hx ⟨x, h⟩)]

theorem elseBlock_above (h : below.SettledBelow n) (hts : 2 * ts.length < n + 1) :
    elseBlockAbove below ts = some (bare Read.elseBlock ts) := by
  fun_cases elseBlockAbove below ts with
  | case1 rest hchain =>
      rw [bare_elseBlock_chain hchain]
      rw [List.length_cons] at hts
      exact (h.stmt rest (by omega)).andThen fun s behind _ => .done _ behind
  | case2 rest hchain =>
      rw [bare_elseBlock_block hchain]
      rw [List.length_cons] at hts
      exact (h.block rest (by omega)).andThen fun b behind _ => .done _ behind
  | case3 ts helse => rw [bare_elseBlock_of_head?_ne (head?_ne_some helse)]

theorem block_above (h : below.SettledBelow n) (hts : 2 * ts.length + 1 < n + 1) :
    blockAbove below ts = some (bare Read.block ts) := by
  fun_cases blockAbove below ts with
  | case1 rest =>
      rw [bare_block_openBrace]
      rw [List.length_cons] at hts
      exact h.stmts rest (by omega)
  | case2 t rest hopen => rw [bare_block_of_ne hopen]
  | case3 => rw [bare_block_nil]

theorem stmts_above (h : below.SettledBelow n) (hts : 2 * ts.length + 2 < n + 1) :
    stmtsAbove below ts = some (bare Read.stmts ts) := by
  fun_cases stmtsAbove below ts with
  | case1 rest => rw [bare_stmts_closeBrace]
  | case2 ts hclose =>
      rw [bare_stmts_of_head?_ne (head?_ne_some hclose)]
      refine (h.stmt ts (by omega)).andThen fun s behind hs => ?_
      have hbehind : behind.length < ts.length := length_lt_of_bare hs
      refine (Settles.ofReader _ behind).andThen fun _ more hskip => ?_
      have hmore : more.length ≤ behind.length := length_le_of_skipping hskip
      exact (h.stmts more (by omega)).andThen fun ss rest _ => .done _ rest

/-! Declarations. -/

theorem typedNames_above (h : below.SettledBelow n) (close : Token)
    (hts : 2 * ts.length < n + 1) :
    typedNamesAbove below close ts = some (bare (Read.typedNames close) ts) := by
  fun_cases typedNamesAbove below close ts with
  | case1 => rw [bare_typedNames_nil]
  | case2 rest => rw [bare_typedNames_close]
  | case3 t rest hclose =>
      rw [bare_typedNames_of_ne hclose]
      refine (Settles.ofReader _ _).andThen fun x behind hx => ?_
      have hbehind : behind.length < (t :: rest).length := length_lt_of_bare hx
      refine (Settles.ofReader _ behind).andThen fun _ more hskip => ?_
      have hmore : more.length ≤ behind.length := length_le_of_skipping hskip
      exact (h.typedNames close more (by omega)).andThen fun xs rest _ => .done _ rest

theorem imports_above (h : below.SettledBelow n) (hts : 2 * ts.length < n + 1) :
    importsAbove below ts = some (bare Read.imports ts) := by
  fun_cases importsAbove below ts with
  | case1 rest =>
      rw [bare_imports_import]
      rw [List.length_cons] at hts
      refine (Settles.ofReader _ rest).andThen fun x behind hx => ?_
      have hbehind : behind.length < rest.length := length_lt_of_bare hx
      refine (Settles.ofReader _ behind).andThen fun _ more hskip => ?_
      have hmore : more.length ≤ behind.length := length_le_of_skipping hskip
      exact (h.imports more (by omega)).andThen fun xs rest _ => .done _ rest
  | case2 ts himport => rw [bare_imports_of_head?_ne (head?_ne_some himport)]

theorem function_above (h : below.SettledBelow n) (hts : 2 * ts.length < n) :
    functionAbove below ts = some (bare function ts) := by
  rw [bare_function]
  refine (Settles.ofReader _ ts).andThen fun x us hx => ?_
  have hus : us.length < ts.length := length_lt_of_bare hx
  refine (Settles.ofReader _ us).andThen fun _ vs hopen => ?_
  have hvs : vs.length < us.length := length_lt_of_bare hopen
  refine (h.typedNames _ vs (by omega)).andThen fun params ws hparams => ?_
  have hws : ws.length < vs.length := length_lt_of_bare hparams
  refine (Settles.ofReader _ ws).andThen fun result xs hresult => ?_
  have hxs : xs.length < ws.length + 1 := length_lt_of_bare hresult
  exact (h.block xs (by omega)).andThen fun body rest _ => .done _ rest

theorem struct_above (h : below.SettledBelow n) (hts : 2 * ts.length < n) :
    structAbove below ts = some (bare struct ts) := by
  rw [bare_struct]
  refine (Settles.ofReader _ ts).andThen fun x us hx => ?_
  have hus : us.length < ts.length := length_lt_of_bare hx
  refine (Settles.ofReader _ us).andThen fun _ vs hopen => ?_
  have hvs : vs.length < us.length := length_lt_of_bare hopen
  exact (h.typedNames _ vs (by omega)).andThen fun fields rest _ => .done _ rest

theorem constant_above (h : below.SettledBelow n) (hts : 2 * ts.length < n) :
    constantAbove below ts = some (bare constant ts) := by
  rw [bare_constant]
  refine (Settles.ofReader _ ts).andThen fun x us hx => ?_
  have hus : us.length < ts.length := length_lt_of_bare hx
  refine (Settles.ofReader _ us).andThen fun _ vs hmark => ?_
  have hvs : vs.length < us.length := length_lt_of_bare hmark
  refine (h.expr vs (by omega)).andThen fun e ws _ => ?_
  exact (Settles.ofReader _ ws).andThen fun _ rest _ => .done _ rest

theorem decl_above (h : below.SettledBelow n) (hts : 2 * ts.length < n + 1) :
    declAbove below ts = some (bare decl ts) := by
  fun_cases declAbove below ts with
  | case1 => rfl
  | case2 rest =>
      rw [List.length_cons] at hts
      rw [bare_decl_func]
      have hfunction : below.functionAbove.Settles (bare function) rest :=
        h.function_above (by omega)
      exact hfunction.andThen fun f behind _ => .done _ behind
  | case3 rest =>
      rw [List.length_cons] at hts
      rw [bare_decl_struct]
      have hstruct : below.structAbove.Settles (bare struct) rest := h.struct_above (by omega)
      exact hstruct.andThen fun s behind _ => .done _ behind
  | case4 rest =>
      rw [List.length_cons] at hts
      rw [bare_decl_const]
      have hconstant : below.constantAbove.Settles (bare constant) rest :=
        h.constant_above (by omega)
      exact hconstant.andThen fun c behind _ => .done _ behind
  | case5 t rest hfunc hstruct hconst => rw [bare_decl_other hfunc hstruct hconst]

theorem decls_above (h : below.SettledBelow n) (hts : 2 * ts.length < n + 1) :
    declsAbove below ts = some (toEnd Read.decls ts) := by
  fun_cases declsAbove below ts with
  | case1 => rw [toEnd_decls_nil]
  | case2 t rest =>
      rw [toEnd_decls_cons]
      have hdecl : below.declAbove.Settles (bare decl) (t :: rest) := h.decl_above hts
      refine hdecl.andThen fun d behind hd => ?_
      have hbehind : behind.length < (t :: rest).length := length_lt_of_bare hd
      exact (h.decls behind (by omega)).andThen fun ds rest _ => .done _ rest

/-- What is read is shorter, so the level below has what every reader calls for. -/
theorem step (h : below.SettledBelow n) : below.above.SettledBelow (n + 1) where
  expr _ := h.expr_above
  calls e _ := h.calls_above e
  arguments _ := h.arguments_above
  argumentList _ := h.argumentList_above
  stmt _ := h.stmt_above
  elseBlock _ := h.elseBlock_above
  block _ := h.block_above
  stmts _ := h.stmts_above
  typedNames close _ := h.typedNames_above close
  imports _ := h.imports_above
  decls _ := h.decls_above

end SettledBelow

theorem settledBelow_nth (n : Nat) : (nth n).SettledBelow n := by
  induction n with
  | zero => exact settledBelow_lowest
  | succ n ih => exact ih.step

theorem settles_wholeModule {n : Nat} {ts : List Token} (hts : 2 * ts.length < n) :
    (nth n).wholeModule.Settles (toEnd Read.wholeModule) ts := by
  rw [toEnd_wholeModule]
  refine ((settledBelow_nth n).imports ts hts).andThen fun names behind hnames => ?_
  have hbehind : behind.length < ts.length + 1 := length_lt_of_bare hnames
  exact ((settledBelow_nth n).decls behind (by omega)).andThen fun ds rest _ => .done _ rest

end Level

/-- A phrase that is read moves the cursor on, and not past the last token, with or without a
counter. So the readers, with their loops and the calls of one another, come to an end on all
tokens: at a level above twice the number of tokens left, or just above that, each gives what the
reader without levels gives. -/
theorem Read.readers_advance_and_end (tokens : List Token) (p : Nat) :
    ((bare expr).AdvancesFrom tokens p ∧ (bare arguments).AdvancesFrom tokens p ∧
      (bare block).AdvancesFrom tokens p ∧ (bare stmt).AdvancesFrom tokens p ∧
      (bare typedName).AdvancesFrom tokens p ∧ (bare decl).AdvancesFrom tokens p) ∧
    (∀ n, (counted (Labelled.expr freshId) n).AdvancesFrom tokens p ∧
      (counted (Labelled.arguments freshId) n).AdvancesFrom tokens p ∧
      (counted (Labelled.block freshId) n).AdvancesFrom tokens p ∧
      (counted (Labelled.stmt freshId) n).AdvancesFrom tokens p ∧
      (counted (Labelled.decl freshId) n).AdvancesFrom tokens p) ∧
    (∀ n, (Level.nth n).SettledBelow n) ∧
    ∀ n, 2 * tokens.length < n →
      (Level.nth n).wholeModule.Settles (toEnd wholeModule) tokens := by
  have hexpr : (bare expr).AdvancesFrom tokens p := Reader.advancesFrom (locates_expr _)
  have harguments : (bare arguments).AdvancesFrom tokens p :=
    Reader.advancesFrom (expr_located.2.2.1 _)
  have hblock : (bare block).AdvancesFrom tokens p := Reader.advancesFrom (locates_block _)
  have hstmt : (bare stmt).AdvancesFrom tokens p := Reader.advancesFrom (stmt_located.1 _)
  have hname : (bare typedName).AdvancesFrom tokens p := Reader.advancesFrom (locates_typedName _)
  have hdecl : (bare decl).AdvancesFrom tokens p := Reader.advancesFrom (locates_decl_all _)
  refine ⟨⟨hexpr, harguments, hblock, hstmt, hname, hdecl⟩, fun n => ⟨?_, ?_, ?_, ?_, ?_⟩,
    Level.settledBelow_nth, fun n => Level.settles_wholeModule⟩
  · exact hexpr.counted fun ts => run_expr_counting.1 ts n
  · exact harguments.counted fun ts => run_expr_counting.2.2.1 ts n
  · exact hblock.counted fun ts => run_stmt_counting.2.2.1 ts n
  · exact hstmt.counted fun ts => run_stmt_counting.1 ts n
  · exact hdecl.counted fun ts => run_decl_counting ts n

/-- The tokens `( 1` have no closing parenthesis. The level has to be high enough to tell. -/
example :
    (Level.nth 2).expr [.punct .openParen, .number 1] = none ∧
      (Level.nth 3).expr [.punct .openParen, .number 1] =
        some (.error ⟨.unexpectedEnd, []⟩) := by
  constructor
  · rfl
  · rfl

end Mis
