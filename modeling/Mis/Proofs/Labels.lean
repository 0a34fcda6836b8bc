import Mis.Proofs.Reader
import Mis.Tree.Parser

/-!
Numbers as labels. Reading with a counter gives a node the number that is free
when all of it is read, so it comes to the same as reading a tree with empty
labels and numbering that in post-order: the parts of a node in source order,
then the node. What is proved of trees with empty labels carries over to the
modules of the parser.
-/
namespace Mis

/-! Numbering a tree. Each function takes the next free number and gives back the one that is free
after it. -/

section Number

variable {ι : Type}

mutual

def Expr.number : Expr ι → Nat → Expr NodeId × Nat
  | .literal _ v, n => (.literal n v, n + 1)
  | .name _ x, n => (.name n x, n + 1)
  | .call _ callee args, n =>
    let (callee, n) := Expr.number callee n
    let (args, n) := Expr.numberAll args n
    (.call n callee args, n + 1)

def Expr.numberAll : List (Expr ι) → Nat → List (Expr NodeId) × Nat
  | [], n => ([], n)
  | e :: es, n =>
    let (e, n) := Expr.number e n
    let (es, n) := Expr.numberAll es n
    (e :: es, n)

end

mutual

def Stmt.number : Stmt ι → Nat → Stmt NodeId × Nat
  | .declare _ b x e, n =>
    let (e, n) := e.number n
    (.declare n b x e, n + 1)
  | .assign _ x e, n =>
    let (e, n) := e.number n
    (.assign n x e, n + 1)
  | .branch _ c yes none, n =>
    let (c, n) := c.number n
    let (yes, n) := Stmt.numberAll yes n
    (.branch n c yes none, n + 1)
  | .branch _ c yes (some no), n =>
    let (c, n) := c.number n
    let (yes, n) := Stmt.numberAll yes n
    let (no, n) := Stmt.numberAll no n
    (.branch n c yes (some no), n + 1)
  | .loop _ c body, n =>
    let (c, n) := c.number n
    let (body, n) := Stmt.numberAll body n
    (.loop n c body, n + 1)
  | .leave _ none, n => (.leave n none, n + 1)
  | .leave _ (some e), n =>
    let (e, n) := e.number n
    (.leave n (some e), n + 1)
  | .call _ e, n =>
    let (e, n) := e.number n
    (.call n e, n + 1)

def Stmt.numberAll : List (Stmt ι) → Nat → List (Stmt NodeId) × Nat
  | [], n => ([], n)
  | s :: ss, n =>
    let (s, n) := Stmt.number s n
    let (ss, n) := Stmt.numberAll ss n
    (s :: ss, n)

end

def Decl.number : Decl ι → Nat → Decl NodeId × Nat
  | .function f, n =>
    let (body, n) := Stmt.numberAll f.body n
    (.function ⟨f.name, f.params, f.result, body⟩, n)
  | .struct s, n => (.struct s, n)
  | .constant c, n =>
    let (init, n) := c.init.number n
    (.constant ⟨c.name, c.type, init⟩, n)

def Decl.numberAll : List (Decl ι) → Nat → List (Decl NodeId) × Nat
  | [], n => ([], n)
  | d :: ds, n =>
    let (d, n) := d.number n
    let (ds, n) := Decl.numberAll ds n
    (d :: ds, n)

def Module.number (m : Module ι) : Module NodeId :=
  ⟨m.imports, (Decl.numberAll m.decls 0).1⟩

end Number

/-- Numbers what is there, if it is. -/
def numberOption {α β : Type} (number : α → Nat → β × Nat) : Option α → Nat → Option β × Nat
  | none, n => (none, n)
  | some a, n => (some (number a n).1, (number a n).2)

theorem Expr.isCall_number {ι : Type} (e : Expr ι) (n : Nat) :
    (e.number n).1.isCall = e.isCall := by
  cases e with
  | literal _ _ | name _ _ | call _ _ _ => rfl

theorem Stmt.number_branch {ι : Type} (i : ι) (c : Expr ι) (yes : List (Stmt ι))
    (no : Option (List (Stmt ι))) (n : Nat) :
    (Stmt.branch i c yes no).number n =
      (let (c, n) := c.number n
       let (yes, n) := Stmt.numberAll yes n
       let (no, n) := numberOption Stmt.numberAll no n
       (.branch n c yes no, n + 1)) := by
  cases no with
  | none | some no => rfl

theorem Stmt.number_leave {ι : Type} (i : ι) (e : Option (Expr ι)) (n : Nat) :
    (Stmt.leave i e).number n =
      (let (e, n) := numberOption Expr.number e n
       (.leave n e, n + 1)) := by
  cases e with
  | none | some e => rfl

theorem Read.number_bindingStmt (x : String) (mark : Token) (e : Expr Unit) (n : Nat) :
    (bindingStmt () x mark e).number n =
      (bindingStmt (e.number n).2 x mark (e.number n).1, (e.number n).2 + 1) := by
  unfold bindingStmt
  split <;> rfl

/-! Reading with a counter. -/

/-- The phrase with its value numbered from `n` on, and the number that is free then. -/
def Phrase.numbered {α β : Type} {bound : Nat} (number : α → Nat → β × Nat) (n : Nat)
    (p : Phrase α bound) : Phrase β bound × Nat :=
  (⟨(number p.value n).1, p.rest, p.shorter⟩, (number p.value n).2)

section Counting

variable {α β γ δ : Type} {n : Nat}

theorem run_fresh_bind {f : NodeId → Counting β} {g : Unit → Except Failure γ} {out : γ → β × Nat}
    (h : (f n).run (n + 1) = (g ()).map out) :
    (freshId >>= f).run n = (Read.unlabelled >>= g).map out := h

theorem run_liftM_bind {x : Except Failure α} {f : α → Counting β} {g : α → Except Failure γ}
    {out : γ → β × Nat} (h : ∀ a, (f a).run n = (g a).map out) :
    ((liftM x : Counting α) >>= f).run n = ((liftM x : Except Failure α) >>= g).map out := by
  cases x with
  | error e => rfl
  | ok a => exact h a

/-- Both readers go on behind what they have read, the one with the numbers that the other lacks. -/
theorem run_bind_of_map {k : Nat} {number : α → β × Nat} {x : Counting β} {y : Except Failure α}
    (hx : x.run k = y.map number) {f : β → Counting γ} {g : α → Except Failure δ}
    {out : δ → γ × Nat} (h : ∀ a, (f (number a).1).run (number a).2 = (g a).map out) :
    (x >>= f).run k = (y >>= g).map out := by
  rw [StateT.run_bind, hx]
  cases y with
  | error e => rfl
  | ok a => exact h a

theorem run_bind {bound k : Nat} {number : α → Nat → β × Nat} {x : Counting (Phrase β bound)}
    {y : Except Failure (Phrase α bound)} (hx : x.run k = y.map (Phrase.numbered number n))
    {f : Phrase β bound → Counting γ} {g : Phrase α bound → Except Failure δ} {out : δ → γ × Nat}
    (h : ∀ p : Phrase α bound,
      (f ⟨(number p.value n).1, p.rest, p.shorter⟩).run (number p.value n).2 = (g p).map out) :
    (x >>= f).run k = (y >>= g).map out :=
  run_bind_of_map hx h

end Counting

namespace Read

theorem run_expr_counting :
    (∀ ts n, (Labelled.expr freshId ts).run n = (expr ts).map (Phrase.numbered Expr.number n)) ∧
    (∀ e ts n, (Labelled.calls freshId (e.number n).1 ts).run (e.number n).2 =
      (calls e ts).map (Phrase.numbered Expr.number n)) ∧
    (∀ ts n, (Labelled.arguments freshId ts).run n =
      (arguments ts).map (Phrase.numbered Expr.numberAll n)) ∧
    ∀ ts n, (Labelled.argumentList freshId ts).run n =
      (argumentList ts).map (Phrase.numbered Expr.numberAll n) := by
  apply Labelled.expr.mutual_induct (ι := Unit)
  case case1 =>
    intro n
    rw [expr, Labelled.expr, Labelled.expr]
    rfl
  case case2 =>
    intro k rest h n
    rw [expr, Labelled.expr, Labelled.expr]
    exact run_fresh_bind (h () n)
  case case3 =>
    intro s rest h n
    rw [expr, Labelled.expr, Labelled.expr]
    exact run_fresh_bind (h () n)
  case case4 =>
    intro x rest h n
    rw [expr, Labelled.expr, Labelled.expr]
    exact run_fresh_bind (h () n)
  case case5 =>
    intro rest he hcalls n
    rw [expr, Labelled.expr, Labelled.expr]
    refine run_bind (he n) fun e => run_liftM_bind fun close => ?_
    exact run_bind (hcalls e close n) fun p => rfl
  case case6 =>
    intro t rest hnumber htext hidentifier hopen n
    rw [expr, Labelled.expr, Labelled.expr]
    · rfl
    all_goals assumption
  case case7 =>
    intro e rest hargs hcalls n
    rw [calls, Labelled.calls, Labelled.calls]
    refine run_bind (hargs _) fun args => run_fresh_bind ?_
    exact run_bind (hcalls args () n) fun p => rfl
  case case8 =>
    intro e ts hopen n
    rw [calls, Labelled.calls, Labelled.calls]
    · rfl
    all_goals assumption
  case case9 =>
    intro rest n
    rw [arguments, Labelled.arguments, Labelled.arguments]
    rfl
  case case10 =>
    intro rest hclose h n
    rw [arguments, Labelled.arguments, Labelled.arguments]
    · exact run_bind (h n) fun p => rfl
    all_goals assumption
  case case11 =>
    intro t rest hempty hopen n
    rw [arguments, Labelled.arguments, Labelled.arguments]
    · rfl
    all_goals assumption
  case case12 =>
    intro n
    rw [arguments, Labelled.arguments, Labelled.arguments]
    rfl
  case case13 =>
    intro ts he hmore n
    rw [argumentList, Labelled.argumentList, Labelled.argumentList]
    refine run_bind (he n) fun e => ?_
    split
    · rfl
    · refine run_liftM_bind fun comma => ?_
      exact run_bind (hmore e comma _) fun p => rfl

theorem run_leaveValue_counting (ts : List Token) (n : Nat) :
    (Labelled.leaveValue freshId ts).run n =
      (leaveValue ts).map (Phrase.numbered (numberOption Expr.number) n) := by
  cases ts with
  | nil => rfl
  | cons t rest =>
      rw [leaveValue, Labelled.leaveValue, Labelled.leaveValue]
      split
      · rfl
      · exact run_bind (run_expr_counting.1 _ n) fun e => rfl

theorem run_callStmt_counting (ts : List Token) (n : Nat) :
    (Labelled.callStmt freshId ts).run n =
      (callStmt ts).map (Phrase.numbered Stmt.number n) := by
  cases ts with
  | nil => rfl
  | cons t rest =>
      refine run_bind (run_expr_counting.1 _ n) fun e => ?_
      rw [Expr.isCall_number]
      split
      · exact run_fresh_bind rfl
      · rfl

theorem run_stmt_counting :
    (∀ ts n, (Labelled.stmt freshId ts).run n = (stmt ts).map (Phrase.numbered Stmt.number n)) ∧
    (∀ ts n, (Labelled.elseBlock freshId ts).run n =
      (elseBlock ts).map (Phrase.numbered (numberOption Stmt.numberAll) n)) ∧
    (∀ ts n, (Labelled.block freshId ts).run n =
      (block ts).map (Phrase.numbered Stmt.numberAll n)) ∧
    ∀ ts n, (Labelled.stmts freshId ts).run n =
      (stmts ts).map (Phrase.numbered Stmt.numberAll n) := by
  apply Labelled.stmt.mutual_induct (ι := Unit)
  case case1 =>
    intro rest hyes hno n
    rw [stmt, Labelled.stmt, Labelled.stmt]
    refine run_bind (run_expr_counting.1 rest n) fun c => ?_
    refine run_bind (hyes c _) fun yes => ?_
    refine run_bind (hno c yes _) fun no => run_fresh_bind ?_
    change _ = Except.ok (Phrase.numbered Stmt.number n _)
    rw [Phrase.numbered, Stmt.number_branch]
    rfl
  case case2 =>
    intro rest hbody n
    rw [stmt, Labelled.stmt, Labelled.stmt]
    refine run_bind (run_expr_counting.1 rest n) fun c => ?_
    exact run_bind (hbody c _) fun body => run_fresh_bind rfl
  case case3 =>
    intro rest n
    rw [stmt, Labelled.stmt, Labelled.stmt]
    refine run_bind (run_leaveValue_counting rest n) fun e => run_fresh_bind ?_
    change _ = Except.ok (Phrase.numbered Stmt.number n _)
    rw [Phrase.numbered, Stmt.number_leave]
    rfl
  case case4 =>
    intro x mark rest hmark n
    rw [stmt, Labelled.stmt, Labelled.stmt, if_pos hmark, if_pos hmark]
    refine run_bind (run_expr_counting.1 rest n) fun e => run_fresh_bind ?_
    change _ = Except.ok (Phrase.numbered Stmt.number n _)
    rw [Phrase.numbered, number_bindingStmt]
    rfl
  case case5 =>
    intro x mark rest hmark n
    rw [stmt, Labelled.stmt, Labelled.stmt, if_neg hmark, if_neg hmark]
    exact run_callStmt_counting _ n
  case case6 =>
    intro ts hif hfor hreturn hmarked n
    rw [stmt, Labelled.stmt, Labelled.stmt]
    · exact run_callStmt_counting ts n
    all_goals assumption
  case case7 =>
    intro rest h n
    rw [elseBlock, Labelled.elseBlock, Labelled.elseBlock]
    exact run_bind (h n) fun s => rfl
  case case8 =>
    intro rest hif h n
    rw [elseBlock, Labelled.elseBlock, Labelled.elseBlock]
    · exact run_bind (h n) fun b => rfl
    all_goals assumption
  case case9 =>
    intro ts hchain helse n
    rw [elseBlock, Labelled.elseBlock, Labelled.elseBlock]
    · rfl
    all_goals assumption
  case case10 =>
    intro rest h n
    rw [block, Labelled.block, Labelled.block]
    exact run_bind (h n) fun b => rfl
  case case11 =>
    intro t rest hopen n
    rw [block, Labelled.block, Labelled.block]
    · rfl
    all_goals assumption
  case case12 =>
    intro n
    rw [block, Labelled.block, Labelled.block]
    rfl
  case case13 =>
    intro rest n
    rw [stmts, Labelled.stmts, Labelled.stmts]
    rfl
  case case14 =>
    intro ts hclose hs hmore n
    rw [stmts, Labelled.stmts, Labelled.stmts]
    · refine run_bind (hs n) fun s => ?_
      exact run_bind (hmore s _) fun ss => rfl
    all_goals assumption

theorem run_function_counting (ts : List Token) (n : Nat) :
    (Labelled.function freshId ts).run n =
      (function ts).map (Phrase.numbered (fun f n =>
        (⟨f.name, f.params, f.result, (Stmt.numberAll f.body n).1⟩,
          (Stmt.numberAll f.body n).2)) n) := by
  refine run_liftM_bind fun x => run_liftM_bind fun start => run_liftM_bind fun params =>
    run_liftM_bind fun result => ?_
  exact run_bind (run_stmt_counting.2.2.1 _ n) fun body => rfl

theorem run_constant_counting (ts : List Token) (n : Nat) :
    (Labelled.constant freshId ts).run n =
      (constant ts).map (Phrase.numbered (fun c n =>
        (⟨c.name, c.type, (c.init.number n).1⟩, (c.init.number n).2)) n) := by
  refine run_liftM_bind fun x => run_liftM_bind fun mark => ?_
  exact run_bind (run_expr_counting.1 _ n) fun e => rfl

theorem run_decl_counting (ts : List Token) (n : Nat) :
    (Labelled.decl freshId ts).run n = (decl ts).map (Phrase.numbered Decl.number n) := by
  rw [decl]
  fun_cases Labelled.decl freshId ts with
  | case1 => rfl
  | case2 rest => exact run_bind (run_function_counting rest n) fun f => rfl
  | case3 rest => exact run_liftM_bind fun s => rfl
  | case4 rest => exact run_bind (run_constant_counting rest n) fun c => rfl
  | case5 t rest hfunc hstruct hconst =>
      rw [Labelled.decl, Labelled.decl]
      · rfl
      all_goals assumption

theorem run_decls_counting (ts : List Token) (n : Nat) :
    (Labelled.decls freshId ts).run n = (decls ts).map (Decl.numberAll · n) := by
  induction ts using Labelled.decls.induct (ι := Unit) generalizing n with
  | case1 =>
      rw [decls, Labelled.decls, Labelled.decls]
      rfl
  | case2 t rest ih =>
      rw [decls, Labelled.decls, Labelled.decls]
      refine run_bind (run_decl_counting _ n) fun d => ?_
      exact run_bind_of_map (ih d _) fun ds => rfl

/-- Reading a module with a counter is numbering the module that is read without one. -/
theorem run_wholeModule_counting (ts : List Token) :
    (Labelled.wholeModule freshId ts).run' 0 = (wholeModule ts).map Module.number := by
  have hrun : (Labelled.wholeModule freshId ts).run 0 =
      (wholeModule ts).map fun m => (m.number, (Decl.numberAll m.decls 0).2) :=
    run_liftM_bind fun names => run_bind_of_map (run_decls_counting _ 0) fun ds => rfl
  rw [StateT.run'_eq, hrun]
  cases wholeModule ts with
  | error f | ok m => rfl

end Read

theorem parse_eq (tokens : List (Located Token)) (source : String) :
    parse tokens source =
      match Read.wholeModule (tokens.map (·.value)) with
      | .ok m => .ok m.number
      | .error f => .error (.inSource source f.cause (f.position tokens source)) := by
  rw [parse, Read.run_wholeModule_counting]
  cases Read.wholeModule (tokens.map (·.value)) with
  | error f | ok m => rfl

end Mis
