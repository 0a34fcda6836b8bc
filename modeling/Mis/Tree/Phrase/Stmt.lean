import Mis.Tree.Phrase.Expr

/-!
Statements and blocks. A statement may have a semicolon behind it. It gets its
label behind its parts.
-/
namespace Mis.Read

/-- The statement that a mark between a name and a value makes. -/
def bindingStmt {ι : Type} (i : ι) (x : String) (mark : Token) (value : Expr ι) : Stmt ι :=
  match mark with
  | .punct .define => .declare i .shared x value
  | .punct .defineOwn => .declare i .own x value
  | _ => .assign i x value

namespace Labelled

variable {m : Type → Type} [Monad m] [MonadLiftT (Except Failure) m] {ι : Type} (fresh : m ι)

/-- The value of `return`, absent before a semicolon, a closing brace and the end. -/
def leaveValue : (ts : List Token) → m (Phrase (Option (Expr ι)) (ts.length + 1))
  | [] => return .absent none []
  | t :: rest =>
    if t.endsStatement then return .absent none (t :: rest)
    else do
      let e ← expr fresh (t :: rest)
      return ⟨some e.value, e.rest, Nat.lt_succ_of_lt e.shorter⟩

/-- An expression in the place of a statement has to be a call. -/
def callStmt : (ts : List Token) → m (Phrase (Stmt ι) ts.length)
  | [] => fail .unexpectedEnd []
  | t :: rest => do
    let e ← expr fresh (t :: rest)
    if e.value.isCall then
      let i ← fresh
      return ⟨.call i e.value, e.rest, e.shorter⟩
    else fail (.expectedCall t) (t :: rest)

mutual

def stmt : (ts : List Token) → m (Phrase (Stmt ι) ts.length)
  | .keyword .ifKw :: rest => do
    let c ← expr fresh rest
    let yes ← block c.rest
    let no ← elseBlock yes.rest
    let i ← fresh
    return ⟨.branch i c.value yes.value no.value, no.rest,
      Nat.lt_succ_of_lt (Nat.lt_of_lt_of_le (Nat.lt_of_lt_of_le no.shorter yes.shorter)
        (Nat.le_of_lt c.shorter))⟩
  | .keyword .forKw :: rest => do
    let c ← expr fresh rest
    let body ← block c.rest
    let i ← fresh
    return ⟨.loop i c.value body.value, body.rest,
      Nat.lt_succ_of_lt (Nat.lt_trans body.shorter c.shorter)⟩
  | .keyword .returnKw :: rest => do
    let e ← leaveValue fresh rest
    let i ← fresh
    return ⟨.leave i e.value, e.rest, e.shorter⟩
  | .identifier x :: mark :: rest =>
    if mark.isBindingMark then do
      let e ← expr fresh rest
      let i ← fresh
      return ⟨bindingStmt i x mark e.value, e.rest,
        Nat.lt_succ_of_lt (Nat.lt_succ_of_lt e.shorter)⟩
    else callStmt fresh (.identifier x :: mark :: rest)
  | ts => callStmt fresh ts
termination_by ts => 2 * ts.length
decreasing_by
  all_goals
    simp only [List.length_cons]
    have := c.shorter
  · omega
  · have := yes.shorter
    omega
  · omega

/-- What follows `else`: a block, or one more `if`, which is then all of it. -/
def elseBlock : (ts : List Token) → m (Phrase (Option (List (Stmt ι))) (ts.length + 1))
  | .keyword .elseKw :: .keyword .ifKw :: rest => do
    let s ← stmt (.keyword .ifKw :: rest)
    return ⟨some [s.value], s.rest, Nat.lt_succ_of_lt (Nat.lt_succ_of_lt s.shorter)⟩
  | .keyword .elseKw :: rest => do
    let b ← block rest
    return ⟨some b.value, b.rest, Nat.lt_succ_of_lt (Nat.lt_succ_of_lt b.shorter)⟩
  | ts => return .absent none ts
termination_by ts => 2 * ts.length
decreasing_by all_goals simp only [List.length_cons]; omega

def block : (ts : List Token) → m (Phrase (List (Stmt ι)) ts.length)
  | .punct .openBrace :: rest => do
    let b ← stmts rest
    return ⟨b.value, b.rest, Nat.lt_succ_of_lt b.shorter⟩
  | t :: rest => fail (.expected (.punct .openBrace) t) (t :: rest)
  | [] => fail .unexpectedEnd []
termination_by ts => 2 * ts.length
decreasing_by simp only [List.length_cons]; omega

/-- Statements up to the closing brace. -/
def stmts : (ts : List Token) → m (Phrase (List (Stmt ι)) ts.length)
  | .punct .closeBrace :: rest => return ⟨[], rest, Nat.lt_succ_self _⟩
  | ts => do
    let s ← stmt ts
    let more ← stmts (skip (.punct .semicolon) s.rest)
    return ⟨s.value :: more.value, more.rest,
      Nat.lt_trans more.shorter (length_skip_lt _ s.shorter)⟩
termination_by ts => 2 * ts.length + 1
decreasing_by
  · omega
  · have := length_skip_lt (.punct .semicolon) s.shorter
    omega

end

end Labelled
end Mis.Read
