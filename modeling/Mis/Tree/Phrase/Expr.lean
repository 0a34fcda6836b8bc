import Mis.Tree.Phrase

/-!
Expressions: a literal, a name or an expression in parentheses, and behind it
any number of argument lists. A node gets its label once all of it is read, and
parentheses get none. Where labels come from is left open: `fresh` gives the next.
-/
namespace Mis.Read.Labelled

variable {m : Type → Type} [Monad m] [MonadLiftT (Except Failure) m] {ι : Type} (fresh : m ι)

mutual

def expr : (ts : List Token) → m (Phrase (Expr ι) ts.length)
  | [] => fail .unexpectedEnd []
  | .number n :: rest => do
    let i ← fresh
    calls (.literal i (.int n)) rest
  | .text s :: rest => do
    let i ← fresh
    calls (.literal i (.text s)) rest
  | .identifier x :: rest => do
    let i ← fresh
    calls (.name i x) rest
  | .punct .openParen :: rest => do
    let e ← expr rest
    let close ← expect (.punct .closeParen) e.rest
    let p ← calls e.value close.rest
    return ⟨p.value, p.rest, by
      have := e.shorter
      have := close.shorter
      have := p.shorter
      simp only [List.length_cons]
      omega⟩
  | t :: rest => fail (.unexpected t) (t :: rest)
termination_by ts => 2 * ts.length
decreasing_by
  all_goals simp only [List.length_cons]
  · omega
  · omega
  · omega
  · omega
  · have := e.shorter
    have := close.shorter
    omega

/-- Argument lists behind an expression, each a call of what stands before it. -/
def calls (e : Expr ι) : (ts : List Token) → m (Phrase (Expr ι) (ts.length + 1))
  | .punct .openParen :: rest => do
    let a ← arguments (.punct .openParen :: rest)
    let i ← fresh
    let p ← calls (.call i e a.value) a.rest
    return ⟨p.value, p.rest, by
      have := a.shorter
      have := p.shorter
      omega⟩
  | ts => return .absent e ts
termination_by ts => 2 * ts.length + 1
decreasing_by
  · omega
  · have := a.shorter
    omega

def arguments : (ts : List Token) → m (Phrase (List (Expr ι)) ts.length)
  | .punct .openParen :: .punct .closeParen :: rest =>
    return ⟨[], rest, by simp only [List.length_cons]; omega⟩
  | .punct .openParen :: rest => do
    let a ← argumentList rest
    return ⟨a.value, a.rest, Nat.lt_succ_of_lt a.shorter⟩
  | t :: rest => fail (.expected (.punct .openParen) t) (t :: rest)
  | [] => fail .unexpectedEnd []
termination_by ts => 2 * ts.length
decreasing_by simp only [List.length_cons]; omega

/-- Arguments up to the closing parenthesis, at least one. -/
def argumentList (ts : List Token) : m (Phrase (List (Expr ι)) ts.length) := do
  let e ← expr ts
  if e.rest.head? = some (.punct .closeParen) then
    return ⟨[e.value], e.rest.tail, by
      have := e.shorter
      rw [List.length_tail]
      omega⟩
  else
    let comma ← expect (.punct .comma) e.rest
    let more ← argumentList comma.rest
    return ⟨e.value :: more.value, more.rest,
      Nat.lt_trans (Nat.lt_trans more.shorter comma.shorter) e.shorter⟩
termination_by 2 * ts.length + 1
decreasing_by
  · omega
  · have := e.shorter
    have := comma.shorter
    omega

end

end Mis.Read.Labelled
