import Mis.Token
import Mis.Tree

/-!
Reading phrases of the language from tokens. A phrase that is read leaves fewer
tokens than it was given, and the result carries the proof, so readers that call
one another need no other bound. A failure keeps the tokens from the one at fault
on; at the end of the input there are none.
-/
namespace Mis

inductive ParseCause where
  | expected (wanted got : Token)
  | expectedIdentifier (got : Token)
  | unexpected (got : Token)
  | expectedDeclaration (got : Token)
  | expectedCall (first : Token)
  | unexpectedEnd
deriving DecidableEq, Repr

def ParseCause.message : ParseCause → String
  | .expected wanted got => "unexpected token " ++ got.describe ++ ", expected " ++ wanted.describe
  | .expectedIdentifier got => "unexpected token " ++ got.describe ++ ", expected identifier"
  | .unexpected got => "unexpected token " ++ got.describe
  | .expectedDeclaration got =>
    "unexpected token " ++ got.describe ++ ", expected a declaration"
  | .expectedCall first =>
    "unexpected token " ++ first.describe ++ ", only calls can be used as statements"
  | .unexpectedEnd => "unexpected end of input"

/-- Why reading stopped, and the tokens from the one at fault on. -/
structure Failure where
  cause : ParseCause
  rest : List Token
deriving DecidableEq, Repr

/-- A phrase that was read, with fewer than `bound` tokens left. -/
structure Phrase (α : Type) (bound : Nat) where
  value : α
  rest : List Token
  shorter : rest.length < bound

namespace Phrase

variable {α : Type}

/-- What was read and what is left, without the bound. -/
def toPair {n : Nat} (p : Phrase α n) : α × List Token := (p.value, p.rest)

/-- An optional phrase that is not there. -/
def absent (a : α) (ts : List Token) : Phrase α (ts.length + 1) := ⟨a, ts, Nat.lt_succ_self _⟩

end Phrase

abbrev Reading (α : Type) (ts : List Token) := Except Failure (Phrase α ts.length)

namespace Read

def fail {α : Type} (cause : ParseCause) (rest : List Token) : Except Failure α :=
  .error ⟨cause, rest⟩

def expect (t : Token) : (ts : List Token) → Reading Unit ts
  | [] => fail .unexpectedEnd []
  | u :: rest =>
    if u = t then .ok ⟨(), rest, by simp⟩ else fail (.expected t u) (u :: rest)

def identifier : (ts : List Token) → Reading String ts
  | [] => fail .unexpectedEnd []
  | .identifier x :: rest => .ok ⟨x, rest, by simp⟩
  | t :: rest => fail (.expectedIdentifier t) (t :: rest)

/-- Drops `t` if it comes next. -/
def skip (t : Token) : List Token → List Token
  | [] => []
  | u :: rest => if u = t then rest else u :: rest

theorem length_skip_le (t : Token) (ts : List Token) : (skip t ts).length ≤ ts.length := by
  cases ts with
  | nil => simp [skip]
  | cons u rest => simp only [skip]; split <;> simp

theorem length_skip_lt (t : Token) {ts : List Token} {n : Nat} (h : ts.length < n) :
    (skip t ts).length < n :=
  Nat.lt_of_le_of_lt (length_skip_le t ts) h

def type (ts : List Token) : Reading Ty ts := do
  let x ← identifier ts
  .ok ⟨⟨x.value, false⟩, x.rest, x.shorter⟩

def typedName (ts : List Token) : Reading TypedName ts := do
  let x ← identifier ts
  let colon ← expect (.punct .colon) x.rest
  let t ← type colon.rest
  .ok ⟨⟨x.value, t.value⟩, t.rest,
    Nat.lt_trans (Nat.lt_trans t.shorter colon.shorter) x.shorter⟩

/-- Typed names up to `close`, each with a comma behind it or not. -/
def typedNames (close : Token) : (ts : List Token) → Reading (List TypedName) ts
  | [] => fail .unexpectedEnd []
  | t :: rest =>
    if t = close then .ok ⟨[], rest, by simp⟩
    else do
      let x ← typedName (t :: rest)
      let more ← typedNames close (skip (.punct .comma) x.rest)
      .ok ⟨x.value :: more.value, more.rest,
        Nat.lt_trans more.shorter (length_skip_lt _ x.shorter)⟩
termination_by ts => ts.length
decreasing_by exact length_skip_lt _ x.shorter

end Read
end Mis
