import Mis.Tree.Phrase.Stmt

/-!
Declarations and whole modules. Only the expressions and statements in them have
labels.
-/
namespace Mis.Read

/-- The result type behind the parameters, if an arrow announces one. -/
def resultType : (ts : List Token) → Except Failure (Phrase (Option Ty) (ts.length + 1))
  | .punct .arrow :: rest => do
    let t ← type rest
    .ok ⟨some t.value, t.rest, Nat.lt_succ_of_lt (Nat.lt_succ_of_lt t.shorter)⟩
  | ts => .ok (.absent none ts)

/-- A struct, from behind its keyword on. -/
def struct (ts : List Token) : Reading StructDecl ts := do
  let name ← identifier ts
  let start ← expect (.punct .openBrace) name.rest
  let fields ← typedNames (.punct .closeBrace) start.rest
  .ok ⟨⟨name.value, fields.value⟩, fields.rest,
    Nat.lt_trans (Nat.lt_trans fields.shorter start.shorter) name.shorter⟩

def imports : (ts : List Token) → Except Failure (Phrase (List String) (ts.length + 1))
  | .keyword .importKw :: rest => do
    let x ← identifier rest
    let more ← imports (skip (.punct .semicolon) x.rest)
    .ok ⟨x.value :: more.value, more.rest, by
      have := length_skip_lt (.punct .semicolon) x.shorter
      have := more.shorter
      simp only [List.length_cons]
      omega⟩
  | ts => .ok (.absent [] ts)
termination_by ts => ts.length
decreasing_by exact Nat.lt_succ_of_lt (length_skip_lt _ x.shorter)

namespace Labelled

variable {m : Type → Type} [Monad m] [MonadLiftT (Except Failure) m] {ι : Type} (fresh : m ι)

/-- A function, from behind its keyword on. -/
def function (ts : List Token) : m (Phrase (FunctionDecl ι) ts.length) := do
  let name ← identifier ts
  let start ← expect (.punct .openParen) name.rest
  let params ← typedNames (.punct .closeParen) start.rest
  let result ← resultType params.rest
  let body ← block fresh result.rest
  return ⟨⟨name.value, params.value, result.value, body.value⟩, body.rest, by
    have := name.shorter
    have := start.shorter
    have := params.shorter
    have := result.shorter
    have := body.shorter
    omega⟩

/-- A constant, from behind its keyword on. -/
def constant (ts : List Token) : m (Phrase (ConstantDecl ι) ts.length) := do
  let x ← typedName ts
  let mark ← expect (.punct .assign) x.rest
  let e ← expr fresh mark.rest
  return ⟨⟨x.value.name, x.value.type, e.value⟩, skip (.punct .semicolon) e.rest,
    length_skip_lt _ (Nat.lt_trans (Nat.lt_trans e.shorter mark.shorter) x.shorter)⟩

def decl : (ts : List Token) → m (Phrase (Decl ι) ts.length)
  | [] => fail .unexpectedEnd []
  | .keyword .funcKw :: rest => do
    let f ← function fresh rest
    return ⟨.function f.value, f.rest, Nat.lt_succ_of_lt f.shorter⟩
  | .keyword .structKw :: rest => do
    let s ← struct rest
    return ⟨.struct s.value, s.rest, Nat.lt_succ_of_lt s.shorter⟩
  | .keyword .constKw :: rest => do
    let c ← constant fresh rest
    return ⟨.constant c.value, c.rest, Nat.lt_succ_of_lt c.shorter⟩
  | t :: rest => fail (.expectedDeclaration t) (t :: rest)

/-- Declarations up to the end of the input. -/
def decls : List Token → m (List (Decl ι))
  | [] => return []
  | t :: rest => do
    let d ← decl fresh (t :: rest)
    let more ← decls d.rest
    return d.value :: more
termination_by ts => ts.length
decreasing_by exact d.shorter

def wholeModule (ts : List Token) : m (Module ι) := do
  let names ← imports ts
  let ds ← decls fresh names.rest
  return ⟨names.value, ds⟩

end Labelled
end Mis.Read
