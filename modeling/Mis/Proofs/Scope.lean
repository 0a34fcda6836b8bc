import Mis.Typing
import Mis.Steps

/-!
Scopes and what typing asks of them. A scope that knows more gives every typing
that succeeded the same answer, since a name without a type is asked for only
where typing fails.
-/
namespace Mis
namespace Scope

/-- The scope with one name set: to a type, or to nothing. -/
def set (s : Scope) (x : String) (type : Option Ty) : Scope :=
  fun y => if y = x then type else s y

@[simp] theorem set_self (s : Scope) (x : String) (type : Option Ty) : s.set x type x = type := by
  simp [set]

theorem set_of_ne {s : Scope} {x y : String} {type : Option Ty} (h : y ≠ x) :
    s.set x type y = s y := by
  simp [set, h]

theorem insert_eq_set (s : Scope) (x : String) (type : Ty) : s.insert x type = s.set x type := rfl

theorem set_eq_self {s : Scope} {x : String} {type : Option Ty} (h : s x = type) :
    s.set x type = s := by
  funext y
  by_cases hy : y = x
  · subst hy
    rw [set_self, h]
  · exact set_of_ne hy

theorem empty_orElse (s : Scope) : empty.orElse s = s := by
  funext x
  simp [orElse, empty]

theorem insert_orElse (s t : Scope) (x : String) (type : Ty) :
    (s.insert x type).orElse t = (s.orElse t).insert x type := by
  funext y
  by_cases hy : y = x <;> simp [orElse, insert, hy]

theorem insertAll_orElse (s t : Scope) (xs : List TypedName) :
    (s.insertAll xs).orElse t = (s.orElse t).insertAll xs := by
  induction xs generalizing s with
  | nil => rfl
  | cons x xs ih =>
      simp only [insertAll, List.foldl_cons] at ih ⊢
      rw [ih, insert_orElse]

theorem insertAll_append (s : Scope) (xs ys : List TypedName) :
    s.insertAll (xs ++ ys) = (s.insertAll xs).insertAll ys := by
  simp [insertAll, List.foldl_append]

theorem isSome_insertAll (s : Scope) (xs : List TypedName) (x : String) :
    (s.insertAll xs x).isSome ↔ x ∈ xs.map (·.name) ∨ (s x).isSome := by
  induction xs generalizing s with
  | nil => simp [insertAll]
  | cons y ys ih =>
      have step : s.insertAll (y :: ys) = (s.insert y.name y.type).insertAll ys := rfl
      rw [step, ih]
      by_cases hx : x = y.name <;> simp [insert, hx]

/-- Every name that `s` knows has the same type in `t`. -/
def Below (s t : Scope) : Prop :=
  ∀ x type, s x = some type → t x = some type

theorem below_set_of_none {s : Scope} {x : String} (h : s x = none) (type : Option Ty) :
    s.Below (s.set x type) := by
  intro y known hy
  have hne : y ≠ x := by
    intro heq
    subst heq
    rw [h] at hy
    cases hy
  rw [set_of_ne hne, hy]

end Scope

namespace SymbolTable

variable {ι : Type} {t : SymbolTable}

theorem select_mono {callee : Expr ι} {arity : Nat} {s : Symbol}
    {types more : Unit → Except SemanticError (List Ty)}
    (hmore : ∀ ts, types () = .ok ts → more () = .ok ts)
    (h : t.select callee arity types = .ok s) : t.select callee arity more = .ok s := by
  rw [select] at h ⊢
  cases hname : callee.name? with
  | none => simp [hname] at h
  | some name =>
      simp only [hname] at h ⊢
      obtain ⟨symbols, hsymbols, h⟩ := bind_eq_ok.mp h
      refine bind_eq_ok.mpr ⟨symbols, hsymbols, ?_⟩
      split at h
      · exact h
      · obtain ⟨ts, hts, h⟩ := bind_eq_ok.mp h
        exact bind_eq_ok.mpr ⟨ts, hmore ts hts, h⟩

end SymbolTable

section Mono

variable {ι : Type} {t : SymbolTable} {s₁ s₂ : Scope}

mutual

theorem Expr.resultType_mono (hs : s₁.Below s₂) :
    ∀ (e : Expr ι) (r : Option Ty), e.resultType t s₁ = .ok r → e.resultType t s₂ = .ok r
  | .literal _ _, _, h => h
  | .name _ x, r, h => by
      rw [Expr.resultType] at h ⊢
      cases hx : s₁ x with
      | none => simp [hx] at h
      | some type =>
          rw [hs x type hx]
          simpa [hx] using h
  | .call _ callee args, r, h => by
      rw [Expr.resultType] at h ⊢
      obtain ⟨s, hselect, h⟩ := bind_eq_ok.mp h
      have hargs := fun ts => Expr.argumentTypes_mono hs args ts
      exact bind_eq_ok.mpr ⟨s, SymbolTable.select_mono hargs hselect, h⟩

theorem Expr.argumentTypes_mono (hs : s₁.Below s₂) :
    ∀ (es : List (Expr ι)) (ts : List Ty),
      Expr.argumentTypes t s₁ es = .ok ts → Expr.argumentTypes t s₂ es = .ok ts
  | [], _, h => h
  | e :: es, ts, h => by
      rw [Expr.argumentTypes] at h ⊢
      obtain ⟨r, he, h⟩ := bind_eq_ok.mp h
      refine bind_eq_ok.mpr ⟨r, Expr.resultType_mono hs e r he, ?_⟩
      cases r with
      | none => cases h
      | some type =>
          obtain ⟨rest, hes, h⟩ := bind_eq_ok.mp h
          exact bind_eq_ok.mpr ⟨rest, Expr.argumentTypes_mono hs es rest hes, h⟩

end

theorem Expr.valueType_mono (hs : s₁.Below s₂) {e : Expr ι} {type : Ty}
    (h : e.valueType t s₁ = .ok type) : e.valueType t s₂ = .ok type := by
  rw [Expr.valueType] at h ⊢
  obtain ⟨r, hr, h⟩ := bind_eq_ok.mp h
  exact bind_eq_ok.mpr ⟨r, Expr.resultType_mono hs e r hr, h⟩

theorem calledSymbol_mono (hs : s₁.Below s₂) {callee : Expr ι} {args : List (Expr ι)} {s : Symbol}
    (h : calledSymbol t s₁ callee args = .ok s) : calledSymbol t s₂ callee args = .ok s :=
  SymbolTable.select_mono (fun ts => Expr.argumentTypes_mono hs args ts) h

/-- Typing is monotone in the scope: an expression that has a type, is void or has a value in `s₁`
is the same in `s₂`, and a call that means a symbol means the same one. -/
theorem Expr.typing_mono (t : SymbolTable) {s₁ s₂ : Scope} (hs : s₁.Below s₂) (e : Expr ι) :
    (∀ r, e.resultType t s₁ = .ok r → e.resultType t s₂ = .ok r) ∧
    (∀ type, e.valueType t s₁ = .ok type → e.valueType t s₂ = .ok type) ∧
    ∀ i callee args s, e = .call i callee args → calledSymbol t s₁ callee args = .ok s →
      calledSymbol t s₂ callee args = .ok s := by
  refine ⟨fun r hr => Expr.resultType_mono hs e r hr, fun type h => Expr.valueType_mono hs h, ?_⟩
  intro i callee args s _ h
  exact calledSymbol_mono hs h

end Mono

/-- Two overloads that take each other's results. -/
def echoing : Module Unit where
  imports := []
  decls :=
    [.function ⟨"echo", [⟨"n", .int⟩], some .string, []⟩,
     .function ⟨"echo", [⟨"s", .string⟩], some .int, []⟩]

def echoOnce : Expr Unit := .call () (.name () "echo") [.name () "x"]

def echoTwice : Expr Unit := .call () (.name () "echo") [echoOnce]

/-- The argument of the outer call is typed to tell the overloads apart, and so is the argument of
that, a name of the smaller scope. -/
theorem echoTwice_typing_mono :
    (Scope.empty.insert "x" .int).Below ((Scope.empty.insert "x" .int).insert "y" .string) ∧
    echoTwice.resultType echoing.symbolTable (Scope.empty.insert "x" .int) = .ok (some .int) ∧
    echoTwice.resultType echoing.symbolTable ((Scope.empty.insert "x" .int).insert "y" .string) =
      .ok (some .int) ∧
    echoTwice.valueType echoing.symbolTable ((Scope.empty.insert "x" .int).insert "y" .string) =
      .ok .int ∧
    calledSymbol echoing.symbolTable ((Scope.empty.insert "x" .int).insert "y" .string)
      (.name () "echo") [echoOnce] = .ok ⟨"echo__String", .function, [.string], some .int⟩ := by
  have hscope : (Scope.empty.insert "x" .int).Below
      ((Scope.empty.insert "x" .int).insert "y" .string) :=
    Scope.below_set_of_none (by decide) _
  have hresult : echoTwice.resultType echoing.symbolTable (Scope.empty.insert "x" .int) =
      .ok (some .int) := by rfl
  have hvalue : echoTwice.valueType echoing.symbolTable (Scope.empty.insert "x" .int) =
      .ok .int := by rfl
  have hsymbol : calledSymbol echoing.symbolTable (Scope.empty.insert "x" .int) (.name () "echo")
      [echoOnce] = .ok ⟨"echo__String", .function, [.string], some .int⟩ := by rfl
  obtain ⟨hresults, hvalues, hsymbols⟩ := echoTwice.typing_mono echoing.symbolTable hscope
  exact ⟨hscope, hresult, hresults _ hresult, hvalues _ hvalue, hsymbols () _ _ _ rfl hsymbol⟩

/-- Typing a call means that it has a symbol, and the type is the symbol's result. -/
theorem calledSymbol_of_valueType {ι : Type} {t : SymbolTable} {σ : Scope} {i : ι} {callee : Expr ι}
    {args : List (Expr ι)} {T : Ty} (h : (Expr.call i callee args).valueType t σ = .ok T) :
    ∃ s, calledSymbol t σ callee args = .ok s ∧ s.result = some T := by
  rw [Expr.valueType] at h
  obtain ⟨r, hr, h⟩ := bind_eq_ok.mp h
  cases r with
  | none => cases h
  | some type =>
      cases h
      rw [Expr.resultType] at hr
      obtain ⟨s, hs, hr⟩ := bind_eq_ok.mp hr
      refine ⟨s, hs, ?_⟩
      cases hresult : s.result with
      | none => simp [hresult] at hr
      | some type =>
          simp only [hresult] at hr
          split at hr
          · cases hr
            rfl
          · cases hr

end Mis
