import Mis.Token
import Mis.Tree

/-!
The grammar of the language, as relations between tokens and the trees they are
written forms of. Read as it stands it is ambiguous: a parenthesis behind a
statement that ends in an expression starts a new statement, or it makes a call
of the expression. Relations on statements are therefore given for any rule
`follow` of what may stand behind a statement. The rule of the language leaves
both readings open, the rule of the longest match leaves one of them, and every
token list that has a reading by the first has one by the second.
-/
namespace Mis

/-- A token that may be left out. -/
def Optional (t : Token) (ts : List Token) : Prop :=
  ts = [] ∨ ts = [t]

def commaSeparated : List (List Token) → List Token
  | [] => []
  | [ts] => ts
  | ts :: us :: more => ts ++ .punct .comma :: commaSeparated (us :: more)

/-- The rules `expr := primary { "(" [ expr { "," expr } ] ")" }` and
`primary := NUMBER | STRING | IDENT | "(" expr ")"`. Parentheses leave no trace in the tree. -/
inductive Expr.Derives : List Token → Expr Unit → Prop
  | number (n : Int) : Derives [.number n] (.literal () (.int n))
  | text (s : String) : Derives [.text s] (.literal () (.text s))
  | name (x : String) : Derives [.identifier x] (.name () x)
  | parens {ts : List Token} {e : Expr Unit} :
      Derives ts e → Derives (.punct .openParen :: ts ++ [.punct .closeParen]) e
  | call {ts : List Token} {callee : Expr Unit} (args : List (List Token × Expr Unit)) :
      Derives ts callee → (∀ a ∈ args, Derives a.1 a.2) →
      Derives (ts ++ .punct .openParen :: commaSeparated (args.map (·.1)) ++ [.punct .closeParen])
        (.call () callee (args.map (·.2)))

/-- Expressions with commas between them. -/
def Expr.DerivesAll (ts : List Token) (es : List (Expr Unit)) : Prop :=
  ∃ args : List (List Token × Expr Unit),
    ts = commaSeparated (args.map (·.1)) ∧ es = args.map (·.2) ∧ ∀ a ∈ args, Expr.Derives a.1 a.2

/-- Which tokens may stand behind a statement. -/
abbrev Follow := Stmt Unit → Token → Prop

/-- The mark between a declared variable and its value. -/
def Storage.mark : Storage → Token
  | .shared => .punct .define
  | .own => .punct .defineOwn

mutual

/-- The rules
```
statement := IDENT ":=" expr | IDENT "::=" expr | IDENT "=" expr
           | "if" expr block [ "else" ( block | if-statement ) ]
           | "for" expr block | "return" [ expr ] | expr
block     := "{" { statement [";"] } "}"
```
where an expression that is a statement has to be a call. -/
inductive Stmt.Derives (follow : Follow) : List Token → Stmt Unit → Prop
  | declare {ts : List Token} {e : Expr Unit} (storage : Storage) (x : String) :
      Expr.Derives ts e →
      Stmt.Derives follow (.identifier x :: storage.mark :: ts) (.declare () storage x e)
  | assign {ts : List Token} {e : Expr Unit} (x : String) :
      Expr.Derives ts e →
      Stmt.Derives follow (.identifier x :: .punct .assign :: ts) (.assign () x e)
  | branch {cs ys : List Token} {c : Expr Unit} {yes : List (Stmt Unit)} :
      Expr.Derives cs c → Stmt.DerivesAll follow ys yes →
      Stmt.Derives follow (.keyword .ifKw :: cs ++ .punct .openBrace :: ys)
        (.branch () c yes none)
  | branchElse {cs ys ns : List Token} {c : Expr Unit} {yes no : List (Stmt Unit)} :
      Expr.Derives cs c → Stmt.DerivesAll follow ys yes → Stmt.DerivesElse follow ns no →
      Stmt.Derives follow
        (.keyword .ifKw :: cs ++ .punct .openBrace :: ys ++ .keyword .elseKw :: ns)
        (.branch () c yes (some no))
  | loop {cs ts : List Token} {c : Expr Unit} {body : List (Stmt Unit)} :
      Expr.Derives cs c → Stmt.DerivesAll follow ts body →
      Stmt.Derives follow (.keyword .forKw :: cs ++ .punct .openBrace :: ts) (.loop () c body)
  | leave : Stmt.Derives follow [.keyword .returnKw] (.leave () none)
  | leaveWith {ts : List Token} {e : Expr Unit} :
      Expr.Derives ts e → Stmt.Derives follow (.keyword .returnKw :: ts) (.leave () (some e))
  | call {ts : List Token} {e : Expr Unit} :
      Expr.Derives ts e → e.isCall = true → Stmt.Derives follow ts (.call () e)

/-- What stands in a block behind its opening brace, up to the closing one. -/
inductive Stmt.DerivesAll (follow : Follow) : List Token → List (Stmt Unit) → Prop
  | nil : Stmt.DerivesAll follow [.punct .closeBrace] []
  | cons {ts sep us : List Token} {s : Stmt Unit} {ss : List (Stmt Unit)} :
      Stmt.Derives follow ts s → Optional (.punct .semicolon) sep →
      Stmt.DerivesAll follow us ss → (∀ t, (sep ++ us).head? = some t → follow s t) →
      Stmt.DerivesAll follow (ts ++ sep ++ us) (s :: ss)

/-- What stands behind `else`. -/
inductive Stmt.DerivesElse (follow : Follow) : List Token → List (Stmt Unit) → Prop
  | block {ts : List Token} {ss : List (Stmt Unit)} :
      Stmt.DerivesAll follow ts ss → Stmt.DerivesElse follow (.punct .openBrace :: ts) ss
  | chain {ts : List Token} {s : Stmt Unit} :
      Stmt.Derives follow (.keyword .ifKw :: ts) s →
      Stmt.DerivesElse follow (.keyword .ifKw :: ts) [s]

end

namespace Stmt

variable {ι : Type}

/-- A `return` without a value. -/
def isBareReturn : Stmt ι → Bool
  | .leave _ none => true
  | _ => false

/-- The last part of the statement is an expression. -/
def endsInExpr : Stmt ι → Bool
  | .declare _ _ _ _ | .assign _ _ _ | .leave _ (some _) | .call _ _ => true
  | .branch _ _ _ _ | .loop _ _ _ | .leave _ none => false

theorem not_endsInExpr_of_isBareReturn {s : Stmt ι} (h : s.isBareReturn = true) :
    s.endsInExpr = false := by
  cases s with
  | leave _ e =>
      cases e with
      | none => rfl
      | some e => cases h
  | declare _ _ _ _ | assign _ _ _ | branch _ _ _ _ | loop _ _ _ | call _ _ => cases h

end Stmt

namespace Follow

/-- The rule of the language: a `return` has no value exactly before `;` and the closing brace. -/
def canonical : Follow := fun s t =>
  s.isBareReturn = true → t = .punct .semicolon ∨ t = .punct .closeBrace

/-- The rule of the longest match: moreover an expression is not followed by a parenthesis that
would make a call of it. -/
def longest : Follow := fun s t =>
  canonical s t ∧ (s.endsInExpr = true → t ≠ .punct .openParen)

end Follow

/-- A block with its opening brace. -/
def Stmt.DerivesBlock (follow : Follow) (ts : List Token) (ss : List (Stmt Unit)) : Prop :=
  ∃ us, ts = .punct .openBrace :: us ∧ Stmt.DerivesAll follow us ss

/-- What stands behind the block of an `if`. -/
inductive Stmt.DerivesOptionalElse (follow : Follow) :
    List Token → Option (List (Stmt Unit)) → Prop
  | absent : Stmt.DerivesOptionalElse follow [] none
  | present {ts : List Token} {ss : List (Stmt Unit)} :
      Stmt.DerivesElse follow ts ss →
      Stmt.DerivesOptionalElse follow (.keyword .elseKw :: ts) (some ss)

/-- The rule `param := IDENT ":" type`, for any number of parameters or fields, each with a comma
behind it or not. -/
inductive TypedName.DerivesAll : List Token → List TypedName → Prop
  | nil : DerivesAll [] []
  | cons {sep ts : List Token} {xs : List TypedName} (x type : String) :
      Optional (.punct .comma) sep → DerivesAll ts xs →
      DerivesAll (.identifier x :: .punct .colon :: .identifier type :: sep ++ ts)
        (⟨x, ⟨type, false⟩⟩ :: xs)

/-- The rule `[ "->" type ]`. -/
inductive Ty.DerivesResult : List Token → Option Ty → Prop
  | absent : DerivesResult [] none
  | present (type : String) :
      DerivesResult [.punct .arrow, .identifier type] (some ⟨type, false⟩)

/-- The rules
```
declaration := function | struct | const
function    := "func" IDENT "(" { param [","] } ")" [ "->" type ] block
struct      := "struct" IDENT "{" { param [","] } "}"
const       := "const" IDENT ":" type "=" expr [";"]
```
-/
inductive Decl.Derives (follow : Follow) : List Token → Decl Unit → Prop
  | function {ps rs ts : List Token} {params : List TypedName} {result : Option Ty}
      {body : List (Stmt Unit)} (x : String) :
      TypedName.DerivesAll ps params → Ty.DerivesResult rs result →
      Stmt.DerivesAll follow ts body →
      Derives follow
        (.keyword .funcKw :: .identifier x :: .punct .openParen :: ps ++
          .punct .closeParen :: rs ++ .punct .openBrace :: ts)
        (.function ⟨x, params, result, body⟩)
  | struct {ts : List Token} {fields : List TypedName} (x : String) :
      TypedName.DerivesAll ts fields →
      Derives follow
        (.keyword .structKw :: .identifier x :: .punct .openBrace :: ts ++ [.punct .closeBrace])
        (.struct ⟨x, fields⟩)
  | constant {ts sep : List Token} {e : Expr Unit} (x type : String) :
      Expr.Derives ts e → Optional (.punct .semicolon) sep →
      Derives follow
        (.keyword .constKw :: .identifier x :: .punct .colon :: .identifier type ::
          .punct .assign :: ts ++ sep)
        (.constant ⟨x, ⟨type, false⟩, e⟩)

inductive Decl.DerivesAll (follow : Follow) : List Token → List (Decl Unit) → Prop
  | nil : DerivesAll follow [] []
  | cons {ts us : List Token} {d : Decl Unit} {ds : List (Decl Unit)} :
      Decl.Derives follow ts d → DerivesAll follow us ds → DerivesAll follow (ts ++ us) (d :: ds)

/-- The rule `{ "import" IDENT [";"] }`. -/
inductive Module.DerivesImports : List Token → List String → Prop
  | nil : DerivesImports [] []
  | cons {sep ts : List Token} {xs : List String} (x : String) :
      Optional (.punct .semicolon) sep → DerivesImports ts xs →
      DerivesImports (.keyword .importKw :: .identifier x :: sep ++ ts) (x :: xs)

/-- The rule `module := { "import" IDENT [";"] } { declaration }`. -/
def Module.Derives (follow : Follow) (ts : List Token) (m : Module Unit) : Prop :=
  ∃ is ds, ts = is ++ ds ∧ Module.DerivesImports is m.imports ∧ Decl.DerivesAll follow ds m.decls

/-! Argument lists. -/

namespace Expr

variable {ts us : List Token} {e : Expr Unit} {es : List (Expr Unit)}

theorem DerivesAll.nil : DerivesAll [] [] :=
  ⟨[], rfl, rfl, by simp⟩

theorem DerivesAll.singleton (h : Derives ts e) : DerivesAll ts [e] :=
  ⟨[(ts, e)], rfl, rfl, by simpa using h⟩

theorem DerivesAll.cons (h : Derives ts e) (hes : DerivesAll us es) (hne : es ≠ []) :
    DerivesAll (ts ++ .punct .comma :: us) (e :: es) := by
  obtain ⟨args, rfl, rfl, hargs⟩ := hes
  cases args with
  | nil => exact absurd rfl hne
  | cons a args =>
      refine ⟨(ts, e) :: a :: args, rfl, rfl, ?_⟩
      intro b hb
      obtain rfl | hb := List.mem_cons.mp hb
      · exact h
      · exact hargs b hb

end Expr

/-! Blocks. -/

namespace Stmt

variable {follow : Follow} {cs ys ns : List Token} {c : Expr Unit} {yes : List (Stmt Unit)}
  {no : Option (List (Stmt Unit))}

theorem DerivesBlock.nil : DerivesBlock follow [.punct .openBrace, .punct .closeBrace] [] :=
  ⟨_, rfl, .nil⟩

theorem Derives.ifBlock (hc : Expr.Derives cs c) (hyes : DerivesBlock follow ys yes)
    (hno : DerivesOptionalElse follow ns no) :
    Derives follow (.keyword .ifKw :: cs ++ ys ++ ns) (.branch () c yes no) := by
  obtain ⟨ys, rfl, hyes⟩ := hyes
  cases hno with
  | absent => simpa using Derives.branch hc hyes
  | present hno => exact .branchElse hc hyes hno

theorem Derives.forBlock (hc : Expr.Derives cs c) (hbody : DerivesBlock follow ys yes) :
    Derives follow (.keyword .forKw :: cs ++ ys) (.loop () c yes) := by
  obtain ⟨ys, rfl, hbody⟩ := hbody
  exact .loop hc hbody

end Stmt

/-! First tokens. -/

def Token.startsExpr : Token → Bool
  | .number _ | .text _ | .identifier _ | .punct .openParen => true
  | _ => false

def Token.startsStmt : Token → Bool
  | .keyword .ifKw | .keyword .forKw | .keyword .returnKw => true
  | t => t.startsExpr

def Token.startsDecl : Token → Bool
  | .keyword .funcKw | .keyword .structKw | .keyword .constKw => true
  | _ => false

theorem Token.endsStatement_iff {t : Token} :
    t.endsStatement = true ↔ t = .punct .semicolon ∨ t = .punct .closeBrace := by
  unfold Token.endsStatement
  split <;> simp_all

theorem Token.startsStmt_of_startsExpr {t : Token} (h : t.startsExpr = true) :
    t.startsStmt = true := by
  unfold Token.startsStmt
  split
  · rfl
  · rfl
  · rfl
  · exact h

theorem Expr.Derives.exists_head {ts : List Token} {e : Expr Unit} (h : Expr.Derives ts e) :
    ∃ t rest, ts = t :: rest ∧ t.startsExpr = true := by
  induction h with
  | number n => exact ⟨_, _, rfl, rfl⟩
  | text s => exact ⟨_, _, rfl, rfl⟩
  | name x => exact ⟨_, _, rfl, rfl⟩
  | parens _ _ => exact ⟨_, _, rfl, rfl⟩
  | call args _ _ ih _ =>
      obtain ⟨t, rest, rfl, ht⟩ := ih
      exact ⟨t, _, rfl, ht⟩

theorem Stmt.Derives.exists_head {follow : Follow} {ts : List Token} {s : Stmt Unit}
    (h : Stmt.Derives follow ts s) : ∃ t rest, ts = t :: rest ∧ t.startsStmt = true := by
  cases h with
  | declare storage x he => exact ⟨_, _, rfl, rfl⟩
  | assign x he => exact ⟨_, _, rfl, rfl⟩
  | branch hc hyes => exact ⟨_, _, rfl, rfl⟩
  | branchElse hc hyes hno => exact ⟨_, _, rfl, rfl⟩
  | loop hc hbody => exact ⟨_, _, rfl, rfl⟩
  | leave => exact ⟨_, _, rfl, rfl⟩
  | leaveWith he => exact ⟨_, _, rfl, rfl⟩
  | call he hcall =>
      obtain ⟨t, rest, rfl, ht⟩ := he.exists_head
      exact ⟨t, rest, rfl, Token.startsStmt_of_startsExpr ht⟩

theorem Stmt.DerivesAll.exists_head {follow : Follow} {ts : List Token} {ss : List (Stmt Unit)}
    (h : Stmt.DerivesAll follow ts ss) :
    ∃ t rest, ts = t :: rest ∧ (t.startsStmt = true ∨ t = .punct .closeBrace) := by
  cases h with
  | nil => exact ⟨_, _, rfl, .inr rfl⟩
  | cons hs _ _ _ =>
      obtain ⟨t, rest, rfl, ht⟩ := hs.exists_head
      exact ⟨t, _, rfl, .inl ht⟩

theorem Stmt.DerivesAll.exists_head_ne {follow : Follow} {ts : List Token} {ss : List (Stmt Unit)}
    (h : Stmt.DerivesAll follow ts ss) :
    ∃ t rest, ts = t :: rest ∧ t ≠ .punct .semicolon ∧ t ≠ .keyword .elseKw := by
  obtain ⟨t, rest, rfl, ht⟩ := h.exists_head
  refine ⟨t, rest, rfl, ?_, ?_⟩
  · rintro rfl
    obtain h | h := ht <;> cases h
  · rintro rfl
    obtain h | h := ht <;> cases h

theorem Decl.DerivesAll.startsDecl {follow : Follow} {ts : List Token} {ds : List (Decl Unit)}
    (h : Decl.DerivesAll follow ts ds) {t : Token} (ht : ts.head? = some t) :
    t.startsDecl = true := by
  cases h with
  | nil => cases ht
  | cons hd _ =>
      cases hd with
      | function _ _ _ _ | struct _ _ | constant _ _ _ _ =>
          cases ht
          rfl

/-- An expression that starts with a name is that name, or goes on with an argument list. -/
theorem Expr.Derives.identifier_cons {ts : List Token} {e : Expr Unit} (h : Expr.Derives ts e)
    {x : String} {rest : List Token} (hts : ts = .identifier x :: rest) :
    rest = [] ∧ e = .name () x ∨ rest.head? = some (.punct .openParen) := by
  induction h generalizing rest with
  | number n | text s => cases hts
  | parens _ _ => cases hts
  | name y =>
      cases hts
      exact .inl ⟨rfl, rfl⟩
  | @call us _ args hcallee _ ih _ =>
      obtain ⟨t, more, rfl, _⟩ := hcallee.exists_head
      cases hts
      obtain ⟨rfl, _⟩ | hopen := ih rfl
      · exact .inr rfl
      · cases more with
        | nil => cases hopen
        | cons u more => exact .inr hopen

/-! Rules that allow more derive more. -/

section Mono

variable {f g : Follow}

mutual

theorem Stmt.Derives.mono (hfg : ∀ s t, f s t → g s t) : ∀ {ts : List Token} {s : Stmt Unit},
    Stmt.Derives f ts s → Stmt.Derives g ts s
  | _, _, .declare storage x he => .declare storage x he
  | _, _, .assign x he => .assign x he
  | _, _, .branch hc hyes => .branch hc (Stmt.DerivesAll.mono hfg hyes)
  | _, _, .branchElse hc hyes hno =>
      .branchElse hc (Stmt.DerivesAll.mono hfg hyes) (Stmt.DerivesElse.mono hfg hno)
  | _, _, .loop hc hbody => .loop hc (Stmt.DerivesAll.mono hfg hbody)
  | _, _, .leave => .leave
  | _, _, .leaveWith he => .leaveWith he
  | _, _, .call he hcall => .call he hcall

theorem Stmt.DerivesAll.mono (hfg : ∀ s t, f s t → g s t) :
    ∀ {ts : List Token} {ss : List (Stmt Unit)},
      Stmt.DerivesAll f ts ss → Stmt.DerivesAll g ts ss
  | _, _, .nil => .nil
  | _, _, .cons hs hsep hss hfollow =>
      .cons (Stmt.Derives.mono hfg hs) hsep (Stmt.DerivesAll.mono hfg hss)
        fun t ht => hfg _ t (hfollow t ht)

theorem Stmt.DerivesElse.mono (hfg : ∀ s t, f s t → g s t) :
    ∀ {ts : List Token} {ss : List (Stmt Unit)},
      Stmt.DerivesElse f ts ss → Stmt.DerivesElse g ts ss
  | _, _, .block hss => .block (Stmt.DerivesAll.mono hfg hss)
  | _, _, .chain hs => .chain (Stmt.Derives.mono hfg hs)

end

theorem Decl.Derives.mono (hfg : ∀ s t, f s t → g s t) {ts : List Token} {d : Decl Unit}
    (h : Decl.Derives f ts d) : Decl.Derives g ts d := by
  cases h with
  | function x hparams hresult hbody => exact .function x hparams hresult (hbody.mono hfg)
  | struct x hfields => exact .struct x hfields
  | constant x type he hsep => exact .constant x type he hsep

theorem Decl.DerivesAll.mono (hfg : ∀ s t, f s t → g s t) {ts : List Token}
    {ds : List (Decl Unit)} (h : Decl.DerivesAll f ts ds) : Decl.DerivesAll g ts ds := by
  induction h with
  | nil => exact .nil
  | cons hd _ ih => exact .cons (hd.mono hfg) ih

theorem Module.Derives.mono (hfg : ∀ s t, f s t → g s t) {ts : List Token} {m : Module Unit}
    (h : Module.Derives f ts m) : Module.Derives g ts m := by
  obtain ⟨is, ds, hts, himports, hdecls⟩ := h
  exact ⟨is, ds, hts, himports, hdecls.mono hfg⟩

end Mono

theorem Follow.canonical_of_longest (s : Stmt Unit) (t : Token) (h : Follow.longest s t) :
    Follow.canonical s t := h.1

/-! The longest match. -/

/-- An expression in parentheses behind an expression can be read as a call of it. -/
theorem Expr.Derives.juxtapose {ts us : List Token} {callee e : Expr Unit}
    (hcallee : Expr.Derives ts callee) (h : Expr.Derives us e)
    (hopen : us.head? = some (.punct .openParen)) :
    ∃ e', Expr.Derives (ts ++ us) e' ∧ e'.isCall = true := by
  induction h with
  | number n | text s | name x => cases hopen
  | @parens us e he _ =>
      have hcall := Expr.Derives.call [(us, e)] hcallee (by simpa using he)
      exact ⟨_, by simpa [commaSeparated] using hcall, rfl⟩
  | @call us f args hf hargs ih _ =>
      obtain ⟨t, rest, rfl, _⟩ := hf.exists_head
      obtain ⟨e', he', _⟩ := ih hopen
      exact ⟨_, by simpa using Expr.Derives.call args he' hargs, rfl⟩

theorem Stmt.Derives.juxtapose {follow : Follow} {ts us : List Token} {s : Stmt Unit}
    {e : Expr Unit} (hs : Stmt.Derives follow ts s) (hends : s.endsInExpr = true)
    (h : Expr.Derives us e) (hopen : us.head? = some (.punct .openParen)) :
    ∃ s', Stmt.Derives follow (ts ++ us) s' ∧ s'.isBareReturn = false := by
  cases hs with
  | declare storage x he =>
      obtain ⟨e', he', _⟩ := he.juxtapose h hopen
      exact ⟨_, .declare storage x he', rfl⟩
  | assign x he =>
      obtain ⟨e', he', _⟩ := he.juxtapose h hopen
      exact ⟨_, .assign x he', rfl⟩
  | leaveWith he =>
      obtain ⟨e', he', _⟩ := he.juxtapose h hopen
      exact ⟨_, .leaveWith he', rfl⟩
  | call he _ =>
      obtain ⟨e', he', hcall⟩ := he.juxtapose h hopen
      exact ⟨_, .call he' hcall, rfl⟩
  | branch _ _ | branchElse _ _ _ | loop _ _ | leave => cases hends

/-- A statement that starts with a parenthesis is a call. -/
theorem Stmt.Derives.expr_of_openParen {follow : Follow} {ts : List Token} {s : Stmt Unit}
    (h : Stmt.Derives follow ts s) (hopen : ts.head? = some (.punct .openParen)) :
    ∃ e, s = .call () e ∧ Expr.Derives ts e := by
  cases h with
  | declare _ _ _ | assign _ _ | branch _ _ | branchElse _ _ _ | loop _ _ | leave | leaveWith _ =>
      cases hopen
  | call he _ => exact ⟨_, rfl, he⟩

/-- A statement that ends in an expression takes in the parenthesis behind it. -/
theorem Stmt.DerivesAll.absorb {ts us : List Token} {s : Stmt Unit} {ss : List (Stmt Unit)}
    (hs : Stmt.Derives .longest ts s) (hends : s.endsInExpr = true)
    (h : Stmt.DerivesAll .longest us ss) (hopen : us.head? = some (.punct .openParen)) :
    ∃ ss', Stmt.DerivesAll .longest (ts ++ us) ss' := by
  cases h with
  | nil => cases hopen
  | @cons first sep rest _ ss hfirst hsep hrest hfollow =>
      obtain ⟨t, more, rfl, _⟩ := hfirst.exists_head
      obtain ⟨e, rfl, he⟩ := hfirst.expr_of_openParen hopen
      obtain ⟨s', hs', hbare⟩ := hs.juxtapose hends he hopen
      have hlongest : ∀ u, (sep ++ rest).head? = some u → Follow.longest s' u := by
        intro u hu
        refine ⟨?_, fun _ => (hfollow u hu).2 rfl⟩
        intro hreturn
        rw [hbare] at hreturn
        cases hreturn
      exact ⟨s' :: ss, by simpa using Stmt.DerivesAll.cons hs' hsep hrest hlongest⟩

mutual

/-- Whatever has a reading has one by the rule of the longest match. -/
theorem Stmt.Derives.exists_longest : ∀ {ts : List Token} {s : Stmt Unit},
    Stmt.Derives .canonical ts s →
      ∃ s', Stmt.Derives .longest ts s' ∧ s'.isBareReturn = s.isBareReturn
  | _, _, .declare storage x he => ⟨_, .declare storage x he, rfl⟩
  | _, _, .assign x he => ⟨_, .assign x he, rfl⟩
  | _, _, .branch hc hyes => by
      obtain ⟨yes, hyes⟩ := Stmt.DerivesAll.exists_longest hyes
      exact ⟨_, .branch hc hyes, rfl⟩
  | _, _, .branchElse hc hyes hno => by
      obtain ⟨yes, hyes⟩ := Stmt.DerivesAll.exists_longest hyes
      obtain ⟨no, hno⟩ := Stmt.DerivesElse.exists_longest hno
      exact ⟨_, .branchElse hc hyes hno, rfl⟩
  | _, _, .loop hc hbody => by
      obtain ⟨body, hbody⟩ := Stmt.DerivesAll.exists_longest hbody
      exact ⟨_, .loop hc hbody, rfl⟩
  | _, _, .leave => ⟨_, .leave, rfl⟩
  | _, _, .leaveWith he => ⟨_, .leaveWith he, rfl⟩
  | _, _, .call he hcall => ⟨_, .call he hcall, rfl⟩

theorem Stmt.DerivesAll.exists_longest : ∀ {ts : List Token} {ss : List (Stmt Unit)},
    Stmt.DerivesAll .canonical ts ss → ∃ ss', Stmt.DerivesAll .longest ts ss'
  | _, _, .nil => ⟨[], .nil⟩
  | _, _, @Stmt.DerivesAll.cons _ ts sep us s ss hs hsep hss hfollow => by
      obtain ⟨s', hs', hbare⟩ := Stmt.Derives.exists_longest hs
      obtain ⟨ss', hss'⟩ := Stmt.DerivesAll.exists_longest hss
      by_cases hopen : s'.endsInExpr = true ∧ (sep ++ us).head? = some (.punct .openParen)
      · obtain ⟨hends, hopen⟩ := hopen
        obtain rfl | rfl := hsep
        · simpa using Stmt.DerivesAll.absorb hs' hends hss' hopen
        · cases hopen
      · refine ⟨s' :: ss', .cons hs' hsep hss' ?_⟩
        intro t ht
        refine ⟨fun h => hfollow t ht (hbare ▸ h), ?_⟩
        rintro hends rfl
        exact hopen ⟨hends, ht⟩

theorem Stmt.DerivesElse.exists_longest : ∀ {ts : List Token} {ss : List (Stmt Unit)},
    Stmt.DerivesElse .canonical ts ss → ∃ ss', Stmt.DerivesElse .longest ts ss'
  | _, _, .block hss => by
      obtain ⟨ss', hss'⟩ := Stmt.DerivesAll.exists_longest hss
      exact ⟨ss', .block hss'⟩
  | _, _, .chain hs => by
      obtain ⟨s', hs', _⟩ := Stmt.Derives.exists_longest hs
      exact ⟨[s'], .chain hs'⟩

end

theorem Decl.Derives.exists_longest {ts : List Token} {d : Decl Unit}
    (h : Decl.Derives .canonical ts d) : ∃ d', Decl.Derives .longest ts d' := by
  cases h with
  | function x hparams hresult hbody =>
      obtain ⟨body, hbody⟩ := hbody.exists_longest
      exact ⟨_, .function x hparams hresult hbody⟩
  | struct x hfields => exact ⟨_, .struct x hfields⟩
  | constant x type he hsep => exact ⟨_, .constant x type he hsep⟩

theorem Decl.DerivesAll.exists_longest {ts : List Token} {ds : List (Decl Unit)}
    (h : Decl.DerivesAll .canonical ts ds) : ∃ ds', Decl.DerivesAll .longest ts ds' := by
  induction h with
  | nil => exact ⟨[], .nil⟩
  | cons hd _ ih =>
      obtain ⟨d', hd'⟩ := hd.exists_longest
      obtain ⟨ds', hds'⟩ := ih
      exact ⟨d' :: ds', .cons hd' hds'⟩

theorem Module.Derives.exists_longest {ts : List Token} {m : Module Unit}
    (h : Module.Derives .canonical ts m) : ∃ m', Module.Derives .longest ts m' := by
  obtain ⟨is, ds, hts, himports, hdecls⟩ := h
  obtain ⟨decls, hdecls⟩ := hdecls.exists_longest
  exact ⟨⟨m.imports, decls⟩, is, ds, hts, himports, hdecls⟩

end Mis
