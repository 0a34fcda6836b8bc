import Mis.Proofs.Covers

/-!
Each reader covers its rule of the grammar: what it reads is derived by the rule
of the longest match, and what stands in front of a failure begins a derivation.
-/
namespace Mis

/-! What has been begun. -/

def Expr.Begun : List Token → Prop :=
  Begins fun us => ∃ e, Expr.Derives us e

theorem Expr.Begun.nil : Expr.Begun [] :=
  ⟨_, _, .name ""⟩

namespace Expr

variable {ts us : List Token} {e : Expr Unit} {es : List (Expr Unit)}

/-- One argument or more, up to the closing parenthesis. -/
def Closed (ts : List Token) (es : List (Expr Unit)) : Prop :=
  ∃ us, ts = us ++ [.punct .closeParen] ∧ DerivesAll us es ∧ es ≠ []

theorem Derives.closed (h : Derives ts e) : Closed (ts ++ [.punct .closeParen]) [e] :=
  ⟨ts, rfl, .singleton h, by simp⟩

theorem Derives.cons_closed (h : Derives ts e) (hes : Closed us es) :
    Closed (ts ++ .punct .comma :: us) (e :: es) := by
  obtain ⟨us, rfl, hus, hne⟩ := hes
  exact ⟨ts ++ .punct .comma :: us, by simp, .cons h hus hne, by simp⟩

/-- An argument list with both of its parentheses. -/
def Applied (ts : List Token) (es : List (Expr Unit)) : Prop :=
  ∃ us, ts = .punct .openParen :: us ++ [.punct .closeParen] ∧ DerivesAll us es

theorem Applied.nil : Applied [.punct .openParen, .punct .closeParen] [] :=
  ⟨[], rfl, .nil⟩

theorem Closed.applied (h : Closed ts es) : Applied (.punct .openParen :: ts) es := by
  obtain ⟨us, rfl, hus, _⟩ := h
  exact ⟨us, rfl, hus⟩

theorem Derives.applied (h : Derives ts e) (hes : Applied us es) :
    Derives (ts ++ us) (.call () e es) := by
  obtain ⟨_, rfl, args, rfl, rfl, hargs⟩ := hes
  simpa using Derives.call args h hargs

end Expr

namespace Stmt

variable {p rest : List Token} {s : Stmt Unit}

/-- A statement that is read up to here, by the longest match. -/
def ReadTo (p : List Token) (s : Stmt Unit) (rest : List Token) : Prop :=
  Derives .longest p s ∧ ∀ t, rest.head? = some t → Follow.longest s t

theorem ReadTo.ofExpr (h : Derives .longest p s) (hends : s.endsInExpr = true)
    (hrest : rest.head? ≠ some (.punct .openParen)) : ReadTo p s rest := by
  refine ⟨h, fun t ht => ⟨fun hbare => ?_, fun _ => ?_⟩⟩
  · rw [not_endsInExpr_of_isBareReturn hbare] at hends
    cases hends
  · rintro rfl
    exact hrest ht

theorem ReadTo.ofBlock (h : Derives .longest p s) (hends : s.endsInExpr = false)
    (hbare : s.isBareReturn = false) : ReadTo p s rest := by
  refine ⟨h, fun t _ => ⟨fun h => ?_, fun h => ?_⟩⟩
  · rw [hbare] at h
    cases h
  · rw [hends] at h
    cases h

def Begun : List Token → Prop :=
  Begins fun us => ∃ s, Derives .canonical us s

theorem derives_binding {follow : Follow} {mark : Token} (h : mark.isBindingMark = true)
    (x : String) {ts : List Token} {e : Expr Unit} (he : Expr.Derives ts e) :
    Derives follow (.identifier x :: mark :: ts) (Read.bindingStmt () x mark e) := by
  unfold Token.isBindingMark at h
  split at h
  · exact .declare .shared x he
  · exact .declare .own x he
  · exact .assign x he
  · cases h

theorem endsInExpr_bindingStmt (x : String) (mark : Token) (e : Expr Unit) :
    (Read.bindingStmt () x mark e).endsInExpr = true := by
  unfold Read.bindingStmt
  split <;> rfl

/-- Whatever statement stands last in a block, the closing brace may follow it. -/
theorem Derives.closeBrace (h : Derives .canonical p s) :
    DerivesAll .canonical (p ++ [.punct .closeBrace]) [s] := by
  have hall : DerivesAll .canonical (p ++ [] ++ [.punct .closeBrace]) [s] := by
    refine .cons h (.inl rfl) .nil ?_
    rintro _ ⟨⟩ _
    exact .inr rfl
  simpa using hall

theorem DerivesBlock.canonical {ss : List (Stmt Unit)} (h : DerivesBlock .longest p ss) :
    DerivesBlock .canonical p ss := by
  obtain ⟨us, hp, hus⟩ := h
  exact ⟨us, hp, hus.mono Follow.canonical_of_longest⟩

end Stmt

/-- An empty argument list makes a statement of an expression. -/
theorem Expr.Begun.callStmt {p : List Token} (h : Expr.Begun p) : Stmt.Begun p := by
  refine h.within [] [.punct .openParen, .punct .closeParen] rfl ?_
  rintro us ⟨e, he⟩
  exact ⟨_, .call (he.applied .nil) rfl⟩

def Decl.Begun : List Token → Prop :=
  Begins fun us => ∃ d, Decl.Derives .canonical us d

namespace Read

open Reader

/-! Words. -/

theorem covers_expect (t : Token) (ts : List Token) :
    (bare (expect t)).Covers ts (fun p _ _ => p = [t]) (· = []) := by
  cases ts with
  | nil => exact .ofErrorNil (bare_expect_nil t) rfl rfl
  | cons u rest =>
      by_cases hu : u = t
      · subst hu
        exact .step [u] (bare_expect_self u) (.done rfl)
      · exact .ofErrorCons (bare_expect_of_ne hu) rfl rfl

theorem covers_identifier (ts : List Token) :
    (bare identifier).Covers ts (fun p x _ => p = [.identifier x]) (· = []) := by
  cases ts with
  | nil => exact .ofErrorNil bare_identifier_nil rfl rfl
  | cons t rest =>
      cases t with
      | identifier x => exact .step [.identifier x] (bare_identifier_identifier x) (.done rfl)
      | keyword _ | punct _ | number _ | text _ =>
          exact .ofErrorCons (bare_identifier_of_ne nofun) rfl rfl

theorem covers_type (ts : List Token) :
    (bare type).Covers ts (fun p t _ => ∃ x, p = [.identifier x] ∧ t = ⟨x, false⟩) (· = []) := by
  rw [bare_type]
  refine (covers_identifier ts).andThen (fun _ hp => hp) ?_
  rintro _ x rest _ _ rfl
  exact .done ⟨x, rfl, rfl⟩

theorem covers_typedName (ts : List Token) :
    (bare typedName).Covers ts
      (fun p x _ => ∃ y t, p = [.identifier y, .punct .colon, .identifier t] ∧
        x = ⟨y, ⟨t, false⟩⟩)
      (Begins fun us => ∃ y t, us = [.identifier y, .punct .colon, .identifier t]) := by
  rw [bare_typedName]
  refine (covers_identifier ts).andThen ?_ ?_
  · rintro _ rfl
    exact ⟨_, "", "", rfl⟩
  · rintro _ y rest _ _ rfl
    refine (covers_expect _ rest).andThen ?_ ?_
    · rintro _ rfl
      exact ⟨[.punct .colon, .identifier ""], y, "", rfl⟩
    · rintro _ _ rest _ _ rfl
      refine (covers_type rest).andThen ?_ ?_
      · rintro _ rfl
        exact ⟨[.identifier ""], y, "", rfl⟩
      · rintro _ _ rest _ _ ⟨t, rfl, rfl⟩
        exact .done ⟨y, t, rfl, rfl⟩

theorem covers_typedNames (close : Token) (ts : List Token) :
    (bare (typedNames close)).Covers ts
      (fun p xs _ => ∃ us, p = us ++ [close] ∧ TypedName.DerivesAll us xs)
      (Begins fun us => ∃ xs, TypedName.DerivesAll us xs) := by
  have hnil : Begins (fun us => ∃ xs, TypedName.DerivesAll us xs) [] := ⟨[], [], .nil⟩
  induction ts using typedNames.induct close with
  | case1 => exact .ofErrorNil (bare_typedNames_nil close) rfl hnil
  | case2 rest =>
      exact .step [close] (bare_typedNames_close close) (.done ⟨[], rfl, .nil⟩)
  | case3 t rest hne ih =>
      refine .congr_cons ?_ (bare_typedNames_of_ne hne)
      refine (covers_typedName _).andThen ?_ ?_
      · intro p hp
        refine hp.within [] [] rfl ?_
        rintro _ ⟨y, t, rfl⟩
        exact ⟨_, .cons y t (.inl rfl) .nil⟩
      · rintro _ _ rest hx _ ⟨y, t, rfl, rfl⟩
        refine .skipping _ fun sep hsep _ => ?_
        obtain ⟨x, _, rfl⟩ := exists_phrase hx
        refine (ih x).andThen ?_ ?_
        · intro p hp
          refine hp.within (.identifier y :: .punct .colon :: .identifier t :: sep) [] rfl ?_
          rintro us ⟨xs, hxs⟩
          exact ⟨_, by simpa using hxs.cons y t hsep⟩
        · rintro _ xs _ _ _ ⟨us, rfl, hxs⟩
          exact .done ⟨_, by simp, hxs.cons y t hsep⟩

/-! Expressions. -/

def ExprCovered (ts : List Token) : Prop :=
  (bare expr).Covers ts
    (fun p e rest => Expr.Derives p e ∧ rest.head? ≠ some (.punct .openParen)) Expr.Begun

/-- Argument lists are read behind any written form of the expression that is called. -/
def CallsCovered (e : Expr Unit) (ts : List Token) : Prop :=
  (bare (calls e)).Covers ts
    (fun p e' rest => (∀ us, Expr.Derives us e → Expr.Derives (us ++ p) e') ∧
      rest.head? ≠ some (.punct .openParen))
    (fun p => ∀ us, Expr.Derives us e → Expr.Begun (us ++ p))

def ArgumentsCovered (ts : List Token) : Prop :=
  (bare arguments).Covers ts (fun p es _ => Expr.Applied p es)
    (Begins fun us => ∃ es, Expr.Applied us es)

def ArgumentListCovered (ts : List Token) : Prop :=
  (bare argumentList).Covers ts (fun p es _ => Expr.Closed p es)
    (Begins fun us => ∃ es, Expr.Closed us es)

/-- An expression of one token. -/
theorem exprCovered_leaf {t : Token} {e : Expr Unit} {rest : List Token}
    (hr : ∀ us, bare expr (t :: us) = bare (calls e) us) (he : Expr.Derives [t] e)
    (hcalls : CallsCovered e rest) : ExprCovered (t :: rest) := by
  refine .step [t] hr (hcalls.mono ?_ ?_)
  · rintro p e' rest _ ⟨hp, hrest⟩
    exact ⟨hp [t] he, hrest⟩
  · intro p hp
    exact hp [t] he

theorem exprCovered_openParen {rest : List Token} (hinner : ExprCovered rest)
    (hcalls : ∀ (e : Phrase (Expr Unit) rest.length) (close : Phrase Unit e.rest.length),
      CallsCovered e.value close.rest) : ExprCovered (.punct .openParen :: rest) := by
  refine .step [.punct .openParen] bare_expr_openParen (hinner.andThen ?_ ?_)
  · intro p hp
    refine hp.within [.punct .openParen] [.punct .closeParen] rfl ?_
    rintro us ⟨e, he⟩
    exact ⟨e, .parens he⟩
  · rintro p e rest he _ ⟨hp, _⟩
    refine (covers_expect _ rest).andThen ?_ ?_
    · rintro _ rfl
      exact ⟨[.punct .closeParen], e, by simpa using hp.parens⟩
    · rintro _ _ rest hclose _ rfl
      obtain ⟨e, rfl, rfl⟩ := exists_phrase he
      obtain ⟨close, _, rfl⟩ := exists_phrase hclose
      refine (hcalls e close).mono ?_ ?_
      · rintro q e' rest _ ⟨hq, hrest⟩
        exact ⟨by simpa using hq _ hp.parens, hrest⟩
      · intro q hq
        simpa using hq _ hp.parens

theorem callsCovered_openParen {e : Expr Unit} {rest : List Token}
    (hargs : ArgumentsCovered (.punct .openParen :: rest))
    (hcalls : ∀ a : Phrase (List (Expr Unit)) (rest.length + 1),
      CallsCovered (.call () e a.value) a.rest) :
    CallsCovered e (.punct .openParen :: rest) := by
  refine .congr_cons ?_ (bare_calls_openParen e)
  refine hargs.andThen ?_ ?_
  · intro p hp us hus
    refine hp.within us [] rfl ?_
    rintro word ⟨es, hes⟩
    exact ⟨_, by simpa using hus.applied hes⟩
  · intro p es rest hr _ hes
    obtain ⟨a, rfl, rfl⟩ := exists_phrase hr
    refine (hcalls a).mono ?_ ?_
    · rintro q e' rest _ ⟨hq, hrest⟩
      refine ⟨fun us hus => ?_, hrest⟩
      simpa using hq _ (hus.applied hes)
    · intro q hq us hus
      simpa using hq _ (hus.applied hes)

theorem callsCovered_of_head?_ne {ts : List Token} (h : ts.head? ≠ some (.punct .openParen))
    (e : Expr Unit) : CallsCovered e ts := by
  refine .ofOk e (fun us hus => bare_calls_of_head?_ne (hus ▸ h) e) ⟨?_, h⟩
  intro us hus
  simpa using hus

theorem argumentsCovered_openParen {rest : List Token}
    (h : rest.head? ≠ some (.punct .closeParen)) (hlist : ArgumentListCovered rest) :
    ArgumentsCovered (.punct .openParen :: rest) := by
  refine .stepTo [.punct .openParen] (fun us hus => bare_arguments_of_head?_ne (hus ▸ h))
    (hlist.mono ?_ ?_)
  · intro p es _ _ hes
    exact hes.applied
  · intro p hp
    refine hp.within [.punct .openParen] [] rfl ?_
    rintro us ⟨es, hes⟩
    exact ⟨es, by simpa using hes.applied⟩

theorem argumentListCovered {ts : List Token} (hexpr : ExprCovered ts)
    (hmore : ∀ (e : Phrase (Expr Unit) ts.length) (comma : Phrase Unit e.rest.length),
      ArgumentListCovered comma.rest) : ArgumentListCovered ts := by
  rw [ArgumentListCovered, bare_argumentList]
  refine hexpr.andThen ?_ ?_
  · intro p hp
    refine hp.within [] [.punct .closeParen] rfl ?_
    rintro us ⟨e, he⟩
    exact ⟨[e], he.closed⟩
  · rintro p e rest he _ ⟨hp, _⟩
    by_cases hclose : rest.head? = some (.punct .closeParen)
    · obtain ⟨more, rfl⟩ := List.head?_eq_some_iff.mp hclose
      exact .step [.punct .closeParen] (moreArguments_closeParen e) (.done hp.closed)
    · refine .congr ?_ fun us hus => moreArguments_of_head?_ne (hus ▸ hclose) e
      refine (covers_expect _ rest).andThen ?_ ?_
      · rintro _ rfl
        exact ⟨[.punct .closeParen], [e], by simpa using hp.closed⟩
      · rintro _ _ rest hcomma _ rfl
        obtain ⟨e, rfl, rfl⟩ := exists_phrase he
        obtain ⟨comma, _, rfl⟩ := exists_phrase hcomma
        refine (hmore e comma).andThen ?_ ?_
        · intro q hq
          refine hq.within (p ++ [.punct .comma]) [] (by simp) ?_
          rintro us ⟨es, hes⟩
          exact ⟨_, by simpa using hp.cons_closed hes⟩
        · intro q es _ _ _ hes
          exact .done (by simpa using hp.cons_closed hes)

theorem expr_covered :
    (∀ ts, ExprCovered ts) ∧ (∀ e ts, CallsCovered e ts) ∧ (∀ ts, ArgumentsCovered ts) ∧
      ∀ ts, ArgumentListCovered ts := by
  apply Labelled.expr.mutual_induct (ι := Unit)
  case case1 => exact .ofErrorNil bare_expr_nil rfl .nil
  case case2 => exact fun n _ h => exprCovered_leaf (bare_expr_number n) (.number n) (h ())
  case case3 => exact fun s _ h => exprCovered_leaf (bare_expr_text s) (.text s) (h ())
  case case4 => exact fun x _ h => exprCovered_leaf (bare_expr_identifier x) (.name x) (h ())
  case case5 => exact fun _ => exprCovered_openParen
  case case6 =>
    intro t rest hnumber htext hidentifier hopen
    exact .ofErrorCons (bare_expr_of_ne hnumber htext hidentifier hopen) rfl .nil
  case case7 => exact fun _ _ hargs h => callsCovered_openParen hargs fun a => h a ()
  case case8 => exact fun e _ hopen => callsCovered_of_head?_ne (head?_ne_some hopen) e
  case case9 =>
    intro rest
    exact .step [.punct .openParen, .punct .closeParen] bare_arguments_closeParen (.done .nil)
  case case10 => exact fun _ hclose => argumentsCovered_openParen (head?_ne_some hclose)
  case case11 =>
    intro t rest _ hopen
    exact .ofErrorCons (bare_arguments_of_ne hopen) rfl ⟨_, _, .nil⟩
  case case12 => exact .ofErrorNil bare_arguments_nil rfl ⟨_, _, .nil⟩
  case case13 => exact fun _ => argumentListCovered

theorem covers_expr (ts : List Token) : ExprCovered ts := expr_covered.1 ts

theorem covers_calls (e : Expr Unit) (ts : List Token) : CallsCovered e ts := expr_covered.2.1 e ts

/-! Statements. -/

/-- A call in the place of a statement, behind the tokens `first` that are known to be read. -/
theorem covers_callStmt (first : List Token) {ts : List Token}
    (h : Reader.Covers (fun us => bare expr (first ++ us)) ts
      (fun p e rest => Expr.Derives (first ++ p) e ∧ rest.head? ≠ some (.punct .openParen))
      (fun p => Expr.Begun (first ++ p))) :
    Reader.Covers (fun us => bare callStmt (first ++ us)) ts
      (fun p s rest => Stmt.ReadTo (first ++ p) s rest) (fun p => Stmt.Begun (first ++ p)) where
  read hs := by
    obtain ⟨e, he, hcall, rfl⟩ := bare_callStmt_eq_ok.mp hs
    obtain ⟨p, hts, ⟨hp, hrest⟩, hlocal⟩ := h.read he
    refine ⟨p, hts, .ofExpr (.call hp hcall) rfl hrest, fun us hus => ?_⟩
    exact bare_callStmt_eq_ok.mpr ⟨e, hlocal us hus, hcall, rfl⟩
  failed hs hlate := by
    obtain he | ⟨t, rfl⟩ := bare_expr_of_callStmt_error hs
    · obtain ⟨p, hts, hgot, hp, hlocal⟩ := h.failed he hlate
      exact ⟨p, hts, hgot, hp.callStmt, fun us hus => bare_callStmt_of_error (hlocal us hus)⟩
    · cases hlate

def StmtCovered (ts : List Token) : Prop :=
  (bare stmt).Covers ts Stmt.ReadTo Stmt.Begun

def ElseCovered (ts : List Token) : Prop :=
  (bare elseBlock).Covers ts (fun p no _ => Stmt.DerivesOptionalElse .longest p no)
    (Begins fun us => ∃ no, Stmt.DerivesOptionalElse .canonical us no)

def BlockCovered (ts : List Token) : Prop :=
  (bare block).Covers ts (fun p ss _ => Stmt.DerivesBlock .longest p ss)
    (Begins fun us => ∃ ss, Stmt.DerivesBlock .canonical us ss)

def StmtsCovered (ts : List Token) : Prop :=
  (bare stmts).Covers ts (fun p ss _ => Stmt.DerivesAll .longest p ss)
    (Begins fun us => ∃ ss, Stmt.DerivesAll .canonical us ss)

theorem stmtCovered_if {rest : List Token}
    (hyes : ∀ c : Phrase (Expr Unit) rest.length, BlockCovered c.rest)
    (hno : ∀ (c : Phrase (Expr Unit) rest.length) (yes : Phrase (List (Stmt Unit)) c.rest.length),
      ElseCovered yes.rest) : StmtCovered (.keyword .ifKw :: rest) := by
  refine .step [.keyword .ifKw] bare_stmt_if ((covers_expr rest).andThen ?_ ?_)
  · intro p hp
    refine hp.within [.keyword .ifKw] [.punct .openBrace, .punct .closeBrace] rfl ?_
    rintro us ⟨c, hc⟩
    exact ⟨_, by simpa using Stmt.Derives.ifBlock hc .nil .absent⟩
  · rintro cs c _ hr _ ⟨hc, _⟩
    obtain ⟨c, rfl, rfl⟩ := exists_phrase hr
    refine (hyes c).andThen ?_ ?_
    · intro p hp
      refine hp.within (.keyword .ifKw :: cs) [] rfl ?_
      rintro us ⟨yes, hyes⟩
      exact ⟨_, .ifBlock hc hyes .absent⟩
    · intro ys yes _ hr _ hyes
      obtain ⟨yes, rfl, rfl⟩ := exists_phrase hr
      refine (hno c yes).andThen ?_ ?_
      · intro p hp
        refine hp.within (.keyword .ifKw :: cs ++ ys) [] (by simp) ?_
        rintro us ⟨no, hno⟩
        exact ⟨_, by simpa using Stmt.Derives.ifBlock hc hyes.canonical hno⟩
      · intro ns no rest _ _ hno
        exact .done (.ofBlock (by simpa using Stmt.Derives.ifBlock hc hyes hno) rfl rfl)

theorem stmtCovered_for {rest : List Token}
    (hbody : ∀ c : Phrase (Expr Unit) rest.length, BlockCovered c.rest) :
    StmtCovered (.keyword .forKw :: rest) := by
  refine .step [.keyword .forKw] bare_stmt_for ((covers_expr rest).andThen ?_ ?_)
  · intro p hp
    refine hp.within [.keyword .forKw] [.punct .openBrace, .punct .closeBrace] rfl ?_
    rintro us ⟨c, hc⟩
    exact ⟨_, .forBlock hc .nil⟩
  · rintro cs c _ hr _ ⟨hc, _⟩
    obtain ⟨c, rfl, rfl⟩ := exists_phrase hr
    refine (hbody c).andThen ?_ ?_
    · intro p hp
      refine hp.within (.keyword .forKw :: cs) [] rfl ?_
      rintro us ⟨body, hbody⟩
      exact ⟨_, by simpa using Stmt.Derives.forBlock hc hbody⟩
    · intro ys body _ _ _ hbody
      exact .done (.ofBlock (by simpa using Stmt.Derives.forBlock hc hbody) rfl rfl)

theorem stmtCovered_return_none {rest : List Token}
    (h : ∀ t, rest.head? = some t → t.endsStatement = true) :
    StmtCovered (.keyword .returnKw :: rest) := by
  refine .stepTo [.keyword .returnKw] (fun us hus => bare_stmt_return_none (hus ▸ h)) (.done ?_)
  refine ⟨.leave, fun t ht => ⟨fun _ => ?_, nofun⟩⟩
  exact Token.endsStatement_iff.mp (h t ht)

theorem stmtCovered_return_some {t : Token} (h : ¬ t.endsStatement = true) (rest : List Token) :
    StmtCovered (.keyword .returnKw :: t :: rest) := by
  refine .stepTo [.keyword .returnKw] (fun us hus => bare_stmt_return_some hus h)
    ((covers_expr (t :: rest)).andThen ?_ ?_)
  · intro p hp
    refine hp.within [.keyword .returnKw] [] rfl ?_
    rintro us ⟨e, he⟩
    exact ⟨_, by simpa using Stmt.Derives.leaveWith he⟩
  · rintro p e rest _ _ ⟨hp, hrest⟩
    exact .done (.ofExpr (by simpa using Stmt.Derives.leaveWith hp) rfl hrest)

theorem stmtCovered_return (rest : List Token) : StmtCovered (.keyword .returnKw :: rest) := by
  cases rest with
  | nil => exact stmtCovered_return_none nofun
  | cons t rest =>
      by_cases h : t.endsStatement = true
      · refine stmtCovered_return_none ?_
        rintro _ ⟨⟩
        exact h
      · exact stmtCovered_return_some h rest

theorem stmtCovered_binding {mark : Token} (h : mark.isBindingMark = true) (x : String)
    (rest : List Token) : StmtCovered (.identifier x :: mark :: rest) := by
  refine .step [.identifier x, mark] (bare_stmt_binding h x) ((covers_expr rest).andThen ?_ ?_)
  · intro p hp
    refine hp.within [.identifier x, mark] [] rfl ?_
    rintro us ⟨e, he⟩
    exact ⟨_, by simpa using Stmt.derives_binding h x he⟩
  · rintro p e rest _ _ ⟨hp, hrest⟩
    refine .done (.ofExpr ?_ (Stmt.endsInExpr_bindingStmt x mark e) hrest)
    simpa using Stmt.derives_binding h x hp

theorem stmtCovered_identifier {rest : List Token}
    (h : ∀ mark, rest.head? = some mark → ¬ mark.isBindingMark = true) (x : String) :
    StmtCovered (.identifier x :: rest) := by
  refine .stepTo [.identifier x] (fun us hus => bare_stmt_identifier (hus ▸ h) x) ?_
  refine covers_callStmt [.identifier x] ?_
  refine ((covers_calls (.name () x) rest).mono ?_ ?_).congr fun us _ => bare_expr_identifier x us
  · rintro p e rest _ ⟨hp, hrest⟩
    exact ⟨hp _ (.name x), hrest⟩
  · intro p hp
    exact hp _ (.name x)

theorem stmtCovered_other {ts : List Token} (hif : ts.head? ≠ some (.keyword .ifKw))
    (hfor : ts.head? ≠ some (.keyword .forKw)) (hreturn : ts.head? ≠ some (.keyword .returnKw))
    (hidentifier : ∀ x, ts.head? ≠ some (.identifier x)) : StmtCovered ts := by
  refine .congr (covers_callStmt [] (covers_expr ts)) fun us hus => ?_
  rw [← hus] at hif hfor hreturn hidentifier
  exact bare_stmt_of_head?_ne hif hfor hreturn hidentifier

theorem elseCovered_chain {rest : List Token} (h : StmtCovered (.keyword .ifKw :: rest)) :
    ElseCovered (.keyword .elseKw :: .keyword .ifKw :: rest) := by
  refine .stepTo [.keyword .elseKw] (fun us hus => bare_elseBlock_chain hus)
    (h.withPrefix.andThen ?_ ?_)
  · rintro p ⟨hp, rest', hts⟩
    cases p with
    | nil => exact ⟨[.punct .openBrace, .punct .closeBrace], _, .present (.block .nil)⟩
    | cons t p =>
        cases hts
        obtain ⟨more, s, hs⟩ := hp
        exact ⟨more, _, .present (.chain hs)⟩
  · rintro p s rest' _ hts ⟨hs, _⟩
    obtain ⟨t, q, rfl, _⟩ := hs.exists_head
    cases hts
    exact .done (by simpa using Stmt.DerivesOptionalElse.present (.chain hs))

theorem elseCovered_block {rest : List Token} (h : rest.head? ≠ some (.keyword .ifKw))
    (hblock : BlockCovered rest) : ElseCovered (.keyword .elseKw :: rest) := by
  refine .stepTo [.keyword .elseKw] (fun us hus => bare_elseBlock_block (hus ▸ h))
    (hblock.andThen ?_ ?_)
  · intro p hp
    refine hp.within [.keyword .elseKw] [] rfl ?_
    rintro _ ⟨ss, us, rfl, hss⟩
    exact ⟨_, by simpa using Stmt.DerivesOptionalElse.present (.block hss)⟩
  · rintro _ ss _ _ _ ⟨us, rfl, hss⟩
    exact .done (by simpa using Stmt.DerivesOptionalElse.present (.block hss))

theorem blockCovered_openBrace {rest : List Token} (h : StmtsCovered rest) :
    BlockCovered (.punct .openBrace :: rest) := by
  refine .step [.punct .openBrace] bare_block_openBrace (h.mono ?_ ?_)
  · intro p ss _ _ hss
    exact ⟨p, rfl, hss⟩
  · intro p hp
    refine hp.within [.punct .openBrace] [] rfl ?_
    rintro us ⟨ss, hss⟩
    exact ⟨ss, us, by simp, hss⟩

theorem stmtsCovered_of_head?_ne {ts : List Token}
    (h : ts.head? ≠ some (.punct .closeBrace)) (hfirst : StmtCovered ts)
    (hmore : ∀ s : Phrase (Stmt Unit) ts.length,
      StmtsCovered (skip (.punct .semicolon) s.rest)) : StmtsCovered ts := by
  refine .congr ?_ fun us hus => bare_stmts_of_head?_ne (hus ▸ h)
  refine hfirst.andThen ?_ ?_
  · intro p hp
    refine hp.within [] [.punct .closeBrace] rfl ?_
    rintro us ⟨s, hs⟩
    exact ⟨[s], hs.closeBrace⟩
  · rintro p s _ hr _ ⟨hp, hfollow⟩
    have hcanonical := hp.mono Follow.canonical_of_longest
    refine .skipping _ fun sep hsep hrest => ?_
    obtain ⟨s, rfl, rfl⟩ := exists_phrase hr
    refine (hmore s).withPrefix.andThen ?_ ?_
    · rintro q ⟨⟨more, ss, hss⟩, rest, hq⟩
      -- With nothing read behind the statement, what may follow it is open: then close the block.
      by_cases hempty : sep ++ q = []
      · exact ⟨[.punct .closeBrace], [s.value], by simpa [hempty] using hcanonical.closeBrace⟩
      · refine ⟨more, s.value :: ss, ?_⟩
        have hcons := Stmt.DerivesAll.cons hcanonical hsep hss fun t ht => (hfollow t ?_).1
        · simpa using hcons
        · obtain ⟨u, us, hu⟩ := List.exists_cons_of_ne_nil hempty
          rw [← List.append_assoc, hu] at ht
          rw [hrest, ← hq, ← List.append_assoc, hu]
          exact ht
    · intro q ss rest _ hq hss
      refine .done ?_
      have hcons := Stmt.DerivesAll.cons hp hsep hss fun t ht => hfollow t ?_
      · simpa using hcons
      · rw [hrest, hq, ← List.append_assoc, List.head?_append, ht]
        rfl

theorem stmt_covered :
    (∀ ts, StmtCovered ts) ∧ (∀ ts, ElseCovered ts) ∧ (∀ ts, BlockCovered ts) ∧
      ∀ ts, StmtsCovered ts := by
  apply Labelled.stmt.mutual_induct (ι := Unit)
  case case1 => exact fun _ => stmtCovered_if
  case case2 => exact fun _ => stmtCovered_for
  case case3 => exact stmtCovered_return
  case case4 => exact fun x _ rest h => stmtCovered_binding h x rest
  case case5 =>
    intro x mark rest h
    refine stmtCovered_identifier ?_ x
    rintro _ ⟨⟩
    exact h
  case case6 =>
    intro ts hif hfor hreturn hbinding
    cases ts with
    | nil => exact stmtCovered_other nofun nofun nofun nofun
    | cons t rest =>
        cases t with
        | identifier x =>
            refine stmtCovered_identifier (fun mark hmark => ?_) x
            obtain ⟨more, rfl⟩ := List.head?_eq_some_iff.mp hmark
            exact absurd rfl (hbinding x mark more)
        | keyword _ | punct _ | number _ | text _ =>
            exact stmtCovered_other (head?_ne_some hif) (head?_ne_some hfor)
              (head?_ne_some hreturn) nofun
  case case7 => exact fun _ => elseCovered_chain
  case case8 => exact fun _ hif => elseCovered_block (head?_ne_some hif)
  case case9 =>
    intro ts _ helse
    have hhead := head?_ne_some helse
    exact .ofOk none (fun us hus => bare_elseBlock_of_head?_ne (hus ▸ hhead)) .absent
  case case10 => exact fun _ => blockCovered_openBrace
  case case11 => exact fun t rest h => .ofErrorCons (bare_block_of_ne h) rfl ⟨_, _, .nil⟩
  case case12 => exact .ofErrorNil bare_block_nil rfl ⟨_, _, .nil⟩
  case case13 =>
    intro rest
    exact .step [.punct .closeBrace] bare_stmts_closeBrace (.done .nil)
  case case14 => exact fun _ hclose => stmtsCovered_of_head?_ne (head?_ne_some hclose)

theorem covers_block (ts : List Token) : BlockCovered ts := stmt_covered.2.2.1 ts

/-! Declarations. -/

theorem covers_resultType (ts : List Token) :
    (bare resultType).Covers ts (fun p r _ => Ty.DerivesResult p r)
      (Begins fun us => ∃ r, Ty.DerivesResult us r) := by
  by_cases h : ts.head? = some (.punct .arrow)
  · obtain ⟨rest, rfl⟩ := List.head?_eq_some_iff.mp h
    refine .step [.punct .arrow] bare_resultType_arrow ((covers_type rest).andThen ?_ ?_)
    · rintro _ rfl
      exact ⟨[.identifier ""], _, .present ""⟩
    · rintro _ _ _ _ _ ⟨x, rfl, rfl⟩
      exact .done (.present x)
  · exact .ofOk none (fun us hus => bare_resultType_of_head?_ne (hus ▸ h)) .absent

theorem covers_function (ts : List Token) :
    (bare function).Covers ts
      (fun p f _ => Decl.Derives .longest (.keyword .funcKw :: p) (.function f))
      (fun p => Decl.Begun (.keyword .funcKw :: p)) := by
  rw [bare_function]
  refine (covers_identifier ts).andThen ?_ ?_
  · rintro _ rfl
    exact ⟨_, _, .function "" .nil .absent .nil⟩
  · rintro _ x rest _ _ rfl
    refine (covers_expect _ rest).andThen ?_ ?_
    · rintro _ rfl
      exact ⟨_, _, .function x .nil .absent .nil⟩
    · rintro _ _ rest _ _ rfl
      refine (covers_typedNames _ rest).andThen ?_ ?_
      · intro p hp
        refine hp.within [.keyword .funcKw, .identifier x, .punct .openParen]
          [.punct .closeParen, .punct .openBrace, .punct .closeBrace] rfl ?_
        rintro us ⟨xs, hxs⟩
        exact ⟨_, by simpa using Decl.Derives.function x hxs .absent .nil⟩
      · rintro _ params rest _ _ ⟨ps, rfl, hparams⟩
        refine (covers_resultType rest).andThen ?_ ?_
        · intro p hp
          refine hp.within
            (.keyword .funcKw :: .identifier x :: .punct .openParen :: ps ++ [.punct .closeParen])
            [.punct .openBrace, .punct .closeBrace] (by simp) ?_
          rintro us ⟨result, hresult⟩
          exact ⟨_, by simpa using Decl.Derives.function x hparams hresult .nil⟩
        · intro rs result rest _ _ hresult
          refine (covers_block rest).andThen ?_ ?_
          · intro p hp
            refine hp.within
              (.keyword .funcKw :: .identifier x :: .punct .openParen :: ps ++
                .punct .closeParen :: rs) [] (by simp) ?_
            rintro _ ⟨body, us, rfl, hbody⟩
            exact ⟨_, by simpa using Decl.Derives.function x hparams hresult hbody⟩
          · rintro _ body _ _ _ ⟨us, rfl, hbody⟩
            exact .done (by simpa using Decl.Derives.function x hparams hresult hbody)

theorem covers_struct (ts : List Token) :
    (bare struct).Covers ts
      (fun p s _ => Decl.Derives .longest (.keyword .structKw :: p) (.struct s))
      (fun p => Decl.Begun (.keyword .structKw :: p)) := by
  rw [bare_struct]
  refine (covers_identifier ts).andThen ?_ ?_
  · rintro _ rfl
    exact ⟨_, _, .struct "" .nil⟩
  · rintro _ x rest _ _ rfl
    refine (covers_expect _ rest).andThen ?_ ?_
    · rintro _ rfl
      exact ⟨_, _, .struct x .nil⟩
    · rintro _ _ rest _ _ rfl
      refine (covers_typedNames _ rest).andThen ?_ ?_
      · intro p hp
        refine hp.within [.keyword .structKw, .identifier x, .punct .openBrace]
          [.punct .closeBrace] rfl ?_
        rintro us ⟨xs, hxs⟩
        exact ⟨_, .struct x hxs⟩
      · rintro _ fields rest _ _ ⟨us, rfl, hfields⟩
        exact .done (by simpa using Decl.Derives.struct x hfields)

theorem covers_constant (ts : List Token) :
    (bare constant).Covers ts
      (fun p c _ => Decl.Derives .longest (.keyword .constKw :: p) (.constant c))
      (fun p => Decl.Begun (.keyword .constKw :: p)) := by
  rw [bare_constant]
  refine (covers_typedName ts).andThen ?_ ?_
  · intro p hp
    refine hp.within [.keyword .constKw] [.punct .assign, .identifier ""] rfl ?_
    rintro _ ⟨x, type, rfl⟩
    exact ⟨_, .constant x type (.name "") (.inl rfl)⟩
  · rintro _ _ rest _ _ ⟨x, type, rfl, rfl⟩
    refine (covers_expect _ rest).andThen ?_ ?_
    · rintro _ rfl
      exact ⟨_, _, .constant x type (.name "") (.inl rfl)⟩
    · rintro _ _ rest _ _ rfl
      refine (covers_expr rest).andThen ?_ ?_
      · intro p hp
        refine hp.within [.keyword .constKw, .identifier x, .punct .colon, .identifier type,
          .punct .assign] [] rfl ?_
        rintro us ⟨e, he⟩
        exact ⟨_, .constant x type he (.inl rfl)⟩
      · rintro us e rest _ _ ⟨he, _⟩
        refine .skipping _ fun sep hsep _ => .done ?_
        simpa using Decl.Derives.constant x type he hsep

/-- A declaration is read as its keyword says. -/
theorem covers_decl_keyword {α : Type} {k : Keyword} {r : Reader α} {make : α → Decl Unit}
    {rest : List Token}
    (hr : ∀ us, bare decl (.keyword k :: us) = (r.andThen fun a => done (make a)) us)
    (h : r.Covers rest (fun p a _ => Decl.Derives .longest (.keyword k :: p) (make a))
      fun p => Decl.Begun (.keyword k :: p)) :
    (bare decl).Covers (.keyword k :: rest) (fun p d _ => Decl.Derives .longest p d)
      Decl.Begun := by
  refine .step [.keyword k] hr (h.andThen (fun p hp => hp) ?_)
  intro p a _ _ _ hd
  exact .done (by simpa using hd)

theorem covers_decl (t : Token) (rest : List Token) :
    (bare decl).Covers (t :: rest) (fun p d _ => Decl.Derives .longest p d) Decl.Begun := by
  by_cases hfunc : t = .keyword .funcKw
  · subst hfunc
    exact covers_decl_keyword bare_decl_func (covers_function rest)
  by_cases hstruct : t = .keyword .structKw
  · subst hstruct
    exact covers_decl_keyword bare_decl_struct (covers_struct rest)
  by_cases hconst : t = .keyword .constKw
  · subst hconst
    exact covers_decl_keyword bare_decl_const (covers_constant rest)
  exact .ofErrorCons (bare_decl_other hfunc hstruct hconst) rfl ⟨_, _, .struct "" .nil⟩

theorem covers_imports (ts : List Token) :
    (bare imports).Covers ts (fun p xs _ => Module.DerivesImports p xs)
      (Begins fun us => ∃ xs, Module.DerivesImports us xs) := by
  induction ts using imports.induct with
  | case1 rest ih =>
      refine .step [.keyword .importKw] bare_imports_import ((covers_identifier rest).andThen ?_ ?_)
      · rintro _ rfl
        exact ⟨_, _, .cons "" (.inl rfl) .nil⟩
      · rintro _ x _ hx _ rfl
        refine .skipping _ fun sep hsep _ => ?_
        obtain ⟨name, rfl, rfl⟩ := exists_phrase hx
        refine (ih name).andThen ?_ ?_
        · intro p hp
          refine hp.within (.keyword .importKw :: .identifier name.value :: sep) [] rfl ?_
          rintro us ⟨xs, hxs⟩
          exact ⟨_, by simpa using hxs.cons name.value hsep⟩
        · intro us xs _ _ _ hxs
          exact .done (by simpa using hxs.cons name.value hsep)
  | case2 ts h =>
      have hhead := head?_ne_some h
      exact .ofOk [] (fun us hus => bare_imports_of_head?_ne (hus ▸ hhead)) .nil

theorem covers_decls (ts : List Token) :
    (toEnd decls).Covers ts (fun p ds rest => rest = [] ∧ Decl.DerivesAll .longest p ds)
      (Begins fun us => ∃ ds, Decl.DerivesAll .canonical us ds) := by
  induction ts using Labelled.decls.induct (ι := Unit) with
  | case1 =>
      refine .ofOk [] (fun us hus => ?_) ⟨rfl, .nil⟩
      rw [List.head?_eq_none_iff.mp hus, toEnd_decls_nil]
  | case2 t rest ih =>
      refine .congr_cons ?_ (toEnd_decls_cons t)
      refine (covers_decl t rest).andThen ?_ ?_
      · intro p hp
        refine hp.within [] [] rfl ?_
        rintro us ⟨d, hd⟩
        exact ⟨_, by simpa using Decl.DerivesAll.cons hd .nil⟩
      · intro p d _ hr _ hd
        obtain ⟨d, rfl, rfl⟩ := exists_phrase hr
        refine (ih d).andThen ?_ ?_
        · intro q hq
          refine hq.within p [] rfl ?_
          rintro us ⟨ds, hds⟩
          exact ⟨_, by simpa using (Decl.DerivesAll.cons (hd.mono Follow.canonical_of_longest) hds)⟩
        · rintro q ds _ _ _ ⟨rfl, hds⟩
          exact .done ⟨rfl, by simpa using Decl.DerivesAll.cons hd hds⟩

theorem covers_wholeModule (ts : List Token) :
    (toEnd wholeModule).Covers ts (fun p m rest => rest = [] ∧ Module.Derives .longest p m)
      (Begins fun us => ∃ m, Module.Derives .canonical us m) := by
  rw [toEnd_wholeModule]
  refine (covers_imports ts).andThen ?_ ?_
  · intro p hp
    refine hp.within [] [] rfl ?_
    rintro us ⟨xs, hxs⟩
    exact ⟨⟨xs, []⟩, us, [], by simp, hxs, .nil⟩
  · intro is xs rest _ _ hxs
    refine (covers_decls rest).andThen ?_ ?_
    · intro p hp
      refine hp.within is [] rfl ?_
      rintro us ⟨ds, hds⟩
      exact ⟨⟨xs, ds⟩, is, us, by simp, hxs, hds⟩
    · rintro us ds _ _ _ ⟨rfl, hds⟩
      exact .done ⟨rfl, is, us, by simp, hxs, hds⟩

end Read
end Mis
