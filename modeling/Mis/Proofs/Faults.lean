import Mis.Proofs.Reader

/-!
Which token a failure of the parser is about. A reader leaves an end of the tokens
that it was given, and so does a failure; the token that the failure names is the
first one of what it keeps, and at the end of the input it names none. This holds
also of an expression in the place of a statement, whose failure goes back to the
first token of the expression.
-/
namespace Mis

/-- The token that a failure is about. -/
def ParseCause.token? : ParseCause → Option Token
  | .expected _ t | .expectedIdentifier t | .unexpected t | .expectedDeclaration t
  | .expectedCall t => some t
  | .unexpectedEnd => none

namespace Reader

variable {α β : Type}

/-- What `r` leaves of the tokens `ts` is an end of them, and a failure names the first token of
such an end. -/
structure Locates (r : Reader α) (ts : List Token) : Prop where
  read : ∀ {a : α} {rest : List Token}, r ts = .ok (a, rest) → rest <:+ ts
  failed : ∀ {f : Failure}, r ts = .error f → f.rest <:+ ts ∧ f.cause.token? = f.rest.head?

namespace Locates

variable {r r' : Reader α} {ts us : List Token}

theorem ofOk {a : α} (h : r ts = .ok (a, us)) (hus : us <:+ ts) : r.Locates ts where
  read hread := by
    rw [h] at hread
    cases hread
    exact hus
  failed hfailed := by
    rw [h] at hfailed
    cases hfailed

theorem done (a : α) : (Reader.done a).Locates ts :=
  ofOk rfl (List.suffix_refl ts)

/-- A reader that fails at the first token. -/
theorem ofError {c : ParseCause} (h : r ts = .error ⟨c, ts⟩) (hc : c.token? = ts.head?) :
    r.Locates ts where
  read hread := by
    rw [h] at hread
    cases hread
  failed hfailed := by
    rw [h] at hfailed
    cases hfailed
    exact ⟨List.suffix_refl ts, hc⟩

/-- A reader that goes on as another one does on an end of the tokens. -/
theorem step (h : r.Locates us) (hr : r' ts = r us) (hus : us <:+ ts) : r'.Locates ts where
  read hread := (h.read (hr ▸ hread)).trans hus
  failed hfailed := by
    obtain ⟨hrest, hnamed⟩ := h.failed (hr ▸ hfailed)
    exact ⟨hrest.trans hus, hnamed⟩

/-- A reader that goes over one token. -/
theorem tail {t : Token} (h : r.Locates us) (hr : r' (t :: us) = r us) : r'.Locates (t :: us) :=
  h.step hr (List.suffix_cons t us)

theorem congr (h : r.Locates ts) (hr : r' ts = r ts) : r'.Locates ts :=
  h.step hr (List.suffix_refl ts)

theorem andThen {r : Reader β} {next : β → Reader α} (h : r.Locates ts)
    (hnext : ∀ b rest, r ts = .ok (b, rest) → (next b).Locates rest) :
    (r.andThen next).Locates ts where
  read hread := by
    obtain ⟨b, rest, hr, hread⟩ := andThen_eq_ok.mp hread
    exact ((hnext b rest hr).read hread).trans (h.read hr)
  failed hfailed := by
    obtain hfailed | ⟨b, rest, hr, hfailed⟩ := andThen_eq_error.mp hfailed
    · exact h.failed hfailed
    · obtain ⟨hrest, hnamed⟩ := (hnext b rest hr).failed hfailed
      exact ⟨hrest.trans (h.read hr), hnamed⟩

theorem skipping {next : Unit → Reader α} (t : Token)
    (h : (next ()).Locates (Read.skip t ts)) : ((Reader.skipping t).andThen next).Locates ts := by
  refine h.step rfl ?_
  by_cases ht : ts.head? = some t
  · obtain ⟨rest, rfl⟩ := List.head?_eq_some_iff.mp ht
    rw [Read.skip_self]
    exact List.suffix_cons t rest
  · rewrite [Read.skip_of_head?_ne ht]
    exact List.suffix_refl ts

end Locates
end Reader

namespace Read

open Reader

/-! Words. -/

theorem locates_expect (t : Token) (ts : List Token) : (bare (expect t)).Locates ts := by
  cases ts with
  | nil => exact .ofError (bare_expect_nil t) rfl
  | cons u rest =>
      by_cases hu : u = t
      · subst hu
        exact .ofOk (bare_expect_self u rest) (List.suffix_cons u rest)
      · exact .ofError (bare_expect_of_ne hu rest) rfl

theorem locates_identifier (ts : List Token) : (bare identifier).Locates ts := by
  cases ts with
  | nil => exact .ofError bare_identifier_nil rfl
  | cons t rest =>
      cases t with
      | identifier x => exact .ofOk (bare_identifier_identifier x rest) (List.suffix_cons _ rest)
      | keyword _ | punct _ | number _ | text _ =>
          exact .ofError (bare_identifier_of_ne (by rintro x ⟨⟩) rest) rfl

theorem locates_type (ts : List Token) : (bare type).Locates ts := by
  rw [bare_type]
  exact (locates_identifier ts).andThen fun _ _ _ => .done _

theorem locates_typedName (ts : List Token) : (bare typedName).Locates ts := by
  rw [bare_typedName]
  refine (locates_identifier ts).andThen fun _ rest _ => ?_
  refine (locates_expect _ rest).andThen fun _ rest _ => ?_
  exact (locates_type rest).andThen fun _ _ _ => .done _

theorem locates_typedNames (close : Token) (ts : List Token) :
    (bare (typedNames close)).Locates ts := by
  induction ts using typedNames.induct close with
  | case1 => exact .ofError (bare_typedNames_nil close) rfl
  | case2 rest => exact .ofOk (bare_typedNames_close close rest) (List.suffix_cons close rest)
  | case3 t rest hne ih =>
      refine .congr ?_ (bare_typedNames_of_ne hne rest)
      refine (locates_typedName _).andThen fun _ _ hx => ?_
      obtain ⟨x, _, rfl⟩ := exists_phrase hx
      exact .skipping _ ((ih x).andThen fun _ _ _ => .done _)

/-! Expressions. -/

theorem locates_expr_openParen {rest : List Token} (hinner : (bare expr).Locates rest)
    (hcalls : ∀ (e : Phrase (Expr Unit) rest.length) (close : Phrase Unit e.rest.length),
      (bare (calls e.value)).Locates close.rest) :
    (bare expr).Locates (.punct .openParen :: rest) := by
  refine .tail (hinner.andThen fun _ _ he => ?_) (bare_expr_openParen rest)
  obtain ⟨e, rfl, rfl⟩ := exists_phrase he
  refine (locates_expect _ e.rest).andThen fun _ _ hclose => ?_
  obtain ⟨close, _, rfl⟩ := exists_phrase hclose
  exact hcalls e close

theorem locates_argumentList {ts : List Token} (hexpr : (bare expr).Locates ts)
    (hmore : ∀ (e : Phrase (Expr Unit) ts.length) (comma : Phrase Unit e.rest.length),
      (bare argumentList).Locates comma.rest) : (bare argumentList).Locates ts := by
  rw [bare_argumentList]
  refine hexpr.andThen fun _ _ he => ?_
  obtain ⟨e, rfl, rfl⟩ := exists_phrase he
  by_cases hclose : e.rest.head? = some (.punct .closeParen)
  · obtain ⟨more, hrest⟩ := List.head?_eq_some_iff.mp hclose
    rw [hrest]
    exact .ofOk (moreArguments_closeParen e.value more) (List.suffix_cons _ more)
  · refine .congr ?_ (moreArguments_of_head?_ne hclose e.value)
    refine (locates_expect _ e.rest).andThen fun _ _ hcomma => ?_
    obtain ⟨comma, _, rfl⟩ := exists_phrase hcomma
    exact (hmore e comma).andThen fun _ _ _ => .done _

theorem expr_located :
    (∀ ts, (bare expr).Locates ts) ∧ (∀ e ts, (bare (calls e)).Locates ts) ∧
      (∀ ts, (bare arguments).Locates ts) ∧ ∀ ts, (bare argumentList).Locates ts := by
  apply Labelled.expr.mutual_induct (ι := Unit)
  case case1 => exact .ofError bare_expr_nil rfl
  case case2 => exact fun n rest h => (h ()).tail (bare_expr_number n rest)
  case case3 => exact fun s rest h => (h ()).tail (bare_expr_text s rest)
  case case4 => exact fun x rest h => (h ()).tail (bare_expr_identifier x rest)
  case case5 => exact fun _ => locates_expr_openParen
  case case6 =>
    intro t rest hnumber htext hidentifier hopen
    exact .ofError (bare_expr_of_ne hnumber htext hidentifier hopen rest) rfl
  case case7 =>
    intro e rest hargs hcalls
    refine .congr (hargs.andThen fun _ _ ha => ?_) (bare_calls_openParen e rest)
    obtain ⟨a, rfl, rfl⟩ := exists_phrase ha
    exact hcalls a ()
  case case8 =>
    intro e ts hopen
    exact .ofOk (bare_calls_of_head?_ne (head?_ne_some hopen) e) (List.suffix_refl ts)
  case case9 =>
    intro rest
    exact .ofOk (bare_arguments_closeParen rest)
      ((List.suffix_cons _ rest).trans (List.suffix_cons _ _))
  case case10 =>
    intro rest hclose h
    exact h.tail (bare_arguments_of_head?_ne (head?_ne_some hclose))
  case case11 =>
    intro t rest _ hopen
    exact .ofError (bare_arguments_of_ne hopen rest) rfl
  case case12 => exact .ofError bare_arguments_nil rfl
  case case13 => exact fun _ => locates_argumentList

theorem locates_expr (ts : List Token) : (bare expr).Locates ts := expr_located.1 ts

/-! Statements. -/

/-- An expression that is no call is blamed on its first token. -/
theorem locates_callStmt (ts : List Token) : (bare callStmt).Locates ts where
  read hread := by
    obtain ⟨e, he, _, _⟩ := bare_callStmt_eq_ok.mp hread
    exact (locates_expr ts).read he
  failed hfailed := by
    cases ts with
    | nil =>
        cases hfailed
        exact ⟨List.suffix_refl [], rfl⟩
    | cons t rest =>
        rw [bare_callStmt_cons] at hfailed
        obtain hfailed | ⟨e, _, _, hfailed⟩ := andThen_eq_error.mp hfailed
        · exact (locates_expr _).failed hfailed
        · split at hfailed
          · cases hfailed
          · cases hfailed
            exact ⟨List.suffix_refl _, rfl⟩

theorem locates_stmt_if {rest : List Token}
    (hyes : ∀ c : Phrase (Expr Unit) rest.length, (bare block).Locates c.rest)
    (hno : ∀ (c : Phrase (Expr Unit) rest.length) (yes : Phrase (List (Stmt Unit)) c.rest.length),
      (bare elseBlock).Locates yes.rest) : (bare stmt).Locates (.keyword .ifKw :: rest) := by
  refine .tail ((locates_expr rest).andThen fun _ _ hc => ?_) (bare_stmt_if rest)
  obtain ⟨c, rfl, rfl⟩ := exists_phrase hc
  refine (hyes c).andThen fun _ _ hblock => ?_
  obtain ⟨yes, rfl, rfl⟩ := exists_phrase hblock
  exact (hno c yes).andThen fun _ _ _ => .done _

theorem locates_stmt_for {rest : List Token}
    (hbody : ∀ c : Phrase (Expr Unit) rest.length, (bare block).Locates c.rest) :
    (bare stmt).Locates (.keyword .forKw :: rest) := by
  refine .tail ((locates_expr rest).andThen fun _ _ hc => ?_) (bare_stmt_for rest)
  obtain ⟨c, rfl, rfl⟩ := exists_phrase hc
  exact (hbody c).andThen fun _ _ _ => .done _

theorem locates_stmt_return (rest : List Token) :
    (bare stmt).Locates (.keyword .returnKw :: rest) := by
  by_cases h : ∀ t, rest.head? = some t → t.endsStatement = true
  · exact .ofOk (bare_stmt_return_none h) (List.suffix_cons _ rest)
  · obtain ⟨t, h⟩ := Classical.not_forall.mp h
    obtain ⟨ht, hends⟩ := Classical.not_imp.mp h
    exact .tail ((locates_expr rest).andThen fun _ _ _ => .done _) (bare_stmt_return_some ht hends)

theorem locates_stmts {ts : List Token} (h : ts.head? ≠ some (.punct .closeBrace))
    (hfirst : (bare stmt).Locates ts)
    (hmore : ∀ s : Phrase (Stmt Unit) ts.length,
      (bare stmts).Locates (skip (.punct .semicolon) s.rest)) : (bare stmts).Locates ts := by
  refine .congr (hfirst.andThen fun _ _ hs => ?_) (bare_stmts_of_head?_ne h)
  obtain ⟨s, rfl, rfl⟩ := exists_phrase hs
  exact .skipping _ ((hmore s).andThen fun _ _ _ => .done _)

theorem stmt_located :
    (∀ ts, (bare stmt).Locates ts) ∧ (∀ ts, (bare elseBlock).Locates ts) ∧
      (∀ ts, (bare block).Locates ts) ∧ ∀ ts, (bare stmts).Locates ts := by
  apply Labelled.stmt.mutual_induct (ι := Unit)
  case case1 => exact fun _ => locates_stmt_if
  case case2 => exact fun _ => locates_stmt_for
  case case3 => exact locates_stmt_return
  case case4 =>
    intro x mark rest h
    exact .step ((locates_expr rest).andThen fun _ _ _ => .done _) (bare_stmt_binding h x rest)
      ((List.suffix_cons _ rest).trans (List.suffix_cons _ _))
  case case5 =>
    intro x mark rest h
    refine (locates_callStmt _).congr (bare_stmt_identifier ?_ x)
    rintro _ ⟨⟩
    exact h
  case case6 =>
    intro ts hif hfor hreturn hbinding
    refine (locates_callStmt ts).congr ?_
    cases ts with
    | nil => exact bare_stmt_of_head?_ne nofun nofun nofun nofun
    | cons t rest =>
        cases t with
        | identifier x =>
            refine bare_stmt_identifier (fun mark hmark => ?_) x
            obtain ⟨more, rfl⟩ := List.head?_eq_some_iff.mp hmark
            exact absurd rfl (hbinding x mark more)
        | keyword _ | punct _ | number _ | text _ =>
            exact bare_stmt_of_head?_ne (head?_ne_some hif) (head?_ne_some hfor)
              (head?_ne_some hreturn) nofun
  case case7 =>
    intro rest h
    exact .tail (h.andThen fun _ _ _ => .done _) (bare_elseBlock_chain rfl)
  case case8 =>
    intro rest hif h
    exact .tail (h.andThen fun _ _ _ => .done _) (bare_elseBlock_block (head?_ne_some hif))
  case case9 =>
    intro ts _ helse
    exact .ofOk (bare_elseBlock_of_head?_ne (head?_ne_some helse)) (List.suffix_refl ts)
  case case10 => exact fun rest h => h.tail (bare_block_openBrace rest)
  case case11 => exact fun t rest h => .ofError (bare_block_of_ne h rest) rfl
  case case12 => exact .ofError bare_block_nil rfl
  case case13 => exact fun rest => .ofOk (bare_stmts_closeBrace rest) (List.suffix_cons _ rest)
  case case14 => exact fun _ hclose => locates_stmts (head?_ne_some hclose)

theorem locates_block (ts : List Token) : (bare block).Locates ts := stmt_located.2.2.1 ts

/-! Declarations. -/

theorem locates_resultType (ts : List Token) : (bare resultType).Locates ts := by
  by_cases h : ts.head? = some (.punct .arrow)
  · obtain ⟨rest, rfl⟩ := List.head?_eq_some_iff.mp h
    exact .tail ((locates_type rest).andThen fun _ _ _ => .done _) (bare_resultType_arrow rest)
  · exact .ofOk (bare_resultType_of_head?_ne h) (List.suffix_refl ts)

theorem locates_function (ts : List Token) : (bare function).Locates ts := by
  rw [bare_function]
  refine (locates_identifier ts).andThen fun _ rest _ => ?_
  refine (locates_expect _ rest).andThen fun _ rest _ => ?_
  refine (locates_typedNames _ rest).andThen fun _ rest _ => ?_
  refine (locates_resultType rest).andThen fun _ rest _ => ?_
  exact (locates_block rest).andThen fun _ _ _ => .done _

theorem locates_struct (ts : List Token) : (bare struct).Locates ts := by
  rw [bare_struct]
  refine (locates_identifier ts).andThen fun _ rest _ => ?_
  refine (locates_expect _ rest).andThen fun _ rest _ => ?_
  exact (locates_typedNames _ rest).andThen fun _ _ _ => .done _

theorem locates_constant (ts : List Token) : (bare constant).Locates ts := by
  rw [bare_constant]
  refine (locates_typedName ts).andThen fun _ rest _ => ?_
  refine (locates_expect _ rest).andThen fun _ rest _ => ?_
  exact (locates_expr rest).andThen fun _ _ _ => .skipping _ (.done _)

theorem locates_decl (t : Token) (rest : List Token) : (bare decl).Locates (t :: rest) := by
  by_cases hfunc : t = .keyword .funcKw
  · subst hfunc
    exact .tail ((locates_function rest).andThen fun _ _ _ => .done _) (bare_decl_func rest)
  by_cases hstruct : t = .keyword .structKw
  · subst hstruct
    exact .tail ((locates_struct rest).andThen fun _ _ _ => .done _) (bare_decl_struct rest)
  by_cases hconst : t = .keyword .constKw
  · subst hconst
    exact .tail ((locates_constant rest).andThen fun _ _ _ => .done _) (bare_decl_const rest)
  exact .ofError (bare_decl_other hfunc hstruct hconst rest) rfl

theorem locates_imports (ts : List Token) : (bare imports).Locates ts := by
  induction ts using imports.induct with
  | case1 rest ih =>
      refine .tail ((locates_identifier rest).andThen fun _ _ hx => ?_) (bare_imports_import rest)
      obtain ⟨x, rfl, rfl⟩ := exists_phrase hx
      exact .skipping _ ((ih x).andThen fun _ _ _ => .done _)
  | case2 ts h => exact .ofOk (bare_imports_of_head?_ne (head?_ne_some h)) (List.suffix_refl ts)

theorem locates_decls (ts : List Token) : (toEnd decls).Locates ts := by
  induction ts using Labelled.decls.induct (ι := Unit) with
  | case1 => exact .ofOk toEnd_decls_nil (List.suffix_refl [])
  | case2 t rest ih =>
      refine .congr ((locates_decl t rest).andThen fun _ _ hd => ?_) (toEnd_decls_cons t rest)
      obtain ⟨d, rfl, rfl⟩ := exists_phrase hd
      exact (ih d).andThen fun _ _ _ => .done _

theorem locates_wholeModule (ts : List Token) : (toEnd wholeModule).Locates ts := by
  rw [toEnd_wholeModule]
  refine (locates_imports ts).andThen fun _ rest _ => ?_
  exact (locates_decls rest).andThen fun _ _ _ => .done _

end Read
end Mis
