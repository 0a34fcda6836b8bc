import Mis.Proofs.Labels
import Mis.Proofs.Reading

/-!
The parser accepts exactly the grammar. What is derived by the rule of the longest
match is read back, whatever stands behind it, as long as it cannot be taken for
a part of it; and what is read is derived. Since every token list with a reading
has one by the longest match, the parser accepts it, and the tree it returns is
that of a derivation from all tokens.
-/
namespace Mis
namespace Read

open Reader

variable {ts rest : List Token}

/-! Words. -/

theorem bare_typedName_self (x type : String) (rest : List Token) :
    bare typedName (.identifier x :: .punct .colon :: .identifier type :: rest) =
      .ok (⟨x, ⟨type, false⟩⟩, rest) := rfl

/-- An optional token that is there is skipped, and one that is not does not stand behind. -/
theorem skip_optional {t : Token} {sep : List Token} (h : Optional t sep)
    (hrest : rest.head? ≠ some t) : skip t (sep ++ rest) = rest := by
  obtain rfl | rfl := h
  · exact skip_of_head?_ne hrest
  · exact skip_self t rest

theorem bare_typedNames_of_derives {p : Punct} (hp : p ≠ .comma) {xs : List TypedName}
    (h : TypedName.DerivesAll ts xs) (rest : List Token) :
    bare (typedNames (.punct p)) (ts ++ .punct p :: rest) = .ok (xs, rest) := by
  induction h with
  | nil => exact bare_typedNames_close (.punct p) rest
  | @cons sep us xs x type hsep hxs ih =>
      have hhead : (us ++ .punct p :: rest).head? ≠ some (.punct .comma) := by
        cases hxs with
        | nil => simpa using hp
        | cons y type _ _ => simp
      simp only [List.cons_append, List.append_assoc]
      have hclose : Token.identifier x ≠ .punct p := nofun
      rw [bare_typedNames_of_ne hclose, andThen_of_ok (bare_typedName_self x type _),
        skipping_andThen, skip_optional hsep hhead, andThen_of_ok ih]
      rfl

/-! Expressions. -/

theorem commaSeparated_cons_cons (us vs : List Token) (more : List (List Token))
    (rest : List Token) :
    commaSeparated (us :: vs :: more) ++ rest =
      us ++ .punct .comma :: (commaSeparated (vs :: more) ++ rest) := by
  simp [commaSeparated]

theorem bare_argumentList_of_derives {args : List (List Token × Expr Unit)} (hne : args ≠ [])
    (h : ∀ a ∈ args, ∀ rest, bare expr (a.1 ++ rest) = bare (calls a.2) rest)
    (rest : List Token) :
    bare argumentList (commaSeparated (args.map (·.1)) ++ .punct .closeParen :: rest) =
      .ok (args.map (·.2), rest) := by
  induction args with
  | nil => exact absurd rfl hne
  | cons a args ih =>
      have ha : ∀ us : List Token, us.head? ≠ some (.punct .openParen) →
          bare expr (a.1 ++ us) = .ok (a.2, us) := by
        intro us hus
        rw [h a List.mem_cons_self, bare_calls_of_head?_ne hus]
      rw [bare_argumentList]
      cases args with
      | nil => exact andThen_of_ok (ha (.punct .closeParen :: rest) (by simp))
      | cons b args =>
          have hmore := ih (by simp) fun c hc => h c (List.mem_cons_of_mem a hc)
          simp only [List.map_cons] at hmore ⊢
          rw [commaSeparated_cons_cons, andThen_of_ok (ha _ (by simp)),
            moreArguments_of_head?_ne (by simp), andThen_of_ok (bare_expect_self _ _),
            andThen_of_ok hmore]
          rfl

theorem bare_arguments_of_derives {args : List (List Token × Expr Unit)}
    (hargs : ∀ a ∈ args, Expr.Derives a.1 a.2)
    (h : ∀ a ∈ args, ∀ rest, bare expr (a.1 ++ rest) = bare (calls a.2) rest)
    (rest : List Token) :
    bare arguments (.punct .openParen :: (commaSeparated (args.map (·.1)) ++
      .punct .closeParen :: rest)) = .ok (args.map (·.2), rest) := by
  cases args with
  | nil => exact bare_arguments_closeParen rest
  | cons a args =>
      rw [bare_arguments_of_head?_ne, bare_argumentList_of_derives (by simp) h]
      obtain ⟨t, us, hts, ht⟩ := (hargs a List.mem_cons_self).exists_head
      have hhead : (commaSeparated ((a :: args).map (·.1)) ++ .punct .closeParen :: rest).head? =
          some t := by
        cases args <;> simp [commaSeparated, hts]
      rw [hhead]
      rintro ⟨⟩
      cases ht

theorem bare_expr_of_derives {e : Expr Unit} (h : Expr.Derives ts e) (rest : List Token) :
    bare expr (ts ++ rest) = bare (calls e) rest := by
  induction h generalizing rest with
  | number n => exact bare_expr_number n rest
  | text s => exact bare_expr_text s rest
  | name x => exact bare_expr_identifier x rest
  | @parens us e _ ih =>
      have hinner : bare expr (us ++ .punct .closeParen :: rest) =
          .ok (e, .punct .closeParen :: rest) := by
        rw [ih, bare_calls_of_head?_ne (by simp)]
      simp only [List.cons_append, List.append_assoc, List.nil_append]
      rw [bare_expr_openParen, andThen_of_ok hinner, andThen_of_ok (bare_expect_self _ rest)]
  | call args _ hargs ih ihargs =>
      simp only [List.cons_append, List.append_assoc, List.nil_append]
      rw [ih, bare_calls_openParen,
        andThen_of_ok (bare_arguments_of_derives hargs (fun a ha => ihargs a ha) rest)]

/-- An expression is read whole where no argument list stands behind it. -/
theorem bare_expr_eq_ok {e : Expr Unit} (h : Expr.Derives ts e)
    (hrest : rest.head? ≠ some (.punct .openParen)) : bare expr (ts ++ rest) = .ok (e, rest) := by
  rw [bare_expr_of_derives h, bare_calls_of_head?_ne hrest]

/-! Statements. -/

theorem bare_stmt_of_call {e : Expr Unit} (h : Expr.Derives ts e) (hcall : e.isCall = true)
    (hrest : rest.head? ≠ some (.punct .openParen)) :
    bare stmt (ts ++ rest) = .ok (.call () e, rest) := by
  have hread : bare callStmt (ts ++ rest) = .ok (.call () e, rest) :=
    bare_callStmt_eq_ok.mpr ⟨e, bare_expr_eq_ok h hrest, hcall, rfl⟩
  obtain ⟨t, us, rfl, ht⟩ := h.exists_head
  rw [← hread]
  cases t with
  | identifier x =>
      refine bare_stmt_identifier ?_ x
      obtain ⟨_, rfl⟩ | hopen := h.identifier_cons rfl
      · cases hcall
      · obtain ⟨more, rfl⟩ := List.head?_eq_some_iff.mp hopen
        rintro _ ⟨⟩
        nofun
  | keyword k => cases ht
  | number n | text s => exact bare_stmt_of_head?_ne nofun nofun nofun nofun
  | punct p => exact bare_stmt_of_head?_ne nofun nofun nofun nofun

theorem bare_stmt_of_binding {e : Expr Unit} {mark : Token} (hmark : mark.isBindingMark = true)
    (x : String) (h : Expr.Derives ts e) (hrest : rest.head? ≠ some (.punct .openParen)) :
    bare stmt (.identifier x :: mark :: ts ++ rest) = .ok (bindingStmt () x mark e, rest) := by
  simp only [List.cons_append]
  rw [bare_stmt_binding hmark, andThen_of_ok (bare_expr_eq_ok h hrest)]
  rfl

theorem bare_stmt_of_leaveWith {e : Expr Unit} (h : Expr.Derives ts e)
    (hrest : rest.head? ≠ some (.punct .openParen)) :
    bare stmt (.keyword .returnKw :: ts ++ rest) = .ok (.leave () (some e), rest) := by
  obtain ⟨t, us, rfl, ht⟩ := h.exists_head
  have hends : ¬ t.endsStatement = true := by
    rw [Token.endsStatement_iff]
    rintro (rfl | rfl) <;> cases ht
  simp only [List.cons_append]
  rw [bare_stmt_return_some rfl hends, ← List.cons_append,
    andThen_of_ok (bare_expr_eq_ok h hrest)]
  rfl

theorem bare_stmt_of_branch {cs ys us vs : List Token} {c : Expr Unit} {yes : List (Stmt Unit)}
    {no : Option (List (Stmt Unit))} (hc : Expr.Derives cs c)
    (hyes : bare stmts ys = .ok (yes, us)) (hno : bare elseBlock us = .ok (no, vs)) :
    bare stmt (.keyword .ifKw :: (cs ++ .punct .openBrace :: ys)) =
      .ok (.branch () c yes no, vs) := by
  have hblock : bare block (.punct .openBrace :: ys) = .ok (yes, us) := by
    rw [bare_block_openBrace, hyes]
  rw [bare_stmt_if, andThen_of_ok (bare_expr_eq_ok hc (by simp)), andThen_of_ok hblock,
    andThen_of_ok hno]
  rfl

theorem bare_stmt_of_loop {cs ys us : List Token} {c : Expr Unit} {body : List (Stmt Unit)}
    (hc : Expr.Derives cs c) (hbody : bare stmts ys = .ok (body, us)) :
    bare stmt (.keyword .forKw :: (cs ++ .punct .openBrace :: ys)) = .ok (.loop () c body, us) := by
  have hblock : bare block (.punct .openBrace :: ys) = .ok (body, us) := by
    rw [bare_block_openBrace, hbody]
  rw [bare_stmt_for, andThen_of_ok (bare_expr_eq_ok hc (by simp)), andThen_of_ok hblock]
  rfl

theorem longest_of_if {follow : Follow} {s : Stmt Unit}
    (h : Stmt.Derives follow (.keyword .ifKw :: ts) s) (t : Token) : Follow.longest s t := by
  cases h with
  | branch _ _ | branchElse _ _ _ => exact ⟨nofun, nofun⟩
  | call he _ =>
      obtain ⟨u, us, hts, hu⟩ := he.exists_head
      cases hts
      cases hu

theorem bare_stmts_cons {sep us : List Token} {s : Stmt Unit} {ss : List (Stmt Unit)}
    (hts : Stmt.Derives .longest ts s) (hsep : Optional (.punct .semicolon) sep)
    (hus : Stmt.DerivesAll .longest us ss)
    (hfirst : ∀ {rest : List Token}, (∀ t, rest.head? = some t → Follow.longest s t) →
      rest.head? ≠ some (.keyword .elseKw) → bare stmt (ts ++ rest) = .ok (s, rest))
    (hmore : bare stmts (us ++ rest) = .ok (ss, rest))
    (hfollow : ∀ t, (sep ++ us).head? = some t → Follow.longest s t) :
    bare stmts (ts ++ sep ++ us ++ rest) = .ok (s :: ss, rest) := by
  obtain ⟨u, vs, rfl, hsemicolon, helse⟩ := hus.exists_head_ne
  have hclose : (ts ++ (sep ++ (u :: vs ++ rest))).head? ≠ some (.punct .closeBrace) := by
    obtain ⟨t, more, rfl, ht⟩ := hts.exists_head
    rintro ⟨⟩
    cases ht
  have hread : bare stmt (ts ++ (sep ++ (u :: vs ++ rest))) =
      .ok (s, sep ++ (u :: vs ++ rest)) := by
    obtain rfl | rfl := hsep
    · exact hfirst (fun t ht => hfollow t ht) fun h => helse (Option.some.inj h)
    · exact hfirst (fun t ht => hfollow t ht) (by simp)
  have hskip : skip (.punct .semicolon) (sep ++ (u :: vs ++ rest)) = u :: vs ++ rest :=
    skip_optional hsep fun h => hsemicolon (Option.some.inj h)
  rw [List.append_assoc, List.append_assoc, bare_stmts_of_head?_ne hclose, andThen_of_ok hread,
    skipping_andThen, hskip, andThen_of_ok hmore]
  rfl

mutual

theorem bare_stmt_of_derives : ∀ {ts : List Token} {s : Stmt Unit}, Stmt.Derives .longest ts s →
    ∀ {rest : List Token}, (∀ t, rest.head? = some t → Follow.longest s t) →
      rest.head? ≠ some (.keyword .elseKw) → bare stmt (ts ++ rest) = .ok (s, rest)
  | _, _, .declare storage x he, _, hfollow, _ => by
      have hopen := fun h => (hfollow _ h).2 rfl rfl
      cases storage with
      | shared => exact bare_stmt_of_binding rfl x he hopen
      | own => exact bare_stmt_of_binding rfl x he hopen
  | _, _, .assign x he, _, hfollow, _ =>
      bare_stmt_of_binding rfl x he fun h => (hfollow _ h).2 rfl rfl
  | _, _, .branch hc hyes, rest, _, helse => by
      have hread := bare_stmt_of_branch hc (bare_stmts_of_derives hyes rest)
        (bare_elseBlock_of_head?_ne helse)
      simpa using hread
  | _, _, @Stmt.Derives.branchElse _ _ _ ns _ _ _ hc hyes hno, rest, _, helse => by
      have hread := bare_stmt_of_branch hc
        (bare_stmts_of_derives hyes (.keyword .elseKw :: (ns ++ rest)))
        (bare_elseBlock_of_derives hno helse)
      simpa using hread
  | _, _, .loop hc hbody, rest, _, _ => by
      simpa using bare_stmt_of_loop hc (bare_stmts_of_derives hbody rest)
  | _, _, .leave, _, hfollow, _ =>
      bare_stmt_return_none fun t ht => Token.endsStatement_iff.mpr ((hfollow t ht).1 rfl)
  | _, _, .leaveWith he, _, hfollow, _ =>
      bare_stmt_of_leaveWith he fun h => (hfollow _ h).2 rfl rfl
  | _, _, .call he hcall, _, hfollow, _ =>
      bare_stmt_of_call he hcall fun h => (hfollow _ h).2 rfl rfl

theorem bare_stmts_of_derives : ∀ {ts : List Token} {ss : List (Stmt Unit)},
    Stmt.DerivesAll .longest ts ss → ∀ rest, bare stmts (ts ++ rest) = .ok (ss, rest)
  | _, _, .nil, rest => bare_stmts_closeBrace rest
  | _, _, .cons hs hsep hss hfollow, rest =>
      bare_stmts_cons hs hsep hss (bare_stmt_of_derives hs) (bare_stmts_of_derives hss rest) hfollow

theorem bare_elseBlock_of_derives : ∀ {ts : List Token} {ss : List (Stmt Unit)},
    Stmt.DerivesElse .longest ts ss → ∀ {rest : List Token},
      rest.head? ≠ some (.keyword .elseKw) →
      bare elseBlock (.keyword .elseKw :: (ts ++ rest)) = .ok (some ss, rest)
  | _, _, .block hss, rest, _ => by
      rw [bare_elseBlock_block (by simp), List.cons_append,
        andThen_of_ok ((bare_block_openBrace _).trans (bare_stmts_of_derives hss rest))]
      rfl
  | _, _, .chain hs, rest, helse => by
      have hread := bare_stmt_of_derives hs (fun t _ => longest_of_if hs t) helse
      rw [bare_elseBlock_chain rfl, andThen_of_ok hread]
      rfl

end

/-! Declarations. -/

theorem bare_resultType_of_derives {result : Option Ty} (h : Ty.DerivesResult ts result)
    (hrest : rest.head? ≠ some (.punct .arrow)) :
    bare resultType (ts ++ rest) = .ok (result, rest) := by
  cases h with
  | absent => exact bare_resultType_of_head?_ne hrest
  | present type => rfl

theorem bare_decl_of_function {ps rs us : List Token} {params : List TypedName}
    {result : Option Ty} {body : List (Stmt Unit)} (x : String)
    (hparams : TypedName.DerivesAll ps params) (hresult : Ty.DerivesResult rs result)
    (hbody : Stmt.DerivesAll .longest us body) (rest : List Token) :
    bare decl (.keyword .funcKw :: .identifier x :: .punct .openParen :: (ps ++
      .punct .closeParen :: (rs ++ .punct .openBrace :: (us ++ rest)))) =
      .ok (.function ⟨x, params, result, body⟩, rest) := by
  have hblock := (bare_block_openBrace (us ++ rest)).trans (bare_stmts_of_derives hbody rest)
  have hread : bare function (.identifier x :: .punct .openParen :: (ps ++
      .punct .closeParen :: (rs ++ .punct .openBrace :: (us ++ rest)))) =
      .ok (⟨x, params, result, body⟩, rest) := by
    rw [bare_function, andThen_of_ok (bare_identifier_identifier x _),
      andThen_of_ok (bare_expect_self _ _),
      andThen_of_ok (bare_typedNames_of_derives (by decide) hparams _),
      andThen_of_ok (bare_resultType_of_derives hresult (by simp)), andThen_of_ok hblock]
    rfl
  rw [bare_decl_func, andThen_of_ok hread]
  rfl

theorem bare_decl_of_struct {fields : List TypedName} (x : String)
    (h : TypedName.DerivesAll ts fields) (rest : List Token) :
    bare decl (.keyword .structKw :: .identifier x :: .punct .openBrace :: (ts ++
      .punct .closeBrace :: rest)) = .ok (.struct ⟨x, fields⟩, rest) := by
  have hread : bare struct (.identifier x :: .punct .openBrace :: (ts ++
      .punct .closeBrace :: rest)) = .ok (⟨x, fields⟩, rest) := by
    rw [bare_struct, andThen_of_ok (bare_identifier_identifier x _),
      andThen_of_ok (bare_expect_self _ _),
      andThen_of_ok (bare_typedNames_of_derives (by decide) h _)]
    rfl
  rw [bare_decl_struct, andThen_of_ok hread]
  rfl

theorem bare_decl_of_constant {sep : List Token} {e : Expr Unit} (x type : String)
    (h : Expr.Derives ts e) (hsep : Optional (.punct .semicolon) sep)
    (hopen : rest.head? ≠ some (.punct .openParen))
    (hsemicolon : rest.head? ≠ some (.punct .semicolon)) :
    bare decl (.keyword .constKw :: .identifier x :: .punct .colon :: .identifier type ::
      .punct .assign :: (ts ++ (sep ++ rest))) = .ok (.constant ⟨x, ⟨type, false⟩, e⟩, rest) := by
  have hexpr : bare expr (ts ++ (sep ++ rest)) = .ok (e, sep ++ rest) := by
    refine bare_expr_eq_ok h ?_
    obtain rfl | rfl := hsep
    · exact hopen
    · simp
  have hread : bare constant (.identifier x :: .punct .colon :: .identifier type ::
      .punct .assign :: (ts ++ (sep ++ rest))) = .ok (⟨x, ⟨type, false⟩, e⟩, rest) := by
    rw [bare_constant, andThen_of_ok (bare_typedName_self x type _),
      andThen_of_ok (bare_expect_self _ _), andThen_of_ok hexpr, skipping_andThen,
      skip_optional hsep hsemicolon]
    rfl
  rw [bare_decl_const, andThen_of_ok hread]
  rfl

theorem bare_decl_of_derives {d : Decl Unit} (h : Decl.Derives .longest ts d)
    (hrest : ∀ t, rest.head? = some t → t.startsDecl = true) :
    bare decl (ts ++ rest) = .ok (d, rest) := by
  cases h with
  | function x hparams hresult hbody =>
      simpa using bare_decl_of_function x hparams hresult hbody rest
  | struct x hfields => simpa using bare_decl_of_struct x hfields rest
  | constant x type he hsep =>
      have hopen : rest.head? ≠ some (.punct .openParen) := fun h => nomatch hrest _ h
      have hsemicolon : rest.head? ≠ some (.punct .semicolon) := fun h => nomatch hrest _ h
      simpa using bare_decl_of_constant x type he hsep hopen hsemicolon

theorem toEnd_decls_of_derives {ds : List (Decl Unit)} (h : Decl.DerivesAll .longest ts ds) :
    toEnd decls ts = .ok (ds, []) := by
  induction h with
  | nil => exact toEnd_decls_nil
  | @cons ts us d ds hd hds ih =>
      have hread := bare_decl_of_derives hd fun t ht => hds.startsDecl ht
      have hne : ts ++ us ≠ [] := by
        cases hd with
        | function _ _ _ _ | struct _ _ | constant _ _ _ _ => simp
      obtain ⟨t, rest, hts⟩ := List.exists_cons_of_ne_nil hne
      rw [hts, toEnd_decls_cons, ← hts, andThen_of_ok hread, andThen_of_ok ih]
      rfl

theorem bare_imports_of_derives {xs : List String} (h : Module.DerivesImports ts xs)
    (hrest : ∀ t, rest.head? = some t → t.startsDecl = true) :
    bare imports (ts ++ rest) = .ok (xs, rest) := by
  induction h with
  | nil => exact bare_imports_of_head?_ne fun h => nomatch hrest _ h
  | @cons sep us xs x hsep hxs ih =>
      have hhead : (us ++ rest).head? ≠ some (.punct .semicolon) := by
        cases hxs with
        | nil => exact fun h => nomatch hrest _ h
        | cons y _ _ => simp
      simp only [List.cons_append, List.append_assoc]
      rw [bare_imports_import, andThen_of_ok (bare_identifier_identifier x _), skipping_andThen,
        skip_optional hsep hhead, andThen_of_ok ih]
      rfl

theorem wholeModule_of_derives {m : Module Unit} (h : Module.Derives .longest ts m) :
    wholeModule ts = .ok m := by
  obtain ⟨is, ds, rfl, himports, hdecls⟩ := h
  have hread : toEnd wholeModule (is ++ ds) = .ok (m, []) := by
    rw [toEnd_wholeModule,
      andThen_of_ok (bare_imports_of_derives himports fun t ht => hdecls.startsDecl ht),
      andThen_of_ok (toEnd_decls_of_derives hdecls)]
    rfl
  exact (toEnd_eq_ok.mp hread).1

theorem wholeModule_eq_ok_iff {m : Module Unit} :
    wholeModule ts = .ok m ↔ Module.Derives .longest ts m := by
  refine ⟨fun h => ?_, wholeModule_of_derives⟩
  obtain ⟨p, hts, ⟨_, hm⟩, _⟩ := (covers_wholeModule ts).read (toEnd_eq_ok.mpr ⟨h, rfl⟩)
  rw [hts, List.append_nil]
  exact hm

end Read

/-! Numbers of nodes do not touch the shape of a tree. -/

def Module.shape {ι : Type} (m : Module ι) : Module Unit :=
  m.map fun _ => ()

mutual

theorem Expr.map_number : ∀ (e : Expr Unit) (n : Nat), (e.number n).1.map (fun _ => ()) = e
  | .literal _ _, _ => rfl
  | .name _ _, _ => rfl
  | .call _ callee args, n => by
      simp [Expr.number, Expr.map, Expr.map_number callee, Expr.mapAll_numberAll args]

theorem Expr.mapAll_numberAll : ∀ (es : List (Expr Unit)) (n : Nat),
    Expr.mapAll (fun _ => ()) (Expr.numberAll es n).1 = es
  | [], _ => rfl
  | e :: es, n => by
      simp [Expr.numberAll, Expr.mapAll, Expr.map_number e, Expr.mapAll_numberAll es]

end

mutual

theorem Stmt.map_number : ∀ (s : Stmt Unit) (n : Nat), (s.number n).1.map (fun _ => ()) = s
  | .declare _ _ _ e, n | .assign _ _ e, n | .call _ e, n => by
      simp [Stmt.number, Stmt.map, Expr.map_number e]
  | .branch _ c yes none, n => by
      simp [Stmt.number, Stmt.map, Expr.map_number c, Stmt.mapAll_numberAll yes]
  | .branch _ c yes (some no), n => by
      simp [Stmt.number, Stmt.map, Expr.map_number c, Stmt.mapAll_numberAll yes,
        Stmt.mapAll_numberAll no]
  | .loop _ c body, n => by
      simp [Stmt.number, Stmt.map, Expr.map_number c, Stmt.mapAll_numberAll body]
  | .leave _ none, _ => rfl
  | .leave _ (some e), n => by simp [Stmt.number, Stmt.map, Expr.map_number e]

theorem Stmt.mapAll_numberAll : ∀ (ss : List (Stmt Unit)) (n : Nat),
    Stmt.mapAll (fun _ => ()) (Stmt.numberAll ss n).1 = ss
  | [], _ => rfl
  | s :: ss, n => by
      simp [Stmt.numberAll, Stmt.mapAll, Stmt.map_number s, Stmt.mapAll_numberAll ss]

end

theorem Decl.map_number (d : Decl Unit) (n : Nat) : (d.number n).1.map (fun _ => ()) = d := by
  cases d with
  | function f => simp [Decl.number, Decl.map, Stmt.mapAll_numberAll]
  | struct s => rfl
  | constant c => simp [Decl.number, Decl.map, Expr.map_number]

theorem Decl.map_numberAll (ds : List (Decl Unit)) (n : Nat) :
    (Decl.numberAll ds n).1.map (Decl.map fun _ => ()) = ds := by
  induction ds generalizing n with
  | nil => rfl
  | cons d ds ih => simp [Decl.numberAll, Decl.map_number, ih]

theorem Module.shape_number (m : Module Unit) : m.number.shape = m := by
  simp [Module.shape, Module.number, Module.map, Decl.map_numberAll]

theorem parse_eq_ok_iff {tokens : List (Located Token)} {source : String} {m : Module NodeId} :
    parse tokens source = .ok m ↔
      ∃ tree, Module.Derives .longest (tokens.map (·.value)) tree ∧ m = tree.number := by
  rw [parse_eq]
  cases h : Read.wholeModule (tokens.map (·.value)) with
  | error f =>
      refine ⟨nofun, ?_⟩
      rintro ⟨tree, htree, _⟩
      rw [Read.wholeModule_of_derives htree] at h
      cases h
  | ok tree =>
      have htree := Read.wholeModule_eq_ok_iff.mp h
      constructor
      · rintro ⟨⟩
        exact ⟨tree, htree, rfl⟩
      · rintro ⟨tree', htree', rfl⟩
        rw [Read.wholeModule_of_derives htree'] at h
        cases h
        rfl

theorem exists_parse_of_derives {tokens : List (Located Token)} {tree : Module Unit}
    (h : Module.Derives .canonical (tokens.map (·.value)) tree) (source : String) :
    ∃ m, parse tokens source = .ok m := by
  obtain ⟨tree', htree'⟩ := h.exists_longest
  exact ⟨tree'.number, parse_eq_ok_iff.mpr ⟨tree', htree', rfl⟩⟩

/-- The parser accepts the token lists of the grammar, and no others. What it returns is the tree
of a derivation of all tokens. -/
theorem parse_accepts_grammar (tokens : List (Located Token)) (source : String) :
    ((∃ m, parse tokens source = .ok m) ↔
      ∃ tree, Module.Derives .canonical (tokens.map (·.value)) tree) ∧
    ∀ m, parse tokens source = .ok m →
      Module.Derives .canonical (tokens.map (·.value)) m.shape := by
  have hsound : ∀ m, parse tokens source = .ok m →
      Module.Derives .canonical (tokens.map (·.value)) m.shape := by
    intro m h
    obtain ⟨tree, htree, rfl⟩ := parse_eq_ok_iff.mp h
    rw [Module.shape_number]
    exact htree.mono Follow.canonical_of_longest
  refine ⟨⟨?_, ?_⟩, hsound⟩
  · rintro ⟨m, h⟩
    exact ⟨m.shape, hsound m h⟩
  · rintro ⟨tree, htree⟩
    exact exists_parse_of_derives htree source

end Mis
