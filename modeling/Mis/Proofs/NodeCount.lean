import Mis.Proofs.Numbering
import Mis.Proofs.Parsing

/-!
How many nodes a token list makes. A literal and a name are one token each, a call
adds two parentheses, and a statement adds a word or a mark of its own. Only a call
in the place of a statement adds no token, and there the second parenthesis of
the call stands for the statement. So a module has no more nodes than tokens. The
counter of the parser takes them in post-order, so their numbers fit 32 bits
whenever the number of tokens does.
-/
namespace Mis

section PostOrder

variable {ι κ : Type}

/-- The labels of all nodes of a module, declaration by declaration. -/
def Module.postOrder (m : Module ι) : List ι :=
  m.decls.flatMap Decl.postOrder

/-! Relabelling does not change the walk. -/

mutual

theorem Expr.postOrder_map (f : ι → κ) : ∀ e : Expr ι, (e.map f).postOrder = e.postOrder.map f
  | .literal _ _ | .name _ _ => rfl
  | .call _ callee args => by
      rw [Expr.map, Expr.postOrder, Expr.postOrder, Expr.postOrder_map f callee,
        Expr.postOrderAll_mapAll f args, List.map_append, List.map_append]
      rfl

theorem Expr.postOrderAll_mapAll (f : ι → κ) : ∀ es : List (Expr ι),
    Expr.postOrderAll (Expr.mapAll f es) = (Expr.postOrderAll es).map f
  | [] => rfl
  | e :: es => by
      rw [Expr.mapAll, Expr.postOrderAll, Expr.postOrderAll, Expr.postOrder_map f e,
        Expr.postOrderAll_mapAll f es, List.map_append]

end

mutual

theorem Stmt.postOrder_map (f : ι → κ) : ∀ s : Stmt ι, (s.map f).postOrder = s.postOrder.map f
  | .declare _ _ _ e | .assign _ _ e | .call _ e | .leave _ (some e) => by
      simp [Stmt.map, Stmt.postOrder, e.postOrder_map f]
  | .branch _ c yes none => by
      simp [Stmt.map, Stmt.postOrder, c.postOrder_map f, Stmt.postOrderAll_mapAll f yes]
  | .branch _ c yes (some no) => by
      simp [Stmt.map, Stmt.postOrder, c.postOrder_map f, Stmt.postOrderAll_mapAll f yes,
        Stmt.postOrderAll_mapAll f no]
  | .loop _ c body => by
      simp [Stmt.map, Stmt.postOrder, c.postOrder_map f, Stmt.postOrderAll_mapAll f body]
  | .leave _ none => rfl

theorem Stmt.postOrderAll_mapAll (f : ι → κ) : ∀ ss : List (Stmt ι),
    Stmt.postOrderAll (Stmt.mapAll f ss) = (Stmt.postOrderAll ss).map f
  | [] => rfl
  | s :: ss => by
      rw [Stmt.mapAll, Stmt.postOrderAll, Stmt.postOrderAll, Stmt.postOrder_map f s,
        Stmt.postOrderAll_mapAll f ss, List.map_append]

end

theorem Decl.postOrder_map (f : ι → κ) (d : Decl ι) :
    (d.map f).postOrder = d.postOrder.map f := by
  cases d with
  | function g => exact Stmt.postOrderAll_mapAll f g.body
  | struct s => rfl
  | constant c => exact c.init.postOrder_map f

theorem Module.postOrder_map (f : ι → κ) (m : Module ι) :
    (m.map f).postOrder = m.postOrder.map f := by
  rw [postOrder, postOrder, Module.map, List.flatMap_map, List.map_flatMap]
  exact congrArg List.flatten (List.map_congr_left fun d _ => d.postOrder_map f)

theorem Module.length_postOrder_shape (m : Module ι) :
    m.shape.postOrder.length = m.postOrder.length := by
  rw [shape, postOrder_map, List.length_map]

end PostOrder

/-! Nodes and tokens. -/

section Count

variable {follow : Follow} {ts : List Token}

theorem Expr.length_postOrderAll_le {args : List (List Token × Expr Unit)}
    (h : ∀ a ∈ args, a.2.postOrder.length ≤ a.1.length) :
    (Expr.postOrderAll (args.map (·.2))).length ≤ (commaSeparated (args.map (·.1))).length := by
  induction args with
  | nil => exact Nat.le_refl 0
  | cons a args ih =>
      have ha := h a List.mem_cons_self
      have hargs := ih fun b hb => h b (List.mem_cons_of_mem a hb)
      cases args with
      | nil => simpa [commaSeparated, Expr.postOrderAll] using ha
      | cons b args =>
          simp only [List.map_cons, Expr.postOrderAll, commaSeparated, List.length_append,
            List.length_cons] at hargs ⊢
          omega

/-- A call leaves a token over: of its two parentheses it needs one. -/
theorem Expr.Derives.length_postOrder_le {e : Expr Unit} (h : Expr.Derives ts e) :
    e.postOrder.length ≤ ts.length ∧ (e.isCall = true → e.postOrder.length < ts.length) := by
  induction h with
  | number n | text s | name x => exact ⟨Nat.le_refl 1, fun hcall => nomatch hcall⟩
  | parens _ ih =>
      simp only [List.length_append, List.length_cons, List.length_nil]
      omega
  | call args _ _ ih ihargs =>
      have hargs := Expr.length_postOrderAll_le fun a ha => (ihargs a ha).1
      simp only [Expr.postOrder, List.length_append, List.length_cons, List.length_nil]
      omega

mutual

theorem Stmt.Derives.length_postOrder_le : ∀ {ts : List Token} {s : Stmt Unit},
    Stmt.Derives follow ts s → s.postOrder.length ≤ ts.length
  | _, _, .declare _ _ he | _, _, .assign _ he => by
      have := he.length_postOrder_le
      simp only [Stmt.postOrder, List.length_append, List.length_cons, List.length_nil]
      omega
  | _, _, .branch hc hyes => by
      have := hc.length_postOrder_le
      have := Stmt.DerivesAll.length_postOrderAll_le hyes
      simp only [Stmt.postOrder, List.length_append, List.length_cons, List.length_nil]
      omega
  | _, _, .branchElse hc hyes hno => by
      have := hc.length_postOrder_le
      have := Stmt.DerivesAll.length_postOrderAll_le hyes
      have := Stmt.DerivesElse.length_postOrderAll_le hno
      simp only [Stmt.postOrder, List.length_append, List.length_cons, List.length_nil]
      omega
  | _, _, .loop hc hbody => by
      have := hc.length_postOrder_le
      have := Stmt.DerivesAll.length_postOrderAll_le hbody
      simp only [Stmt.postOrder, List.length_append, List.length_cons, List.length_nil]
      omega
  | _, _, .leave => Nat.le_refl 1
  | _, _, .leaveWith he => by
      have := he.length_postOrder_le
      simp only [Stmt.postOrder, List.length_append, List.length_cons, List.length_nil]
      omega
  | _, _, .call he hcall => by
      -- the statement has no token of its own, but its call has one to spare
      have := he.length_postOrder_le.2 hcall
      simp only [Stmt.postOrder, List.length_append, List.length_cons, List.length_nil]
      omega

theorem Stmt.DerivesAll.length_postOrderAll_le : ∀ {ts : List Token} {ss : List (Stmt Unit)},
    Stmt.DerivesAll follow ts ss → (Stmt.postOrderAll ss).length ≤ ts.length
  | _, _, .nil => Nat.zero_le 1
  | _, _, .cons hs _ hss _ => by
      have := Stmt.Derives.length_postOrder_le hs
      have := Stmt.DerivesAll.length_postOrderAll_le hss
      simp only [Stmt.postOrderAll, List.length_append]
      omega

theorem Stmt.DerivesElse.length_postOrderAll_le : ∀ {ts : List Token} {ss : List (Stmt Unit)},
    Stmt.DerivesElse follow ts ss → (Stmt.postOrderAll ss).length ≤ ts.length
  | _, _, .block hss => Nat.le_succ_of_le (Stmt.DerivesAll.length_postOrderAll_le hss)
  | _, _, .chain hs => by
      have := Stmt.Derives.length_postOrder_le hs
      simpa only [Stmt.postOrderAll, List.append_nil] using this

end

theorem Decl.Derives.length_postOrder_le {d : Decl Unit} (h : Decl.Derives follow ts d) :
    d.postOrder.length ≤ ts.length := by
  cases h with
  | function x _ _ hbody =>
      have := hbody.length_postOrderAll_le
      simp only [Decl.postOrder, List.length_append, List.length_cons]
      omega
  | struct x _ => exact Nat.zero_le _
  | constant x type he _ =>
      have := he.length_postOrder_le
      simp only [Decl.postOrder, List.length_append, List.length_cons]
      omega

theorem Decl.DerivesAll.length_postOrder_le {ds : List (Decl Unit)}
    (h : Decl.DerivesAll follow ts ds) : (ds.flatMap Decl.postOrder).length ≤ ts.length := by
  induction h with
  | nil => exact Nat.le_refl 0
  | cons hd _ ih =>
      have := hd.length_postOrder_le
      rw [List.flatMap_cons, List.length_append, List.length_append]
      omega

theorem Module.Derives.length_postOrder_le {m : Module Unit} (h : Module.Derives follow ts m) :
    m.postOrder.length ≤ ts.length := by
  obtain ⟨is, ds, rfl, _, hdecls⟩ := h
  have := hdecls.length_postOrder_le
  rw [Module.postOrder, List.length_append]
  omega

end Count

/-! Numbers. -/

theorem Module.postOrder_number {ι : Type} (m : Module ι) :
    m.number.postOrder = List.range m.number.postOrder.length := by
  obtain ⟨_, hids⟩ := Decl.counts_numberAll m.decls 0
  change m.number.postOrder = _ at hids
  rw [hids, List.length_range', List.range_eq_range']

/-- The nodes of a module that was parsed carry the numbers from zero on in post-order, no more of
them than there are tokens. So a counter of 32 bits takes each of them and counts on from it
without wrapping around. -/
theorem parse_numbers_nodes {tokens : List (Located Token)} {source : String} {m : Module NodeId}
    (h : parse tokens source = .ok m) (hsize : tokens.length < UInt32.size) :
    m.postOrder = List.range m.postOrder.length ∧ m.postOrder.Nodup ∧
      m.postOrder.length ≤ tokens.length ∧
      ∀ i ∈ m.postOrder, (UInt32.ofNat i).toNat = i ∧ (UInt32.ofNat i + 1).toNat = i + 1 := by
  obtain ⟨tree, htree, rfl⟩ := parse_eq_ok_iff.mp h
  have hrange := tree.postOrder_number
  have hcount : tree.number.postOrder.length ≤ tokens.length := by
    have hle := htree.length_postOrder_le
    rwa [← Module.shape_number tree, Module.length_postOrder_shape, List.length_map] at hle
  refine ⟨hrange, by rw [hrange]; exact List.nodup_range, hcount, ?_⟩
  intro i hi
  rw [hrange, List.mem_range] at hi
  have hlast : i + 1 < UInt32.size := Nat.lt_of_le_of_lt (Nat.le_trans hi hcount) hsize
  have hword : (UInt32.ofNat i).toNat = i := UInt32.toNat_ofNat_of_lt' (Nat.lt_of_succ_lt hlast)
  refine ⟨hword, ?_⟩
  rw [UInt32.toNat_add, hword]
  exact Nat.mod_eq_of_lt hlast

/-- The module
```
const k: Int = (7)
func start() { f(k) if k { } else if (k) { return } }
```
-/
def parenthesized : List Token :=
  [.keyword .constKw, .identifier "k", .punct .colon, .identifier "Int", .punct .assign,
    .punct .openParen, .number 7, .punct .closeParen, .keyword .funcKw, .identifier "start",
    .punct .openParen, .punct .closeParen, .punct .openBrace, .identifier "f", .punct .openParen,
    .identifier "k", .punct .closeParen, .keyword .ifKw, .identifier "k", .punct .openBrace,
    .punct .closeBrace, .keyword .elseKw, .keyword .ifKw, .punct .openParen, .identifier "k",
    .punct .closeParen, .punct .openBrace, .keyword .returnKw, .punct .closeBrace,
    .punct .closeBrace]

/-- Parentheses take no number, the call and its statement one each, and so does the inner `if`. -/
theorem parenthesized_numbers_nodes :
    ∃ m, parse (parenthesized.map fun t => ⟨t, ⟨1, 1⟩⟩) "" = .ok m ∧
      m.postOrder = List.range 10 ∧ m.postOrder.Nodup ∧ 10 ≤ parenthesized.length := by
  obtain ⟨m, hparse, hlength⟩ :=
    exists_eq_ok_of_any (x := parse (parenthesized.map fun t => ⟨t, ⟨1, 1⟩⟩) "")
      (p := fun m => m.postOrder.length = 10) (by decide +kernel)
  obtain ⟨hrange, hnodup, hcount, _⟩ := parse_numbers_nodes hparse (by decide)
  rw [List.length_map] at hcount
  rw [of_decide_eq_true hlength] at hrange hcount
  exact ⟨m, hparse, hrange, hnodup, hcount⟩

end Mis
