import Mis.Proofs.Parsing

/-!
Trees written as tokens: a comma between parameters, fields and arguments, a
semicolon behind every statement, import and constant. An else branch that holds a
single `if` can be written in two ways, so a tree has a list of writings. Every
writing is read back as the tree it was written from, up to the numbers of nodes.
The trees that cannot be written are those with a pointer type and those where
something other than a call stands as a statement.
-/
namespace Mis

variable {ι : Type}

/-! Writing. -/

mutual

def Expr.tokens : Expr ι → List Token
  | .literal _ (.int n) => [.number n]
  | .literal _ (.text s) => [.text s]
  | .name _ x => [.identifier x]
  | .call _ callee args =>
    Expr.tokens callee ++ .punct .openParen :: commaSeparated (Expr.tokensAll args) ++
      [.punct .closeParen]

def Expr.tokensAll : List (Expr ι) → List (List Token)
  | [] => []
  | e :: es => Expr.tokens e :: Expr.tokensAll es

end

def Stmt.isBranch : Stmt ι → Bool
  | .branch _ _ _ _ => true
  | _ => false

mutual

def Stmt.writings : Stmt ι → List (List Token)
  | .declare _ storage x e => [.identifier x :: storage.mark :: e.tokens]
  | .assign _ x e => [.identifier x :: .punct .assign :: e.tokens]
  | .branch _ c yes none =>
    (Stmt.writingsAll yes).map fun ys => .keyword .ifKw :: c.tokens ++ .punct .openBrace :: ys
  | .branch _ c yes (some no) =>
    (Stmt.writingsAll yes).flatMap fun ys =>
      ((Stmt.writingsAll no).map (.punct .openBrace :: ·) ++ Stmt.chainWritings no).map fun ns =>
        .keyword .ifKw :: c.tokens ++ .punct .openBrace :: ys ++ .keyword .elseKw :: ns
  | .loop _ c body =>
    (Stmt.writingsAll body).map fun ts => .keyword .forKw :: c.tokens ++ .punct .openBrace :: ts
  | .leave _ none => [[.keyword .returnKw]]
  | .leave _ (some e) => [.keyword .returnKw :: e.tokens]
  | .call _ e => [e.tokens]

/-- The statements of a block and its closing brace. -/
def Stmt.writingsAll : List (Stmt ι) → List (List Token)
  | [] => [[.punct .closeBrace]]
  | s :: ss =>
    (Stmt.writings s).flatMap fun ts =>
      (Stmt.writingsAll ss).map fun us => ts ++ .punct .semicolon :: us

/-- What stands behind `else`, if that is one more `if`. -/
def Stmt.chainWritings : List (Stmt ι) → List (List Token)
  | [s] => if s.isBranch then Stmt.writings s else []
  | _ => []

end

def TypedName.tokens (x : TypedName) : List Token :=
  [.identifier x.name, .punct .colon, .identifier x.type.name]

def Ty.resultTokens : Option Ty → List Token
  | none => []
  | some t => [.punct .arrow, .identifier t.name]

def Decl.writings : Decl ι → List (List Token)
  | .function f =>
    (Stmt.writingsAll f.body).map fun ts =>
      .keyword .funcKw :: .identifier f.name :: .punct .openParen ::
        commaSeparated (f.params.map TypedName.tokens) ++ .punct .closeParen ::
        Ty.resultTokens f.result ++ .punct .openBrace :: ts
  | .struct s =>
    [.keyword .structKw :: .identifier s.name :: .punct .openBrace ::
      commaSeparated (s.fields.map TypedName.tokens) ++ [.punct .closeBrace]]
  | .constant c =>
    [.keyword .constKw :: .identifier c.name :: .punct .colon :: .identifier c.type.name ::
      .punct .assign :: c.init.tokens ++ [.punct .semicolon]]

def Decl.writingsAll : List (Decl ι) → List (List Token)
  | [] => [[]]
  | d :: ds => d.writings.flatMap fun ts => (Decl.writingsAll ds).map (ts ++ ·)

def Module.importTokens : List String → List Token
  | [] => []
  | x :: xs => .keyword .importKw :: .identifier x :: .punct .semicolon :: importTokens xs

def Module.writings (m : Module ι) : List (List Token) :=
  (Decl.writingsAll m.decls).map (Module.importTokens m.imports ++ ·)

/-! Trees that can be written. -/

mutual

/-- Only calls stand as statements. -/
def Stmt.isWritable : Stmt ι → Bool
  | .declare _ _ _ _ | .assign _ _ _ | .leave _ _ => true
  | .branch _ _ yes none => Stmt.areWritable yes
  | .branch _ _ yes (some no) => Stmt.areWritable yes && Stmt.areWritable no
  | .loop _ _ body => Stmt.areWritable body
  | .call _ e => e.isCall

def Stmt.areWritable : List (Stmt ι) → Bool
  | [] => true
  | s :: ss => Stmt.isWritable s && Stmt.areWritable ss

end

/-- Only named types can be written. -/
def Decl.isWritable : Decl ι → Bool
  | .function f =>
    f.params.all (!·.type.isPointer) && f.result.all (!·.isPointer) && Stmt.areWritable f.body
  | .struct s => s.fields.all (!·.type.isPointer)
  | .constant c => !c.type.isPointer

def Module.isWritable (m : Module ι) : Bool :=
  m.decls.all Decl.isWritable

/-! Every writing is derived, by the rule of the longest match. -/

mutual

theorem Expr.derives_tokens : ∀ e : Expr ι, Expr.Derives e.tokens (e.map fun _ => ())
  | .literal _ (.int n) => .number n
  | .literal _ (.text s) => .text s
  | .name _ x => .name x
  | .call _ callee args => by
      obtain ⟨pairs, htokens, htrees, hpairs⟩ := Expr.derives_tokensAll args
      rw [Expr.tokens, Expr.map, ← htokens, ← htrees]
      exact .call pairs (Expr.derives_tokens callee) hpairs

theorem Expr.derives_tokensAll : ∀ es : List (Expr ι), ∃ pairs : List (List Token × Expr Unit),
    pairs.map (·.1) = Expr.tokensAll es ∧ pairs.map (·.2) = Expr.mapAll (fun _ => ()) es ∧
      ∀ a ∈ pairs, Expr.Derives a.1 a.2
  | [] => ⟨[], rfl, rfl, nofun⟩
  | e :: es => by
      obtain ⟨pairs, htokens, htrees, hpairs⟩ := Expr.derives_tokensAll es
      refine ⟨(e.tokens, e.map fun _ => ()) :: pairs, ?_, ?_, ?_⟩
      · rw [Expr.tokensAll, ← htokens]
        rfl
      · rw [Expr.mapAll, ← htrees]
        rfl
      · intro a ha
        obtain rfl | ha := List.mem_cons.mp ha
        · exact Expr.derives_tokens e
        · exact hpairs a ha

end

/-- Any statement may have a semicolon behind it. -/
theorem Follow.longest_semicolon (s : Stmt Unit) : Follow.longest s (.punct .semicolon) :=
  ⟨fun _ => .inl rfl, fun _ => nofun⟩

theorem Stmt.DerivesAll.cons_semicolon {ts us : List Token} {s : Stmt Unit} {ss : List (Stmt Unit)}
    (hs : Stmt.Derives .longest ts s) (hss : Stmt.DerivesAll .longest us ss) :
    Stmt.DerivesAll .longest (ts ++ .punct .semicolon :: us) (s :: ss) := by
  have hcons : Stmt.DerivesAll .longest (ts ++ [.punct .semicolon] ++ us) (s :: ss) := by
    refine .cons hs (.inr rfl) hss ?_
    rintro _ ⟨⟩
    exact Follow.longest_semicolon s
  simpa using hcons

theorem Expr.isCall_map (e : Expr ι) : (e.map fun _ => ()).isCall = e.isCall := by
  cases e <;> rfl

theorem Stmt.Derives.exists_if {follow : Follow} {ts : List Token} {s : Stmt ι}
    (h : Stmt.Derives follow ts (s.map fun _ => ())) (hs : s.isBranch = true) :
    ∃ us, ts = .keyword .ifKw :: us := by
  cases s with
  | branch i c yes no =>
      cases no with
      | none =>
          rw [Stmt.map] at h
          cases h with
          | branch _ _ => exact ⟨_, rfl⟩
      | some no =>
          rw [Stmt.map] at h
          cases h with
          | branchElse _ _ _ => exact ⟨_, rfl⟩
  | declare _ _ _ _ | assign _ _ _ | loop _ _ _ | leave _ _ | call _ _ => cases hs

mutual

theorem Stmt.derives_writings : ∀ s : Stmt ι, s.isWritable = true → ∀ ts ∈ s.writings,
    Stmt.Derives .longest ts (s.map fun _ => ())
  | .declare _ storage x e, _, ts, hts => by
      obtain rfl := List.mem_singleton.mp hts
      exact .declare storage x e.derives_tokens
  | .assign _ x e, _, ts, hts => by
      obtain rfl := List.mem_singleton.mp hts
      exact .assign x e.derives_tokens
  | .branch _ c yes none, hs, ts, hts => by
      rw [Stmt.writings] at hts
      obtain ⟨ys, hys, rfl⟩ := List.mem_map.mp hts
      rw [Stmt.map]
      exact .branch c.derives_tokens (Stmt.derives_writingsAll yes hs ys hys)
  | .branch _ c yes (some no), hs, ts, hts => by
      rw [Stmt.isWritable, Bool.and_eq_true] at hs
      rw [Stmt.writings] at hts
      obtain ⟨ys, hys, hts⟩ := List.mem_flatMap.mp hts
      obtain ⟨ns, hns, rfl⟩ := List.mem_map.mp hts
      rw [Stmt.map]
      refine .branchElse c.derives_tokens (Stmt.derives_writingsAll yes hs.1 ys hys) ?_
      obtain hns | hns := List.mem_append.mp hns
      · obtain ⟨us, hus, rfl⟩ := List.mem_map.mp hns
        exact .block (Stmt.derives_writingsAll no hs.2 us hus)
      · exact Stmt.derives_chainWritings no hs.2 ns hns
  | .loop _ c body, hs, ts, hts => by
      rw [Stmt.writings] at hts
      obtain ⟨us, hus, rfl⟩ := List.mem_map.mp hts
      exact .loop c.derives_tokens (Stmt.derives_writingsAll body hs us hus)
  | .leave _ none, _, ts, hts => by
      obtain rfl := List.mem_singleton.mp hts
      exact .leave
  | .leave _ (some e), _, ts, hts => by
      obtain rfl := List.mem_singleton.mp hts
      exact .leaveWith e.derives_tokens
  | .call _ e, hs, ts, hts => by
      obtain rfl := List.mem_singleton.mp hts
      exact .call e.derives_tokens (e.isCall_map.trans hs)

theorem Stmt.derives_writingsAll : ∀ ss : List (Stmt ι), Stmt.areWritable ss = true →
    ∀ ts ∈ Stmt.writingsAll ss, Stmt.DerivesAll .longest ts (Stmt.mapAll (fun _ => ()) ss)
  | [], _, ts, hts => by
      obtain rfl := List.mem_singleton.mp hts
      exact .nil
  | s :: ss, hss, ts, hts => by
      rw [Stmt.areWritable, Bool.and_eq_true] at hss
      rw [Stmt.writingsAll] at hts
      obtain ⟨us, hus, hts⟩ := List.mem_flatMap.mp hts
      obtain ⟨vs, hvs, rfl⟩ := List.mem_map.mp hts
      exact .cons_semicolon (Stmt.derives_writings s hss.1 us hus)
        (Stmt.derives_writingsAll ss hss.2 vs hvs)

theorem Stmt.derives_chainWritings : ∀ ss : List (Stmt ι), Stmt.areWritable ss = true →
    ∀ ts ∈ Stmt.chainWritings ss, Stmt.DerivesElse .longest ts (Stmt.mapAll (fun _ => ()) ss)
  | [], _, _, hts => nomatch hts
  | [s], hss, ts, hts => by
      rw [Stmt.areWritable, Bool.and_eq_true] at hss
      rw [Stmt.chainWritings] at hts
      split at hts
      · next hbranch =>
          have hs := Stmt.derives_writings s hss.1 ts hts
          obtain ⟨us, rfl⟩ := hs.exists_if hbranch
          exact .chain hs
      · cases hts
  | _ :: _ :: _, _, _, hts => nomatch hts

end

mutual

theorem Stmt.exists_writing : ∀ s : Stmt ι, ∃ ts, ts ∈ s.writings
  | .declare _ _ _ _ | .assign _ _ _ | .leave _ none | .leave _ (some _) | .call _ _ =>
      ⟨_, List.mem_singleton_self _⟩
  | .branch _ c yes none => by
      obtain ⟨ys, hys⟩ := Stmt.exists_writingAll yes
      exact ⟨_, List.mem_map_of_mem hys⟩
  | .branch _ c yes (some no) => by
      obtain ⟨ys, hys⟩ := Stmt.exists_writingAll yes
      obtain ⟨ns, hns⟩ := Stmt.exists_writingAll no
      have hblock := List.mem_append_left (Stmt.chainWritings no)
        (List.mem_map_of_mem (f := (Token.punct .openBrace :: ·)) hns)
      exact ⟨_, List.mem_flatMap.mpr ⟨ys, hys, List.mem_map_of_mem hblock⟩⟩
  | .loop _ c body => by
      obtain ⟨ts, hts⟩ := Stmt.exists_writingAll body
      exact ⟨_, List.mem_map_of_mem hts⟩

theorem Stmt.exists_writingAll : ∀ ss : List (Stmt ι), ∃ ts, ts ∈ Stmt.writingsAll ss
  | [] => ⟨_, List.mem_singleton_self _⟩
  | s :: ss => by
      obtain ⟨ts, hts⟩ := Stmt.exists_writing s
      obtain ⟨us, hus⟩ := Stmt.exists_writingAll ss
      exact ⟨_, List.mem_flatMap.mpr ⟨ts, hts, List.mem_map_of_mem hus⟩⟩

end

theorem TypedName.derivesAll_tokens {xs : List TypedName}
    (h : xs.all (!·.type.isPointer) = true) :
    TypedName.DerivesAll (commaSeparated (xs.map TypedName.tokens)) xs := by
  induction xs with
  | nil => exact .nil
  | cons x xs ih =>
      rw [List.all_cons, Bool.and_eq_true, Bool.not_eq_true'] at h
      obtain ⟨y, type, pointer⟩ := x
      obtain ⟨rfl, hxs⟩ := h
      cases xs with
      | nil => exact .cons y type (.inl rfl) .nil
      | cons z xs =>
          have hcons : TypedName.DerivesAll
              (.identifier y :: .punct .colon :: .identifier type :: [.punct .comma] ++
                commaSeparated ((z :: xs).map TypedName.tokens)) (⟨y, ⟨type, false⟩⟩ :: z :: xs) :=
            .cons y type (.inr rfl) (ih hxs)
          exact hcons

theorem Ty.derivesResult_tokens {result : Option Ty} (h : result.all (!·.isPointer) = true) :
    Ty.DerivesResult (Ty.resultTokens result) result := by
  cases result with
  | none => exact .absent
  | some t =>
      obtain ⟨type, pointer⟩ := t
      rw [Option.all_some, Bool.not_eq_true'] at h
      subst h
      exact .present type

theorem Decl.derives_writings {d : Decl ι} (hd : d.isWritable = true) {ts : List Token}
    (hts : ts ∈ d.writings) : Decl.Derives .longest ts (d.map fun _ => ()) := by
  cases d with
  | function f =>
      rw [Decl.isWritable, Bool.and_eq_true, Bool.and_eq_true] at hd
      obtain ⟨⟨hparams, hresult⟩, hbody⟩ := hd
      obtain ⟨us, hus, rfl⟩ := List.mem_map.mp hts
      exact .function f.name (TypedName.derivesAll_tokens hparams)
        (Ty.derivesResult_tokens hresult) (Stmt.derives_writingsAll f.body hbody us hus)
  | struct s =>
      obtain rfl := List.mem_singleton.mp hts
      exact .struct s.name (TypedName.derivesAll_tokens hd)
  | constant c =>
      obtain rfl := List.mem_singleton.mp hts
      obtain ⟨x, ⟨type, pointer⟩, e⟩ := c
      rw [Decl.isWritable, Bool.not_eq_true'] at hd
      subst hd
      exact .constant x type e.derives_tokens (.inr rfl)

theorem Decl.derives_writingsAll {ds : List (Decl ι)} (hds : ds.all Decl.isWritable = true)
    {ts : List Token} (hts : ts ∈ Decl.writingsAll ds) :
    Decl.DerivesAll .longest ts (ds.map (Decl.map fun _ => ())) := by
  induction ds generalizing ts with
  | nil =>
      obtain rfl := List.mem_singleton.mp hts
      exact .nil
  | cons d ds ih =>
      rw [List.all_cons, Bool.and_eq_true] at hds
      obtain ⟨us, hus, hts⟩ := List.mem_flatMap.mp hts
      obtain ⟨vs, hvs, rfl⟩ := List.mem_map.mp hts
      exact .cons (Decl.derives_writings hds.1 hus) (ih hds.2 hvs)

theorem Decl.exists_writingAll (ds : List (Decl ι)) : ∃ ts, ts ∈ Decl.writingsAll ds := by
  induction ds with
  | nil => exact ⟨[], List.mem_singleton_self _⟩
  | cons d ds ih =>
      obtain ⟨us, hus⟩ := ih
      have hd : ∃ ts, ts ∈ d.writings := by
        cases d with
        | function f =>
            obtain ⟨ts, hts⟩ := Stmt.exists_writingAll f.body
            exact ⟨_, List.mem_map_of_mem hts⟩
        | struct s | constant c => exact ⟨_, List.mem_singleton_self _⟩
      obtain ⟨ts, hts⟩ := hd
      exact ⟨_, List.mem_flatMap.mpr ⟨ts, hts, List.mem_map_of_mem hus⟩⟩

theorem Module.derivesImports_tokens (xs : List String) :
    Module.DerivesImports (Module.importTokens xs) xs := by
  induction xs with
  | nil => exact .nil
  | cons x xs ih => exact .cons x (.inr rfl) ih

theorem Module.derives_writings {m : Module ι} (hm : m.isWritable = true) {ts : List Token}
    (hts : ts ∈ m.writings) : Module.Derives .longest ts m.shape := by
  obtain ⟨ds, hds, rfl⟩ := List.mem_map.mp hts
  exact ⟨_, ds, rfl, Module.derivesImports_tokens m.imports, Decl.derives_writingsAll hm hds⟩

/-- Parsing inverts writing: a tree that can be written has a writing, and whichever it is, reading
it gives back the tree up to the numbers of its nodes. -/
theorem Module.parse_writings (m : Module ι) (hm : m.isWritable = true) (source : String) :
    (∃ ts, ts ∈ m.writings) ∧
    ∀ tokens : List (Located Token), tokens.map (·.value) ∈ m.writings →
      ∃ m', parse tokens source = .ok m' ∧ m'.shape = m.shape := by
  constructor
  · obtain ⟨ts, hts⟩ := Decl.exists_writingAll m.decls
    exact ⟨_, List.mem_map_of_mem hts⟩
  · intro tokens htokens
    have hderives := Module.derives_writings hm htokens
    exact ⟨m.shape.number, parse_eq_ok_iff.mpr ⟨m.shape, hderives, rfl⟩,
      Module.shape_number m.shape⟩

/-- A function with an `else if`, an empty block, a call of a call and nothing to return. -/
def chained : Module NodeId where
  imports := ["io"]
  decls :=
    [.constant ⟨"k", .int, .literal 7 (.int 1)⟩,
      .function ⟨"f", [⟨"a", .int⟩, ⟨"b", .string⟩], none,
        [.branch 9 (.name 9 "a") []
          (some [.branch 9 (.call 9 (.call 9 (.name 9 "g") []) [.name 9 "a", .name 9 "b"])
            [.leave 9 none] none])]⟩]

def chainedTokens : List Token :=
  [.keyword .importKw, .identifier "io", .punct .semicolon, .keyword .constKw, .identifier "k",
    .punct .colon, .identifier "Int", .punct .assign, .number 1, .punct .semicolon,
    .keyword .funcKw, .identifier "f", .punct .openParen, .identifier "a", .punct .colon,
    .identifier "Int", .punct .comma, .identifier "b", .punct .colon, .identifier "String",
    .punct .closeParen, .punct .openBrace, .keyword .ifKw, .identifier "a", .punct .openBrace,
    .punct .closeBrace, .keyword .elseKw, .keyword .ifKw, .identifier "g", .punct .openParen,
    .punct .closeParen, .punct .openParen, .identifier "a", .punct .comma, .identifier "b",
    .punct .closeParen, .punct .openBrace, .keyword .returnKw, .punct .semicolon,
    .punct .closeBrace, .punct .semicolon, .punct .closeBrace]

theorem chained_parse_writings :
    chained.isWritable = true ∧ chainedTokens ∈ chained.writings ∧
      ∃ m', parse (chainedTokens.map fun t => ⟨t, ⟨1, 1⟩⟩) "" = .ok m' ∧
        m'.shape = chained.shape := by
  refine ⟨by decide, by decide, (chained.parse_writings (by decide) "").2 _ ?_⟩
  decide

end Mis
