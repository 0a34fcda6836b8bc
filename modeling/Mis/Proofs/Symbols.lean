import Mis.Generation
import Mis.Proofs.Scope

/-!
What the symbol table of a module holds, and what a call can mean. The symbols of
a name are those of its functions, of its struct, or of a built-in function; a
symbol that a call means has as many parameters as the call has arguments.
-/
namespace Mis

theorem Table.mem_of_get?_insertAll {κ α : Type} [DecidableEq κ] {as : List (κ × α)}
    {table : Table κ α} {k : κ} {a : α} (h : (table.insertAll as).get? k = some a) :
    (k, a) ∈ as ∨ table.get? k = some a := by
  induction as generalizing table with
  | nil => exact .inr h
  | cons p as ih =>
      obtain hmem | hget := ih h
      · exact .inl (List.mem_cons_of_mem _ hmem)
      · rw [Table.get?_insert] at hget
        by_cases hk : k = p.1
        · rw [if_pos hk] at hget
          cases hget
          exact .inl (hk ▸ List.mem_cons_self)
        · rw [if_neg hk] at hget
          exact .inr hget

/-- With distinct keys every entry stays. -/
theorem Table.get?_insertAll_of_mem {κ α : Type} [DecidableEq κ] {as : List (κ × α)}
    {table : Table κ α} {k : κ} {a : α} (hkeys : (as.map (·.1)).Nodup) (h : (k, a) ∈ as) :
    (table.insertAll as).get? k = some a := by
  have hmem : (k, a) ∈ as ∨ k ∉ as.map (·.1) ∧ table.get? k = some a := .inl h
  clear h
  induction as generalizing table with
  | nil =>
      obtain hmem | hmem := hmem
      · cases hmem
      · exact hmem.2
  | cons p as ih =>
      simp only [List.map_cons, List.nodup_cons] at hkeys
      refine ih hkeys.2 ?_
      obtain hmem | ⟨hnot, hget⟩ := hmem
      · obtain rfl | hmem := List.mem_cons.mp hmem
        · exact .inr ⟨hkeys.1, Table.get?_insert_self ..⟩
        · exact .inl hmem
      · simp only [List.map_cons, List.mem_cons, not_or] at hnot
        refine .inr ⟨hnot.2, ?_⟩
        rw [Table.get?_insert, if_neg hnot.1, hget]

/-- Entries that depend on nothing but their keys may repeat. -/
theorem Table.get?_insertAll_map {κ α : Type} [DecidableEq κ] (entry : κ → α) (keys : List κ)
    (table : Table κ α) (k : κ) :
    (table.insertAll (keys.map fun key => (key, entry key))).get? k =
      if k ∈ keys then some (entry k) else table.get? k := by
  induction keys generalizing table with
  | nil => rfl
  | cons key keys ih =>
      have step : table.insertAll ((key :: keys).map fun key => (key, entry key)) =
          (table.insert key (entry key)).insertAll (keys.map fun key => (key, entry key)) := rfl
      rw [step, ih, Table.get?_insert]
      by_cases hk : k = key
      · simp [hk]
      · simp [hk]

/-! The loop that collects the functions by name, and what it has collected at its end. -/

section Groups

variable {ι : Type} {fs : List (FunctionDecl ι)} {f : FunctionDecl ι} {names : List String}

theorem nodup_eraseDups : ∀ xs : List String, xs.eraseDups.Nodup
  | [] => List.nodup_nil
  | x :: xs => by
      rw [List.eraseDups_cons, List.nodup_cons, List.mem_eraseDups]
      exact ⟨by simp, nodup_eraseDups _⟩
termination_by xs => xs.length
decreasing_by exact Nat.lt_succ_of_le (List.length_filter_le _ _)

theorem FunctionDecl.filter_concat_of_ne {x : String} (h : x ≠ f.name) :
    (fs ++ [f]).filter (·.name = x) = fs.filter (·.name = x) := by
  simp [List.filter_append, Ne.symm h]

theorem FunctionDecl.map_filter_concat (h : f.name ∉ names) :
    names.map (fun x => (x, (fs ++ [f]).filter (·.name = x))) =
      names.map fun x => (x, fs.filter (·.name = x)) :=
  List.map_congr_left fun x hx => by
    rw [filter_concat_of_ne fun heq => h (heq ▸ hx)]

theorem FunctionDecl.joinGroup_of_notMem (h : f.name ∉ names) :
    f.joinGroup (names.map fun x => (x, fs.filter (·.name = x))) =
      names.map (fun x => (x, (fs ++ [f]).filter (·.name = x))) ++ [(f.name, [f])] := by
  induction names with
  | nil => rfl
  | cons x names ih =>
      rw [List.mem_cons, not_or] at h
      have hx : x ≠ f.name := Ne.symm h.1
      rw [List.map_cons, List.map_cons, joinGroup, if_neg hx, ih h.2, filter_concat_of_ne hx]
      rfl

theorem FunctionDecl.joinGroup_of_mem (hnames : names.Nodup) (h : f.name ∈ names) :
    f.joinGroup (names.map fun x => (x, fs.filter (·.name = x))) =
      names.map fun x => (x, (fs ++ [f]).filter (·.name = x)) := by
  induction names with
  | nil => cases h
  | cons x names ih =>
      rw [List.nodup_cons] at hnames
      rw [List.map_cons, List.map_cons, joinGroup]
      by_cases hx : x = f.name
      · subst hx
        rw [if_pos rfl, map_filter_concat hnames.1, List.filter_append]
        simp
      · have htail : f.name ∈ names := (List.mem_cons.mp h).resolve_left (Ne.symm hx)
        rw [if_neg hx, ih hnames.2 htail, filter_concat_of_ne hx]

/-- The functions `fs` by their names, in the order in which the names come up. -/
def FunctionDecl.groups (fs : List (FunctionDecl ι)) : List (String × List (FunctionDecl ι)) :=
  (fs.map (·.name)).eraseDups.map fun x => (x, fs.filter (·.name = x))

/-- One round of the loop. -/
theorem FunctionDecl.joinGroup_groups (fs : List (FunctionDecl ι)) (f : FunctionDecl ι) :
    f.joinGroup (groups fs) = groups (fs ++ [f]) := by
  rw [groups, groups, List.map_append, List.map_singleton, List.eraseDups_append,
    List.cons_removeAll, List.contains_eq_mem]
  by_cases h : f.name ∈ fs.map (·.name)
  · rw [joinGroup_of_mem (nodup_eraseDups _) (List.mem_eraseDups.mpr h)]
    simp [h, List.removeAll]
  · rw [joinGroup_of_notMem fun hmem => h (List.mem_eraseDups.mp hmem)]
    have hnew : fs.filter (·.name = f.name) = [] := by
      rw [List.filter_eq_nil_iff]
      intro g hg heq
      exact h (of_decide_eq_true heq ▸ List.mem_map_of_mem hg)
    simp [h, List.removeAll, List.eraseDups_cons, hnew]

theorem FunctionDecl.foldl_joinGroup (fs gs : List (FunctionDecl ι)) :
    gs.foldl (fun groups f => f.joinGroup groups) (groups fs) = groups (fs ++ gs) := by
  induction gs generalizing fs with
  | nil => rw [List.append_nil, List.foldl_nil]
  | cons g gs ih => rw [List.foldl_cons, joinGroup_groups, ih, List.append_assoc, List.cons_append,
      List.nil_append]

/-! The same read off the module. -/

namespace Module

def functionsNamed (m : Module ι) (name : String) : List (FunctionDecl ι) :=
  m.functions.filter (·.name = name)

/-- The names of the functions, each once, in the order they are first declared. -/
def functionNames (m : Module ι) : List String :=
  (m.functions.map (·.name)).eraseDups

def isOverloaded (m : Module ι) (name : String) : Bool :=
  1 < (m.functionsNamed name).length

def functionSymbol (m : Module ι) (f : FunctionDecl ι) : Symbol where
  externalName := if m.isOverloaded f.name then mangle f.name f.paramTypes else f.name
  kind := .function
  params := f.paramTypes
  result := f.result

theorem functionGroups_eq (m : Module ι) :
    m.functionGroups = m.functionNames.map fun x => (x, m.functionsNamed x) :=
  FunctionDecl.foldl_joinGroup [] m.functions

theorem symbols_functionsNamed (m : Module ι) (x : String) :
    FunctionDecl.symbols (m.functionsNamed x) = (m.functionsNamed x).map m.functionSymbol := by
  refine List.map_congr_left fun f hf => ?_
  obtain rfl : f.name = x := of_decide_eq_true (List.mem_filter.mp hf).2
  simp only [functionSymbol, isOverloaded, decide_eq_true_eq]

theorem callables_eq (m : Module ι) :
    m.callables =
      m.functionNames.map (fun x => (x, (m.functionsNamed x).map m.functionSymbol)) ++
      m.structs.map (fun s =>
        (s.name, [⟨constructorName s.name, .constructor, [], some ⟨s.name, false⟩⟩])) ++
      builtins.map (fun b => (b.externalName, [b])) := by
  rw [callables, functionGroups_eq, List.map_map]
  simp only [Function.comp_def, symbols_functionsNamed]

theorem symbolTable_eq (m : Module ι) :
    m.symbolTable =
      ⟨Table.empty.insertAll m.callables,
        [Ty.int.name, Ty.string.name] ++ m.structs.map (·.name),
        m.functionNames.filter m.isOverloaded⟩ := by
  rw [symbolTable, functionGroups_eq, List.filter_map, List.map_map]
  exact congrArg _ (List.map_id _)

theorem mem_functionNames {m : Module ι} {x : String} :
    x ∈ m.functionNames ↔ ∃ f ∈ m.functions, f.name = x := by
  rw [functionNames, List.mem_eraseDups, List.mem_map]

theorem isOverloaded_symbolTable (m : Module ι) (x : String) :
    m.symbolTable.isOverloaded x = m.isOverloaded x := by
  rw [SymbolTable.isOverloaded, symbolTable_eq, Bool.eq_iff_iff, decide_eq_true_eq,
    List.mem_filter]
  refine ⟨fun h => h.2, fun h => ⟨?_, h⟩⟩
  obtain ⟨f, hf⟩ :=
    List.exists_mem_of_length_pos (Nat.lt_trans Nat.zero_lt_one (of_decide_eq_true h))
  obtain ⟨hmem, hname⟩ := List.mem_filter.mp hf
  exact mem_functionNames.mpr ⟨f, hmem, of_decide_eq_true hname⟩

end Module

end Groups

section Lookup

variable {ι : Type} {m : Module ι} {x : String} {symbols : List Symbol}

def StructDecl.symbol (s : StructDecl) : Symbol :=
  ⟨constructorName s.name, .constructor, [], some ⟨s.name, false⟩⟩

/-- The three kinds of symbols that a name can have. -/
theorem Module.get?_symbolTable (h : m.symbolTable.get? x = some symbols) :
    (symbols = (m.functionsNamed x).map m.functionSymbol) ∨
      (∃ s ∈ m.structs, s.name = x ∧ symbols = [s.symbol]) ∨
      ∃ b ∈ builtins, b.externalName = x ∧ symbols = [b] := by
  obtain hmem | hempty := Table.mem_of_get?_insertAll h
  · rw [Module.callables_eq, List.mem_append, List.mem_append, List.mem_map, List.mem_map,
      List.mem_map] at hmem
    obtain (⟨name, _, heq⟩ | ⟨s, hs, heq⟩) | ⟨b, hb, heq⟩ := hmem
    · cases heq
      exact .inl rfl
    · cases heq
      exact .inr (.inl ⟨s, hs, rfl, rfl⟩)
    · cases heq
      exact .inr (.inr ⟨b, hb, rfl, rfl⟩)
  · cases hempty

/-- A built-in function hides a struct, and a struct hides functions. -/
theorem Module.get?_symbolTable_eq (m : Module ι) (x : String) :
    m.symbolTable.get? x =
      if x ∈ builtins.map (·.externalName) then
        some (builtins.find? (·.externalName = x)).toList
      else if x ∈ m.structs.map (·.name) then some [StructDecl.symbol ⟨x, []⟩]
      else if x ∈ m.functionNames then some ((m.functionsNamed x).map m.functionSymbol)
      else none := by
  have hbuiltins : builtins.map (fun b => (b.externalName, [b])) =
      (builtins.map (·.externalName)).map fun x =>
        (x, (builtins.find? (·.externalName = x)).toList) := by
    decide +kernel
  have hstructs : m.structs.map (fun s => (s.name, [s.symbol])) =
      (m.structs.map (·.name)).map fun x => (x, [StructDecl.symbol ⟨x, []⟩]) := by
    rw [List.map_map]
    rfl
  have happend (table : Table String (List Symbol)) (as bs : List (String × List Symbol)) :
      table.insertAll (as ++ bs) = (table.insertAll as).insertAll bs := List.foldl_append
  have hcallables : m.callables =
      m.functionNames.map (fun x => (x, (m.functionsNamed x).map m.functionSymbol)) ++
      m.structs.map (fun s => (s.name, [s.symbol])) ++
      builtins.map (fun b => (b.externalName, [b])) := m.callables_eq
  rw [SymbolTable.get?, Module.symbolTable, hcallables, happend, happend, hbuiltins, hstructs,
    Table.get?_insertAll_map, Table.get?_insertAll_map, Table.get?_insertAll_map, Table.get?_empty]

theorem not_startsCapital_of_mem_builtins {b : Symbol} (h : b ∈ builtins) :
    startsCapital b.externalName = false := by
  have hall : ∀ b ∈ builtins, startsCapital b.externalName = false := by decide +kernel
  exact hall b h

/-- Only a built-in function hides a function from generation. -/
theorem Module.builtin_of_hidesFunction {f : FunctionDecl ι}
    (h : m.symbolTable.hidesFunction f = true) : ∃ b ∈ builtins, b.externalName = f.name := by
  rw [SymbolTable.hidesFunction] at h
  cases hget : m.symbolTable.get? f.name with
  | none => simp [hget] at h
  | some symbols =>
      simp only [hget, List.any_eq_true, decide_eq_true_eq] at h
      obtain ⟨s, hs, hkind⟩ := h
      obtain rfl | ⟨d, _, _, rfl⟩ | ⟨b, hb, hname, _⟩ := Module.get?_symbolTable hget
      · obtain ⟨g, _, rfl⟩ := List.mem_map.mp hs
        cases hkind
      · rw [List.mem_singleton.mp hs] at hkind
        cases hkind
      · exact ⟨b, hb, hname⟩

/-- A function whose name has the symbols of functions is generated. -/
theorem Module.not_hidesFunction {f : FunctionDecl ι}
    (h : m.symbolTable.get? f.name = some ((m.functionsNamed f.name).map m.functionSymbol)) :
    m.symbolTable.hidesFunction f = false := by
  rw [SymbolTable.hidesFunction, h]
  simp [Module.functionSymbol]

theorem Module.externalName_functionSymbol (m : Module ι) (f : FunctionDecl ι) :
    (m.functionSymbol f).externalName = m.symbolTable.externalName f := by
  rw [Module.functionSymbol, SymbolTable.externalName, m.isOverloaded_symbolTable]

end Lookup

section Called

variable {ι : Type} {t : SymbolTable} {σ : Scope}

theorem Expr.length_argumentTypes {es : List (Expr ι)} {ts : List Ty}
    (h : Expr.argumentTypes t σ es = .ok ts) : ts.length = es.length := by
  induction es generalizing ts with
  | nil =>
      simp only [Expr.argumentTypes, Except.ok.injEq] at h
      rw [← h]
      rfl
  | cons e es ih =>
      rw [Expr.argumentTypes] at h
      obtain ⟨r, _, h⟩ := bind_eq_ok.mp h
      cases r with
      | none => cases h
      | some type =>
          obtain ⟨rest, hrest, h⟩ := bind_eq_ok.mp h
          cases h
          exact congrArg Nat.succ (ih hrest)

/-- The symbol of a call is one of the symbols of the called name: the only one, or the one
for the types of the arguments. -/
theorem calledSymbol_eq_ok {callee : Expr ι} {args : List (Expr ι)} {s : Symbol}
    (h : calledSymbol t σ callee args = .ok s) :
    ∃ x symbols, callee.name? = some x ∧ t.get? x = some symbols ∧ s ∈ symbols ∧
      s.params.length = args.length ∧
      (symbols = [s] ∨ Expr.argumentTypes t σ args = .ok s.params) := by
  rw [calledSymbol, SymbolTable.select] at h
  cases hname : callee.name? with
  | none => simp [hname] at h
  | some x =>
      simp only [hname] at h
      obtain ⟨symbols, hcandidates, h⟩ := bind_eq_ok.mp h
      have hget : t.get? x = some symbols := by
        rw [SymbolTable.candidates] at hcandidates
        split at hcandidates
        · rename_i hsome
          cases hcandidates
          exact hsome
        · cases hcandidates
      refine ⟨x, symbols, rfl, hget, ?_⟩
      split at h
      · rename_i single
        rw [SymbolTable.ofArity] at h
        split at h
        · rename_i harity
          cases h
          exact ⟨List.mem_singleton_self _, harity, .inl rfl⟩
        · cases h
      · obtain ⟨ts, hts, h⟩ := bind_eq_ok.mp h
        rw [SymbolTable.overload] at h
        split at h
        · rename_i found hfound
          cases h
          have hparams : s.params = ts := by simpa using List.find?_some hfound
          refine ⟨List.mem_of_find?_eq_some hfound, ?_, .inr (hparams ▸ hts)⟩
          rw [hparams, Expr.length_argumentTypes hts]
        · cases h

/-- Where only structs have capital names, a call goes to the external name of its symbol. -/
theorem Module.calledName_eq {m : Module ι} {callee : Expr NodeId} {args : List (Expr NodeId)}
    {s : Symbol} (hcapital : ∀ f ∈ m.functions, startsCapital f.name = false)
    (h : calledSymbol m.symbolTable σ callee args = .ok s) :
    Frame.calledName callee s = s.externalName := by
  obtain ⟨x, symbols, hname, hget, hmem, _⟩ := calledSymbol_eq_ok h
  rw [Frame.calledName, hname]
  obtain rfl | ⟨d, _, rfl, rfl⟩ | ⟨b, hb, rfl, rfl⟩ := Module.get?_symbolTable hget
  · obtain ⟨f, hnamed, rfl⟩ := List.mem_map.mp hmem
    obtain ⟨hf, hx⟩ := List.mem_filter.mp hnamed
    rw [← of_decide_eq_true hx]
    simp only [hcapital f hf, Bool.false_eq_true, if_false]
  · rw [List.mem_singleton.mp hmem]
    simp only [StructDecl.symbol, ite_self]
  · rw [List.mem_singleton.mp hmem]
    simp only [not_startsCapital_of_mem_builtins hb, Bool.false_eq_true, if_false]

end Called

end Mis
