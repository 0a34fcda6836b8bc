import Mis.Proofs.Reordering

/-!
One more function in a module. The tables of the larger module hold what those of
the smaller one hold, and something new only under the new name. An accepted
module never asks for that name, so all other declarations keep their code.
-/
namespace Mis

/-- Only the entries of a key decide what a table holds for it. -/
theorem Table.get?_insertAll_filter {κ α : Type} [DecidableEq κ] (as : List (κ × α))
    (table : Table κ α) (k : κ) :
    (table.insertAll as).get? k = (table.insertAll (as.filter (·.1 = k))).get? k := by
  have hcongr (bs : List (κ × α)) (t t' : Table κ α) (h : t.get? k = t'.get? k) :
      (t.insertAll bs).get? k = (t'.insertAll bs).get? k := by
    induction bs generalizing t t' with
    | nil => exact h
    | cons b bs ih =>
        apply ih
        rw [Table.get?_insert, Table.get?_insert, h]
  induction as generalizing table with
  | nil => rfl
  | cons a as ih =>
      have step : table.insertAll (a :: as) = (table.insert a.1 a.2).insertAll as := rfl
      rw [step]
      by_cases ha : a.1 = k
      · rw [List.filter_cons_of_pos (by simpa using ha)]
        exact ih _
      · rw [List.filter_cons_of_neg (by simpa using ha), ← ih]
        apply hcongr
        rw [Table.get?_insert, if_neg (Ne.symm ha)]

/-- The types of a function are recorded under labels of its body. -/
theorem FunctionDecl.id_of_typed {t : SymbolTable} {constants : Scope} {f : FunctionDecl NodeId}
    {b : Typings} (h : f.typed t constants = .ok b) {p : NodeId × Ty} (hp : p ∈ b.types) :
    p.1 ∈ Stmt.idsAll f.body := by
  obtain ⟨more, hmore, hids⟩ := Typings.types_of_foldlM h
  have hmem : p ∈ more := by rwa [hmore] at hp
  apply (Stmt.map_id_writesAll f.body).subset
  rw [← hids]
  exact List.mem_map_of_mem hmem

/-- The module with `g` behind its first `k` declarations. -/
def Module.insertFunction (m : Module NodeId) (k : Nat) (g : FunctionDecl NodeId) :
    Module NodeId :=
  { m with decls := m.decls.take k ++ .function g :: m.decls.drop k }

/-- Nothing that can be called has the name of `g`, and no node a label of its body. -/
structure FunctionDecl.FreshFor (g : FunctionDecl NodeId) (m : Module NodeId) : Prop where
  function_ne : ∀ f ∈ m.functions, f.name ≠ g.name
  struct_ne : ∀ s ∈ m.structs, s.name ≠ g.name
  builtin_ne : ∀ b ∈ builtins, b.externalName ≠ g.name
  ids : ∀ i ∈ Stmt.idsAll g.body, i ∉ m.ids

/-- The program without its function at `n` and the prototype of that function. -/
def C.Program.eraseFunction (p : C.Program) (n : Nat) : C.Program :=
  { p with prototypes := p.prototypes.eraseIdx n, functions := p.functions.eraseIdx n }

namespace Module

variable (m : Module NodeId) (k : Nat) (g : FunctionDecl NodeId)

theorem functions_eq_append :
    m.functions = functions ⟨[], m.decls.take k⟩ ++ functions ⟨[], m.decls.drop k⟩ := by
  simp only [functions]
  rw [← List.filterMap_append, List.take_append_drop]

theorem functions_insertFunction :
    (m.insertFunction k g).functions =
      functions ⟨[], m.decls.take k⟩ ++ g :: functions ⟨[], m.decls.drop k⟩ := by
  simp only [functions, insertFunction, List.filterMap_append]
  rfl

theorem filterMap_insertFunction {α : Type} (select : Decl NodeId → Option α)
    (hg : select (.function g) = none) :
    (m.insertFunction k g).decls.filterMap select = m.decls.filterMap select := by
  rw [insertFunction, List.filterMap_append, List.filterMap_cons_none hg, ← List.filterMap_append,
    List.take_append_drop]

theorem structs_insertFunction : (m.insertFunction k g).structs = m.structs :=
  filterMap_insertFunction m k g _ rfl

theorem constants_insertFunction : (m.insertFunction k g).constants = m.constants :=
  filterMap_insertFunction m k g _ rfl

theorem constantScope_insertFunction :
    (m.insertFunction k g).constantScope = m.constantScope := by
  rw [constantScope, constants_insertFunction, constantScope]

section Lookup

variable {m g} {x : String}

theorem functionsNamed_insertFunction (hx : x ≠ g.name) :
    (m.insertFunction k g).functionsNamed x = m.functionsNamed x := by
  rw [functionsNamed, functionsNamed, functions_insertFunction, functions_eq_append m k,
    List.filter_append, List.filter_append, List.filter_cons_of_neg (by simpa using Ne.symm hx)]

theorem mem_functionNames_insertFunction (hx : x ≠ g.name) :
    x ∈ (m.insertFunction k g).functionNames ↔ x ∈ m.functionNames := by
  rw [functionNames, functionNames, List.mem_eraseDups, List.mem_eraseDups,
    functions_insertFunction, functions_eq_append m k]
  simp [hx]

theorem isOverloaded_insertFunction (hx : x ≠ g.name) :
    (m.insertFunction k g).isOverloaded x = m.isOverloaded x := by
  rw [isOverloaded, isOverloaded, functionsNamed_insertFunction k hx]

theorem map_functionSymbol_insertFunction (hx : x ≠ g.name) :
    (m.functionsNamed x).map (m.insertFunction k g).functionSymbol =
      (m.functionsNamed x).map m.functionSymbol := by
  apply List.map_congr_left
  intro f hf
  have hname : f.name = x := by simpa using List.of_mem_filter hf
  rw [functionSymbol, functionSymbol, hname, isOverloaded_insertFunction k hx]

theorem get?_insertFunction (hx : x ≠ g.name) :
    (m.insertFunction k g).symbolTable.get? x = m.symbolTable.get? x := by
  simp only [get?_symbolTable_eq, structs_insertFunction, mem_functionNames_insertFunction k hx,
    functionsNamed_insertFunction k hx, map_functionSymbol_insertFunction k hx]

theorem externalName_insertFunction {f : FunctionDecl NodeId} (hf : f.name ≠ g.name) :
    (m.insertFunction k g).symbolTable.externalName f = m.symbolTable.externalName f := by
  rw [SymbolTable.externalName, SymbolTable.externalName, isOverloaded_symbolTable,
    isOverloaded_symbolTable, isOverloaded_insertFunction k hf]

theorem hidesFunction_insertFunction {f : FunctionDecl NodeId} (hf : f.name ≠ g.name) :
    (m.insertFunction k g).symbolTable.hidesFunction f = m.symbolTable.hidesFunction f := by
  rw [SymbolTable.hidesFunction, SymbolTable.hidesFunction, get?_insertFunction k hf]

end Lookup

end Module

namespace FunctionDecl.FreshFor

variable {m : Module NodeId} {g : FunctionDecl NodeId}

/-- The new name means nothing in the smaller module. -/
theorem get?_eq_none (h : g.FreshFor m) : m.symbolTable.get? g.name = none := by
  have hbuiltin : g.name ∉ builtins.map (·.externalName) := by
    intro hmem
    obtain ⟨b, hb, heq⟩ := List.mem_map.mp hmem
    exact h.builtin_ne b hb heq
  have hstruct : g.name ∉ m.structs.map (·.name) := by
    intro hmem
    obtain ⟨s, hs, heq⟩ := List.mem_map.mp hmem
    exact h.struct_ne s hs heq
  have hfunction : g.name ∉ m.functionNames := by
    rw [Module.functionNames, List.mem_eraseDups]
    intro hmem
    obtain ⟨f, hf, heq⟩ := List.mem_map.mp hmem
    exact h.function_ne f hf heq
  rw [Module.get?_symbolTable_eq, if_neg hbuiltin, if_neg hstruct, if_neg hfunction]

theorem below (h : g.FreshFor m) (k : Nat) :
    m.symbolTable.Below (m.insertFunction k g).symbolTable where
  get x symbols hget := by
    have hx : x ≠ g.name := by
      intro heq
      rw [heq, h.get?_eq_none] at hget
      cases hget
    rw [Module.get?_insertFunction k hx, hget]
  known type hknown := by
    rw [SymbolTable.isKnownType, Module.symbolTable, Module.structs_insertFunction]
    exact hknown

theorem not_hidesFunction (h : g.FreshFor m) (k : Nat) :
    (m.insertFunction k g).symbolTable.hidesFunction g = false := by
  cases hhidden : (m.insertFunction k g).symbolTable.hidesFunction g with
  | false => rfl
  | true =>
      obtain ⟨b, hb, heq⟩ := Module.builtin_of_hidesFunction hhidden
      exact absurd heq (h.builtin_ne b hb)

/-- The entry point of the smaller module stays the first. -/
theorem entry_eq (h : g.FreshFor m) (k : Nat) {entry : C.Entry}
    (hentry : m.entry m.symbolTable = .ok entry) :
    (m.insertFunction k g).entry (m.insertFunction k g).symbolTable = .ok entry := by
  rw [Module.entry_eq_ok] at hentry ⊢
  obtain ⟨f, hfind, rfl⟩ := hentry
  have hnamed := List.mem_of_find?_eq_some hfind
  have hname : f.name ≠ g.name := h.function_ne f (List.mem_of_mem_filter hnamed)
  have hstart : f.name = entryPoint := by simpa using List.of_mem_filter hnamed
  refine ⟨f, ?_, ?_⟩
  · rw [Module.functionsNamed_insertFunction k (hstart ▸ hname), hfind]
  · rw [Module.externalName_insertFunction k hname]

section Typed

variable {typed typed' : TypedModule} {k : Nat}

/-- What is recorded for `g` is recorded under labels of `g`. -/
theorem types_eq (h : g.FreshFor m) (htyped : m.typed m.symbolTable = .ok typed)
    (htyped' : (m.insertFunction k g).typed (m.insertFunction k g).symbolTable = .ok typed')
    {id : NodeId} (hid : id ∈ m.ids) : typed'.types.get? id = typed.types.get? id := by
  obtain ⟨typings, htypings, heq⟩ := bind_eq_ok.mp htyped
  cases heq
  obtain ⟨typings', htypings', heq'⟩ := bind_eq_ok.mp htyped'
  cases heq'
  rw [m.constantScope_insertFunction k g] at htypings'
  have hkept : ∀ f ∈ m.functions,
      (f.typed (m.insertFunction k g).symbolTable m.constantScope).toOption =
        (f.typed m.symbolTable m.constantScope).toOption := by
    intro f hf
    obtain ⟨b, hb⟩ := exists_mapM_eq_ok_iff.mp ⟨_, htypings⟩ f hf
    rw [hb, FunctionDecl.typed_below (h.below k) hb]
  rw [Module.functions_eq_append m k, List.forall_mem_append] at hkept
  obtain ⟨b, hb⟩ := exists_mapM_eq_ok_iff.mp ⟨_, htypings'⟩ g (by
    rw [Module.functions_insertFunction]
    exact List.mem_append_right _ List.mem_cons_self)
  have hother : b.types.filter (·.1 = id) = [] := by
    rw [List.filter_eq_nil_iff]
    intro p hp heq
    exact h.ids id (of_decide_eq_true heq ▸ FunctionDecl.id_of_typed hb hp) hid
  rw [Table.get?_insertAll_filter, Table.get?_insertAll_filter (typings.flatMap _),
    filterMap_of_mapM htypings, filterMap_of_mapM htypings', Module.functions_insertFunction,
    Module.functions_eq_append m k, List.filterMap_append, List.filterMap_append,
    List.filterMap_cons_some (by rw [hb]; rfl), List.filterMap_congr hkept.1,
    List.filterMap_congr hkept.2]
  simp only [List.flatMap_append, List.flatMap_cons, List.filter_append, hother, List.nil_append]

theorem generate_decl (h : g.FreshFor m) (htyped : m.typed m.symbolTable = .ok typed)
    (htyped' : (m.insertFunction k g).typed (m.insertFunction k g).symbolTable = .ok typed')
    {d : Decl NodeId} (hd : d ∈ m.decls) {r : Option C.Function}
    (hr : Decl.generate m.symbolTable typed.types m.constantScope d = .ok r) :
    Decl.generate (m.insertFunction k g).symbolTable typed'.types m.constantScope d = .ok r := by
  apply Decl.generate_below (h.below k) _ hr
  intro f hf
  subst hf
  have hname := h.function_ne f (Module.mem_functions.mpr hd)
  refine ⟨Module.externalName_insertFunction k hname,
    Module.hidesFunction_insertFunction k hname, ?_⟩
  intro id x init hdemand
  apply h.types_eq htyped htyped'
  apply List.mem_flatMap.mpr
  refine ⟨_, hd, (Stmt.map_id_writesAll f.body).subset ?_⟩
  exact List.mem_map_of_mem (Stmt.write_of_declare_memAll f.body hdemand)

/-- The function of `g` stands between the others, which are the same in both programs. -/
theorem exists_layout (h : g.FreshFor m) (htyped : m.typed m.symbolTable = .ok typed)
    (htyped' : (m.insertFunction k g).typed (m.insertFunction k g).symbolTable = .ok typed')
    {program program' : C.Program} (hprogram : typed.generate m.symbolTable = .ok program)
    (hprogram' : typed'.generate (m.insertFunction k g).symbolTable = .ok program') :
    ∃ before c after,
      g.generate (m.insertFunction k g).symbolTable typed'.types m.constantScope = .ok c ∧
      program.functions = before ++ after ∧ program'.functions = before ++ c :: after := by
  obtain ⟨old, hold⟩ := TypedModule.exists_code_of_generate hprogram
  obtain ⟨code, hcode⟩ := TypedModule.exists_code_of_generate hprogram'
  have hlaid := TypedModule.laidOut_of_generate hold hprogram
  have hlaid' := TypedModule.laidOut_of_generate hcode hprogram'
  rw [Module.tree_of_typed htyped] at hold hlaid
  rw [Module.tree_of_typed htyped'] at hcode hlaid'
  rw [m.constantScope_insertFunction k g] at hcode
  have hsame : ∀ d ∈ m.decls, old d = code d := by
    intro d hd
    have hmem : d ∈ (m.insertFunction k g).decls := by
      rw [← List.take_append_drop k m.decls, List.mem_append] at hd
      exact List.mem_append.mpr (hd.imp_right (List.mem_cons_of_mem _))
    have hkept := h.generate_decl htyped htyped' hd (hold d hd)
    rw [hcode d hmem] at hkept
    exact (Except.ok.inj hkept).symm
  have hg : .function g ∈ (m.insertFunction k g).decls :=
    List.mem_append_right _ List.mem_cons_self
  obtain ⟨hhidden, _⟩ | ⟨_, _, c, hc, hgenerate⟩ := Decl.generate_function (hcode _ hg)
  · rw [h.not_hidesFunction k] at hhidden
    cases hhidden
  · refine ⟨(m.decls.take k).filterMap code, c, (m.decls.drop k).filterMap code, hgenerate, ?_, ?_⟩
    · rw [hlaid.functions, List.filterMap_congr hsame, ← List.filterMap_append,
        List.take_append_drop]
    · rw [hlaid'.functions, Module.insertFunction, List.filterMap_append,
        List.filterMap_cons_some hc]

/-- Everything that is no function. -/
theorem parts_of_generate (h : g.FreshFor m) (htyped : m.typed m.symbolTable = .ok typed)
    (htyped' : (m.insertFunction k g).typed (m.insertFunction k g).symbolTable = .ok typed')
    {program program' : C.Program} (hprogram : typed.generate m.symbolTable = .ok program)
    (hprogram' : typed'.generate (m.insertFunction k g).symbolTable = .ok program') :
    program'.structs = program.structs ∧ program'.globals = program.globals ∧
      program'.entry = program.entry := by
  rw [TypedModule.generate_eq_ok, Module.tree_of_typed htyped] at hprogram
  rw [TypedModule.generate_eq_ok, Module.tree_of_typed htyped', m.constants_insertFunction,
    m.structs_insertFunction] at hprogram'
  obtain ⟨hglobals, _, _, hstructs, hentry⟩ := hprogram
  obtain ⟨hglobals', _, _, hstructs', hentry'⟩ := hprogram'
  rw [hglobals] at hglobals'
  rw [hstructs] at hstructs'
  rw [h.entry_eq k hentry] at hentry'
  exact ⟨(Except.ok.inj hstructs').symm, (Except.ok.inj hglobals').symm,
    (Except.ok.inj hentry').symm⟩

end Typed

end FunctionDecl.FreshFor

/-- Without the function of `g` the program of the larger module is that of the smaller one.
Labels may repeat within `m` and within `g`. -/
theorem Module.erase_insertFunction {m : Module NodeId} {g : FunctionDecl NodeId} (k : Nat)
    (hfresh : g.FreshFor m) {program program' : C.Program} (h : m.compile = .ok program)
    (h' : (m.insertFunction k g).compile = .ok program') :
    ∃ typed' n c,
      (m.insertFunction k g).typed (m.insertFunction k g).symbolTable = .ok typed' ∧
      g.generate (m.insertFunction k g).symbolTable typed'.types m.constantScope = .ok c ∧
      program'.functions[n]? = some c ∧ program'.prototypes[n]? = some c.prototype ∧
      program'.eraseFunction n = program := by
  obtain ⟨typed, htyped, hgenerate⟩ := Module.compile_eq_ok.mp h
  obtain ⟨typed', htyped', hgenerate'⟩ := Module.compile_eq_ok.mp h'
  obtain ⟨before, c, after, hc, hfunctions, hfunctions'⟩ :=
    hfresh.exists_layout htyped htyped' hgenerate hgenerate'
  obtain ⟨hstructs, hglobals, hentry⟩ :=
    hfresh.parts_of_generate htyped htyped' hgenerate hgenerate'
  have hprototypes := (Module.generates_of_generate htyped hgenerate).prototypes_eq
  have hprototypes' := (Module.generates_of_generate htyped' hgenerate').prototypes_eq
  rw [hfunctions, List.map_append] at hprototypes
  rw [hfunctions', List.map_append, List.map_cons] at hprototypes'
  refine ⟨typed', before.length, c, htyped', hc, ?_, ?_, ?_⟩
  · simp [hfunctions']
  · simp [hprototypes']
  · have herase {α : Type} (xs ys : List α) (y : α) {n : Nat} (hn : xs.length = n) :
        (xs ++ y :: ys).eraseIdx n = xs ++ ys := by
      rw [List.eraseIdx_append_of_length_le (Nat.le_of_eq hn), hn, Nat.sub_self,
        List.eraseIdx_cons_zero]
    obtain ⟨structs, globals, prototypes, functions, entry⟩ := program
    dsimp only at hstructs hglobals hentry hfunctions hprototypes
    rw [C.Program.eraseFunction, hstructs, hglobals, hentry, hfunctions', hprototypes',
      herase before after c rfl, herase _ _ _ (List.length_map _), hfunctions, hprototypes]

/-- Asks for its own result, for an overload and for a constant of the module. -/
def countTwice : FunctionDecl NodeId where
  name := "countTwice"
  params := [⟨"n", .int⟩]
  result := some .int
  body :=
    [.declare 102 .own "x" (.call 101 (.name 99 "countUp") [.name 100 "n"]),
     .call 106 (.call 105 (.name 103 "show") [.name 104 "limit"]),
     .leave 110 (some (.call 109 (.name 107 "countTwice") [.name 108 "x"]))]

theorem counting_erase_insertFunction :
    countTwice.FreshFor counting ∧
      ∃ program program', counting.compile = .ok program ∧
        (counting.insertFunction 4 countTwice).compile = .ok program' ∧
        program'.functions.length = 6 ∧
        ∃ n, (program'.functions[n]?.map (·.prototype.name)) = some "countTwice" ∧
          program'.eraseFunction n = program := by
  have hfresh : countTwice.FreshFor counting :=
    ⟨by decide +kernel, by decide +kernel, by decide +kernel, by decide +kernel⟩
  have hname : (counting.insertFunction 4 countTwice).symbolTable.externalName countTwice =
      "countTwice" := by decide +kernel
  obtain ⟨program, hprogram⟩ := counting_compiles
  obtain ⟨program', hprogram', hlength⟩ :=
    exists_eq_ok_of_any (x := (counting.insertFunction 4 countTwice).compile)
      (p := fun program => program.functions.length = 6) (by decide +kernel)
  obtain ⟨typed', n, c, _, hc, hfunction, _, herase⟩ :=
    Module.erase_insertFunction 4 hfresh hprogram hprogram'
  obtain ⟨frame, body, _, _, rfl⟩ := FunctionDecl.generate_eq_ok hc
  refine ⟨hfresh, program, program', hprogram, hprogram', of_decide_eq_true hlength, n, ?_,
    herase⟩
  rw [hfunction]
  exact congrArg some hname

end Mis
