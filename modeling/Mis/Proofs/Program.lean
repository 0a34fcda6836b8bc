import Mathlib.Data.List.Nodup
import Mathlib.Data.List.ReduceOption
import Mis.Compile
import Mis.Proofs.Lowering
import Mis.Proofs.Symbols

/-!
What the program of a module consists of: the functions of the module that no
built-in function hides and the constructors of its structs, and nothing else.
-/
namespace Mis

variable {m : Module NodeId} {typed : TypedModule} {program : C.Program}

theorem Module.tree_of_typed {t : SymbolTable} (h : m.typed t = .ok typed) : typed.tree = m := by
  obtain ⟨_, _, h⟩ := bind_eq_ok.mp h
  cases h
  rfl

theorem Module.mem_functions {f : FunctionDecl NodeId} :
    f ∈ m.functions ↔ .function f ∈ m.decls := by
  rw [Module.functions, List.mem_filterMap]
  constructor
  · intro h
    obtain ⟨d, hd, heq⟩ := h
    cases d with
    | function g =>
        cases heq
        exact hd
    | struct s | constant c => cases heq
  · intro h
    exact ⟨_, h, rfl⟩

theorem Module.mem_structs {s : StructDecl} : s ∈ m.structs ↔ .struct s ∈ m.decls := by
  rw [Module.structs, List.mem_filterMap]
  constructor
  · intro h
    obtain ⟨d, hd, heq⟩ := h
    cases d with
    | struct s =>
        cases heq
        exact hd
    | function f | constant c => cases heq
  · intro h
    exact ⟨_, h, rfl⟩

/-- The functions that no built-in function hides. -/
def Module.generatedFunctions {ι : Type} (m : Module ι) : List (FunctionDecl ι) :=
  m.functions.filter fun f => !m.symbolTable.hidesFunction f

theorem Module.mem_generatedFunctions {ι : Type} {m : Module ι} {f : FunctionDecl ι} :
    f ∈ m.generatedFunctions ↔ f ∈ m.functions ∧ m.symbolTable.hidesFunction f = false := by
  simp [Module.generatedFunctions]

/-- A call means a function that is generated, a constructor or a built-in function. -/
theorem Module.source_of_calledSymbol {σ : Scope} {callee : Expr NodeId}
    {args : List (Expr NodeId)} {s : Symbol}
    (h : calledSymbol m.symbolTable σ callee args = .ok s) :
    (∃ f ∈ m.generatedFunctions, s = m.functionSymbol f) ∨
      (∃ d ∈ m.structs, s = d.symbol) ∨ s ∈ builtins := by
  obtain ⟨x, symbols, _, hget, hmem, _⟩ := calledSymbol_eq_ok h
  obtain rfl | ⟨d, hd, rfl, rfl⟩ | ⟨b, hb, rfl, rfl⟩ := Module.get?_symbolTable hget
  · obtain ⟨f, hnamed, rfl⟩ := List.mem_map.mp hmem
    obtain ⟨hf, hx⟩ := List.mem_filter.mp hnamed
    have hname : f.name = x := of_decide_eq_true hx
    subst hname
    have hshown := Module.not_hidesFunction hget
    exact .inl ⟨f, Module.mem_generatedFunctions.mpr ⟨hf, hshown⟩, rfl⟩
  · exact .inr (.inl ⟨d, hd, List.mem_singleton.mp hmem⟩)
  · exact .inr (.inr (List.mem_singleton.mp hmem ▸ hb))

theorem Module.nodup_idsAll (hids : m.ids.Nodup) {f : FunctionDecl NodeId} (hf : f ∈ m.functions) :
    (Stmt.idsAll f.body).Nodup :=
  (List.nodup_flatMap.mp hids).1 _ (Module.mem_functions.mp hf)

/-- The parts of a generated program, each with the declaration it comes from. -/
structure Module.Generates (m : Module NodeId) (t : SymbolTable) (types : Table NodeId Ty)
    (program : C.Program) : Prop where
  globals : List.Forall₂ (fun c g => ConstantDecl.generate c = .ok g) m.constants program.globals
  prototypes_eq : program.prototypes = program.functions.map (·.prototype)
  constructor_mem : ∀ s ∈ m.structs, s.constructor ∈ program.functions
  function_mem : ∀ f ∈ m.functions, t.hidesFunction f = false →
    startsCapital f.name = false ∧
      ∃ g ∈ program.functions, f.generate t types m.constantScope = .ok g
  source : ∀ g ∈ program.functions, (∃ s ∈ m.structs, g = s.constructor) ∨
    ∃ f ∈ m.functions, t.hidesFunction f = false ∧ f.generate t types m.constantScope = .ok g
  entry_eq : m.entry t = .ok program.entry

/-- The frame behind a generated function. -/
theorem FunctionDecl.generate_eq_ok {t : SymbolTable} {types : Table NodeId Ty} {globals : Scope}
    {f : FunctionDecl NodeId} {g : C.Function} (h : f.generate t types globals = .ok g) :
    ∃ frame body, f.frame t types globals = .ok frame ∧ Stmt.lowerAll frame f.body = .ok body ∧
      g = ⟨f.prototype t, frame.locals, frame.initials, body⟩ := by
  obtain ⟨frame, hframe, h⟩ := bind_eq_ok.mp h
  obtain ⟨body, hbody, h⟩ := bind_eq_ok.mp h
  cases h
  exact ⟨frame, body, hframe, hbody, rfl⟩

/-- What a declaration that generation accepts gives rise to. -/
theorem Decl.generate_function {t : SymbolTable} {types : Table NodeId Ty} {globals : Scope}
    {f : FunctionDecl NodeId} {r : Option C.Function}
    (h : Decl.generate t types globals (.function f) = .ok r) :
    t.hidesFunction f = true ∧ r = none ∨
      t.hidesFunction f = false ∧ startsCapital f.name = false ∧
        ∃ g, r = some g ∧ f.generate t types globals = .ok g := by
  rw [Decl.generate] at h
  cases hhidden : t.hidesFunction f with
  | true =>
      simp only [hhidden, if_true, Except.ok.injEq] at h
      exact .inl ⟨rfl, h.symm⟩
  | false =>
      cases hcapital : startsCapital f.name with
      | true => simp [hhidden, hcapital] at h
      | false =>
          simp only [hhidden, hcapital, Bool.false_eq_true, if_false] at h
          obtain ⟨g, hg, h⟩ := bind_eq_ok.mp h
          cases h
          exact .inr ⟨rfl, rfl, g, rfl, hg⟩

theorem exists_of_forall₂_left {α β : Type} {R : α → β → Prop} {xs : List α} {ys : List β}
    (h : List.Forall₂ R xs ys) {x : α} (hx : x ∈ xs) : ∃ y ∈ ys, R x y := by
  induction h with
  | nil => cases hx
  | cons hr _ ih =>
      cases hx with
      | head => exact ⟨_, List.mem_cons_self, hr⟩
      | tail _ hx =>
          obtain ⟨y, hy, hr⟩ := ih hx
          exact ⟨y, List.mem_cons_of_mem _ hy, hr⟩

theorem exists_of_forall₂_right {α β : Type} {R : α → β → Prop} {xs : List α} {ys : List β}
    (h : List.Forall₂ R xs ys) {y : β} (hy : y ∈ ys) : ∃ x ∈ xs, R x y :=
  exists_of_forall₂_left h.flip hy

theorem exists_mapM_eq_ok_iff {ε α β : Type} {f : α → Except ε β} {xs : List α} :
    (∃ ys, xs.mapM f = .ok ys) ↔ ∀ x ∈ xs, ∃ y, f x = .ok y := by
  constructor
  · intro h x hx
    obtain ⟨ys, h⟩ := h
    obtain ⟨y, _, hy⟩ := exists_of_forall₂_left (mapM_eq_ok.mp h) hx
    exact ⟨y, hy⟩
  · intro h
    induction xs with
    | nil => exact ⟨[], rfl⟩
    | cons x xs ih =>
        obtain ⟨y, hy⟩ := h x List.mem_cons_self
        obtain ⟨ys, hys⟩ := ih fun x hx => h x (List.mem_cons_of_mem _ hx)
        exact ⟨y :: ys, mapM_eq_ok.mpr (.cons hy (mapM_eq_ok.mp hys))⟩

theorem filterMap_of_mapM {ε α β : Type} {f : α → Except ε β} {xs : List α} {ys : List β}
    (h : xs.mapM f = .ok ys) : ys = xs.filterMap fun x => (f x).toOption := by
  rw [mapM_eq_ok] at h
  induction h with
  | nil => rfl
  | cons hy _ ih =>
      rw [List.filterMap_cons, hy, ← ih]
      rfl

theorem orderDefinitions_eq_ok {structs ordered : List C.Struct} :
    orderDefinitions structs = .ok ordered ↔ C.definitionOrder structs = .ok ordered := by
  rw [orderDefinitions]
  cases C.definitionOrder structs <;> simp

namespace Definitions

variable {t : SymbolTable} {types : Table NodeId Ty} {globals : Scope}

/-- The definitions so far and behind them those of `ds`; functions are declared as they are
defined. -/
def extend (so : Definitions) (ds : List (Decl NodeId)) (functions : List C.Function) :
    Definitions where
  structs := so.structs ++ (Module.structs ⟨[], ds⟩).map StructDecl.definition
  prototypes := so.prototypes ++ functions.map (·.prototype)
  functions := so.functions ++ functions

theorem extend_nil (so : Definitions) : so.extend [] [] = so := by
  simp [extend, Module.structs]

theorem extend_extend (so : Definitions) (ds ds' : List (Decl NodeId)) (gs gs' : List C.Function) :
    (so.extend ds gs).extend ds' gs' = so.extend (ds ++ ds') (gs ++ gs') := by
  simp [extend, Module.structs]

/-- The prototype that is put beside a function is the one that the function has. -/
theorem add_eq (so : Definitions) (d : Decl NodeId) :
    so.add t types globals d =
      (d.generate t types globals).map fun r => so.extend [d] r.toList := by
  rw [add]
  cases h : d.generate t types globals with
  | error e => rfl
  | ok r =>
      change _ = Except.ok (so.extend [d] r.toList)
      cases d with
      | constant c =>
          cases h
          exact congrArg Except.ok so.extend_nil.symm
      | struct s =>
          cases h
          rfl
      | function f =>
          obtain ⟨_, rfl⟩ | ⟨_, _, g, rfl, hg⟩ := Decl.generate_function h
          · exact congrArg Except.ok so.extend_nil.symm
          · obtain ⟨frame, body, _, _, rfl⟩ := FunctionDecl.generate_eq_ok hg
            simp [extend, Module.structs, bind, Except.bind]

theorem foldlM_add (so : Definitions) (ds : List (Decl NodeId)) :
    ds.foldlM (add t types globals) so =
      (ds.mapM (Decl.generate t types globals)).map fun rs => so.extend ds rs.reduceOption := by
  induction ds generalizing so with
  | nil => exact congrArg Except.ok so.extend_nil.symm
  | cons d ds ih =>
      rw [List.foldlM_cons, List.mapM_cons, add_eq]
      cases d.generate t types globals with
      | error e => rfl
      | ok r =>
          change ds.foldlM (add t types globals) (so.extend [d] r.toList) = _
          rw [ih]
          cases ds.mapM (Decl.generate t types globals) with
          | error e => rfl
          | ok rs =>
              refine congrArg Except.ok ((so.extend_extend [d] ds r.toList _).trans ?_)
              cases r with
              | none | some g => rfl

end Definitions

/-- Generation one declaration at a time: the functions of the declarations, and their
prototypes. -/
theorem TypedModule.generate_eq (t : SymbolTable) (typed : TypedModule) :
    typed.generate t = (do
      let globals ← typed.tree.constants.mapM ConstantDecl.generate
      let generated ← typed.tree.decls.mapM (Decl.generate t typed.types typed.tree.constantScope)
      let structs ← orderDefinitions (typed.tree.structs.map StructDecl.definition)
      let entry ← typed.tree.entry t
      .ok ⟨structs, globals, generated.reduceOption.map (·.prototype), generated.reduceOption,
        entry⟩) := by
  rw [generate, Definitions.foldlM_add]
  cases typed.tree.decls.mapM (Decl.generate t typed.types typed.tree.constantScope) with
  | error e | ok generated => rfl

/-- The stages of generation, each with what it gives to the program. -/
theorem TypedModule.generate_eq_ok {t : SymbolTable} :
    typed.generate t = .ok program ↔
      typed.tree.constants.mapM ConstantDecl.generate = .ok program.globals ∧
      (∃ generated,
        typed.tree.decls.mapM (Decl.generate t typed.types typed.tree.constantScope) =
          .ok generated ∧ program.functions = generated.reduceOption) ∧
      program.prototypes = program.functions.map (·.prototype) ∧
      C.definitionOrder (typed.tree.structs.map StructDecl.definition) = .ok program.structs ∧
      typed.tree.entry t = .ok program.entry := by
  rw [generate_eq]
  constructor
  · intro h
    obtain ⟨globals, hglobals, h⟩ := bind_eq_ok.mp h
    obtain ⟨generated, hgenerated, h⟩ := bind_eq_ok.mp h
    obtain ⟨structs, hstructs, h⟩ := bind_eq_ok.mp h
    obtain ⟨entry, hentry, h⟩ := bind_eq_ok.mp h
    cases h
    exact ⟨hglobals, ⟨generated, hgenerated, rfl⟩, rfl, orderDefinitions_eq_ok.mp hstructs, hentry⟩
  · intro h
    cases program
    dsimp only at h
    obtain ⟨hglobals, ⟨generated, hgenerated, rfl⟩, rfl, hstructs, hentry⟩ := h
    exact bind_eq_ok.mpr ⟨_, hglobals, bind_eq_ok.mpr ⟨_, hgenerated,
      bind_eq_ok.mpr ⟨_, orderDefinitions_eq_ok.mpr hstructs, bind_eq_ok.mpr ⟨_, hentry, rfl⟩⟩⟩⟩

theorem Module.compile_eq_ok :
    m.compile = .ok program ↔
      ∃ typed, m.typed m.symbolTable = .ok typed ∧ typed.generate m.symbolTable = .ok program := by
  rw [Module.compile, bind_eq_ok]
  simp only [mapError_eq_ok]

theorem counting_compiles : ∃ program, counting.compile = .ok program :=
  exists_eq_ok (by decide +kernel)

theorem Module.entry_eq_ok {t : SymbolTable} {entry : C.Entry} :
    m.entry t = .ok entry ↔
      ∃ f, (m.functionsNamed entryPoint).find? (·.params.isEmpty) = some f ∧
        entry = ⟨t.externalName f, f.result⟩ := by
  have hfind : m.functions.find? (fun f => f.name = entryPoint && f.params.isEmpty) =
      (m.functionsNamed entryPoint).find? (·.params.isEmpty) := by
    simp only [Module.functionsNamed, List.find?_filter, Bool.decide_and, Bool.decide_eq_true]
  rw [Module.entry, hfind]
  cases (m.functionsNamed entryPoint).find? (·.params.isEmpty) with
  | none => simp
  | some f => simp [eq_comm]

/-- No built-in function hides the function that a program starts with. -/
theorem Module.exists_entry {entry : C.Entry} (h : m.entry m.symbolTable = .ok entry) :
    ∃ f ∈ m.generatedFunctions, entry = ⟨m.symbolTable.externalName f, f.result⟩ := by
  obtain ⟨f, hfind, hentry⟩ := Module.entry_eq_ok.mp h
  obtain ⟨hf, hname⟩ := List.mem_filter.mp (List.mem_of_find?_eq_some hfind)
  refine ⟨f, Module.mem_generatedFunctions.mpr ⟨hf, ?_⟩, hentry⟩
  cases hhidden : m.symbolTable.hidesFunction f with
  | false => rfl
  | true =>
      obtain ⟨b, hb, hbname⟩ := Module.builtin_of_hidesFunction hhidden
      have hnot : ∀ b ∈ builtins, b.externalName ≠ entryPoint := by decide
      exact absurd (hbname.trans (of_decide_eq_true hname)) (hnot b hb)

theorem Module.generates_of_generate {t : SymbolTable} (htyped : m.typed t = .ok typed)
    (h : typed.generate t = .ok program) : m.Generates t typed.types program := by
  have htree := Module.tree_of_typed htyped
  rw [TypedModule.generate_eq_ok, htree] at h
  obtain ⟨hglobals, ⟨generated, hgenerated, hfunctions⟩, hprototypes, _, hentry⟩ := h
  have hdecls := mapM_eq_ok.mp hgenerated
  have hmem : ∀ g, g ∈ program.functions ↔ some g ∈ generated := by
    intro g
    rw [hfunctions]
    exact List.reduceOption_mem_iff
  refine {
    globals := mapM_eq_ok.mp hglobals
    prototypes_eq := hprototypes
    constructor_mem := ?_
    function_mem := ?_
    source := ?_
    entry_eq := hentry }
  · intro s hs
    obtain ⟨r, hr, hgen⟩ := exists_of_forall₂_left hdecls (Module.mem_structs.mp hs)
    cases hgen
    exact (hmem _).mpr hr
  · intro f hf hhidden
    obtain ⟨r, hr, hgen⟩ := exists_of_forall₂_left hdecls (Module.mem_functions.mp hf)
    obtain ⟨htrue, _⟩ | ⟨_, hcapital, g, rfl, hg⟩ := Decl.generate_function hgen
    · rw [hhidden] at htrue
      cases htrue
    · exact ⟨hcapital, g, (hmem g).mpr hr, hg⟩
  · intro g hg
    obtain ⟨d, hd, hgen⟩ := exists_of_forall₂_right hdecls ((hmem g).mp hg)
    cases d with
    | function f =>
        obtain ⟨_, hnone⟩ | ⟨hhidden, _, g', heq, hg'⟩ := Decl.generate_function hgen
        · cases hnone
        · cases heq
          exact .inr ⟨f, Module.mem_functions.mpr hd, hhidden, hg'⟩
    | struct s =>
        cases hgen
        exact .inl ⟨s, Module.mem_structs.mpr hd, rfl⟩
    | constant c => cases hgen

namespace Module.Generates

variable {types : Table NodeId Ty}

/-- No function of an accepted module is called like a struct. -/
theorem not_startsCapital (h : m.Generates m.symbolTable types program) {f : FunctionDecl NodeId}
    (hf : f ∈ m.functions) : startsCapital f.name = false := by
  cases hhidden : m.symbolTable.hidesFunction f with
  | false => exact (h.function_mem f hf hhidden).1
  | true =>
      obtain ⟨b, hb, hname⟩ := Module.builtin_of_hidesFunction hhidden
      exact hname ▸ not_startsCapital_of_mem_builtins hb

theorem name_mem_globals {t : SymbolTable} (h : m.Generates t types program) {x : String}
    (hx : (m.constantScope x).isSome) : x ∈ program.globals.map (·.name) := by
  rw [Module.constantScope, Scope.isSome_insertAll] at hx
  obtain hx | hx := hx
  · rw [List.map_map, List.mem_map] at hx
    obtain ⟨c, hc, rfl⟩ := hx
    obtain ⟨g, hg, hgen⟩ := exists_of_forall₂_left h.globals hc
    rw [ConstantDecl.generate] at hgen
    split at hgen
    · cases hgen
      exact List.mem_map.mpr ⟨_, hg, rfl⟩
    · cases hgen
  · cases hx

end Module.Generates

theorem FunctionDecl.name_mem_prototype {ι : Type} {t : SymbolTable} {f : FunctionDecl ι}
    {x : String} :
    x ∈ (f.prototype t).params.map (·.name) ↔
      x = C.resultParam ∧ f.result.isSome ∨ x ∈ f.params.map (·.name) := by
  simp only [FunctionDecl.prototype, C.Prototype.make, List.map_append, List.map_map,
    List.mem_append]
  cases f.result <;> simp

end Mis
