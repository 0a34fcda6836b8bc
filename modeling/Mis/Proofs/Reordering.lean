import Mis.Proofs.Extension
import Mis.Proofs.Naming
import Mis.Proofs.StructOrder
import Mis.Proofs.Typings

/-!
The order of declarations. Whatever generation looks up it looks up by name, so
only declarations of one kind and one name could be told apart by their order. A
module and a reordering of it therefore have tables each above the other, and
all declarations keep their types and their code.
-/
namespace Mis

/-- The same declarations in another order. Those of one kind and one name stay in order. -/
structure Module.Reordered (m m' : Module NodeId) : Prop where
  perm : m'.decls.Perm m.decls
  functions : ∀ x, m'.functionsNamed x = m.functionsNamed x
  structs : ∀ x, m'.structs.filter (·.name = x) = m.structs.filter (·.name = x)
  constants : ∀ x, m'.constants.filter (·.name = x) = m.constants.filter (·.name = x)

/-- Only the entries of a name decide what a scope holds for it. -/
theorem Scope.insertAll_filter (xs : List TypedName) (s : Scope) (x : String) :
    s.insertAll xs x = s.insertAll (xs.filter (·.name = x)) x := by
  have hcongr (ys : List TypedName) (s s' : Scope) (h : s x = s' x) :
      s.insertAll ys x = s'.insertAll ys x := by
    induction ys generalizing s s' with
    | nil => exact h
    | cons y ys ih => exact ih _ _ (by simp only [Scope.insert, h])
  induction xs generalizing s with
  | nil => rfl
  | cons y ys ih =>
      have step : s.insertAll (y :: ys) = (s.insert y.name y.type).insertAll ys := rfl
      rw [step]
      by_cases hy : y.name = x
      · rw [List.filter_cons_of_pos (by simpa using hy)]
        exact ih _
      · rw [List.filter_cons_of_neg (by simpa using hy), ← ih]
        exact hcongr ys _ _ (by simp [Scope.insert, Ne.symm hy])

/-- The functions of `program` are what `code` gives for the declarations, in their order. -/
structure C.Program.LaidOut (program : C.Program) (code : Decl NodeId → Option C.Function)
    (ds : List (Decl NodeId)) : Prop where
  functions : program.functions = ds.filterMap code
  prototypes : program.prototypes = (ds.filterMap code).map (·.prototype)

theorem TypedModule.exists_code_of_generate {t : SymbolTable} {typed : TypedModule}
    {program : C.Program} (h : typed.generate t = .ok program) :
    ∃ code : Decl NodeId → Option C.Function, ∀ d ∈ typed.tree.decls,
      Decl.generate t typed.types typed.tree.constantScope d = .ok (code d) := by
  obtain ⟨_, ⟨generated, hgenerated, _⟩, _⟩ := TypedModule.generate_eq_ok.mp h
  refine ⟨fun d => (Decl.generate t typed.types typed.tree.constantScope d).toOption.bind id, ?_⟩
  intro d hd
  obtain ⟨r, hr⟩ := exists_mapM_eq_ok_iff.mp ⟨_, hgenerated⟩ d hd
  simp only [hr]
  rfl

theorem TypedModule.laidOut_of_generate {t : SymbolTable} {typed : TypedModule}
    {program : C.Program} {code : Decl NodeId → Option C.Function}
    (hcode : ∀ d ∈ typed.tree.decls,
      Decl.generate t typed.types typed.tree.constantScope d = .ok (code d))
    (h : typed.generate t = .ok program) : program.LaidOut code typed.tree.decls := by
  obtain ⟨_, ⟨generated, hgenerated, hfunctions⟩, hprototypes, _, _⟩ :=
    TypedModule.generate_eq_ok.mp h
  have heq : program.functions = typed.tree.decls.filterMap code := by
    rw [hfunctions, filterMap_of_mapM hgenerated, List.reduceOption, List.filterMap_filterMap]
    refine List.filterMap_congr fun d hd => ?_
    rw [hcode d hd]
    rfl
  exact ⟨heq, heq ▸ hprototypes⟩

theorem perm_of_mapM {ε α β : Type} {f : α → Except ε β} {xs xs' : List α} {ys ys' : List β}
    (hperm : xs'.Perm xs) (h : xs.mapM f = .ok ys) (h' : xs'.mapM f = .ok ys') : ys'.Perm ys := by
  rw [filterMap_of_mapM h, filterMap_of_mapM h']
  exact hperm.filterMap _

namespace Module.Reordered

variable {m m' : Module NodeId} {x : String} {f : FunctionDecl NodeId}

theorem symm (h : m.Reordered m') : m'.Reordered m where
  perm := h.perm.symm
  functions x := (h.functions x).symm
  structs x := (h.structs x).symm
  constants x := (h.constants x).symm

theorem nodup_ids (h : m.Reordered m') (hids : m.ids.Nodup) : m'.ids.Nodup :=
  (h.perm.flatMap_right Decl.ids).nodup_iff.mpr hids

theorem functions_perm (h : m.Reordered m') : m'.functions.Perm m.functions :=
  h.perm.filterMap _

theorem structs_perm (h : m.Reordered m') : m'.structs.Perm m.structs :=
  h.perm.filterMap _

theorem constants_perm (h : m.Reordered m') : m'.constants.Perm m.constants :=
  h.perm.filterMap _

theorem isOverloaded_eq (h : m.Reordered m') : m'.isOverloaded = m.isOverloaded := by
  funext x
  rw [Module.isOverloaded, Module.isOverloaded, h.functions]

theorem functionSymbol_eq (h : m.Reordered m') : m'.functionSymbol = m.functionSymbol := by
  funext f
  rw [Module.functionSymbol, Module.functionSymbol, h.isOverloaded_eq]

theorem mem_functionNames_iff (h : m.Reordered m') :
    x ∈ m'.functionNames ↔ x ∈ m.functionNames := by
  rw [Module.functionNames, Module.functionNames, List.mem_eraseDups, List.mem_eraseDups]
  exact (h.functions_perm.map _).mem_iff

theorem get?_eq (h : m.Reordered m') (x : String) :
    m'.symbolTable.get? x = m.symbolTable.get? x := by
  have hstruct : x ∈ m'.structs.map (·.name) ↔ x ∈ m.structs.map (·.name) :=
    (h.structs_perm.map _).mem_iff
  simp only [Module.get?_symbolTable_eq, hstruct, h.mem_functionNames_iff, h.functions,
    h.functionSymbol_eq]

theorem below (h : m.Reordered m') : m.symbolTable.Below m'.symbolTable where
  get x symbols hget := by rw [h.get?_eq, hget]
  known type hknown := by
    have hperm : m'.symbolTable.types.Perm m.symbolTable.types :=
      (h.structs_perm.map _).append_left _
    exact decide_eq_true (hperm.mem_iff.mpr (of_decide_eq_true hknown))

theorem externalName_eq (h : m.Reordered m') :
    m'.symbolTable.externalName f = m.symbolTable.externalName f := by
  rw [SymbolTable.externalName, SymbolTable.externalName, Module.isOverloaded_symbolTable,
    Module.isOverloaded_symbolTable, h.isOverloaded_eq]

theorem hidesFunction_eq (h : m.Reordered m') :
    m'.symbolTable.hidesFunction f = m.symbolTable.hidesFunction f := by
  rw [SymbolTable.hidesFunction, SymbolTable.hidesFunction, h.get?_eq]

theorem constantScope_eq (h : m.Reordered m') : m'.constantScope = m.constantScope := by
  funext x
  rw [Module.constantScope, Module.constantScope, Scope.insertAll_filter,
    Scope.insertAll_filter (m.constants.map _), List.filter_map, List.filter_map]
  exact congrArg (fun cs : List (ConstantDecl NodeId) =>
    Scope.empty.insertAll (cs.map fun c => ⟨c.name, c.type⟩) x) (h.constants x)

theorem entry_eq (h : m.Reordered m') :
    m'.entry m'.symbolTable = m.entry m.symbolTable := by
  have hfind (m : Module NodeId) :
      m.functions.find? (fun f => f.name = entryPoint && f.params.isEmpty) =
        (m.functionsNamed entryPoint).find? (·.params.isEmpty) := by
    simp only [Module.functionsNamed, List.find?_filter, Bool.decide_and, Bool.decide_eq_true]
  simp only [Module.entry, hfind, h.functions, h.externalName_eq]

theorem exists_definitionOrder_iff (h : m.Reordered m') :
    (∃ ordered, C.definitionOrder (m'.structs.map StructDecl.definition) = .ok ordered) ↔
      ∃ ordered, C.definitionOrder (m.structs.map StructDecl.definition) = .ok ordered := by
  refine C.exists_definitionOrder_congr fun x => ?_
  have hfind : m'.structs.find? (·.name = x) = m.structs.find? (·.name = x) := by
    rw [← List.head?_filter, ← List.head?_filter, h.structs]
  rw [List.find?_map, List.find?_map]
  exact congrArg _ hfind

section Typed

variable {typed typed' : TypedModule}

theorem exists_typed (h : m.Reordered m') (htyped : m.typed m.symbolTable = .ok typed) :
    ∃ typed', m'.typed m'.symbolTable = .ok typed' := by
  obtain ⟨typings, htypings, _⟩ := bind_eq_ok.mp htyped
  have hall : ∃ typings', m'.functions.mapM
      (FunctionDecl.typed m'.symbolTable m'.constantScope) = .ok typings' := by
    rw [exists_mapM_eq_ok_iff, h.constantScope_eq]
    intro f hf
    obtain ⟨b, hb⟩ := exists_mapM_eq_ok_iff.mp ⟨_, htypings⟩ f (h.functions_perm.mem_iff.mp hf)
    exact ⟨b, FunctionDecl.typed_below h.below hb⟩
  obtain ⟨typings', htypings'⟩ := hall
  exact ⟨_, bind_eq_ok.mpr ⟨typings', htypings', rfl⟩⟩

-- A type in the table was recorded by some function, which records it in every order.
theorem get?_of_get? (h : m.Reordered m') (hids : m.ids.Nodup)
    (htyped : m.typed m.symbolTable = .ok typed) (htyped' : m'.typed m'.symbolTable = .ok typed')
    {id : NodeId} {type : Ty} (hget : typed.types.get? id = some type) :
    typed'.types.get? id = some type := by
  obtain ⟨typings, htypings, heq⟩ := bind_eq_ok.mp htyped
  cases heq
  obtain hmem | hempty := Table.mem_of_get?_insertAll hget
  · obtain ⟨b, hb, hmem⟩ := List.mem_flatMap.mp hmem
    obtain ⟨f, hf, hfb⟩ := exists_of_forall₂_right (mapM_eq_ok.mp htypings) hb
    obtain ⟨b', hfb', hrecorded⟩ := Module.recorded_of_typed (h.nodup_ids hids) htyped'
      (h.functions_perm.mem_iff.mpr hf)
    rw [h.constantScope_eq, FunctionDecl.typed_below h.below hfb] at hfb'
    cases hfb'
    exact hrecorded _ hmem
  · cases hempty

theorem types_eq (h : m.Reordered m') (hids : m.ids.Nodup)
    (htyped : m.typed m.symbolTable = .ok typed) (htyped' : m'.typed m'.symbolTable = .ok typed')
    (id : NodeId) : typed'.types.get? id = typed.types.get? id := by
  ext type
  constructor
  · exact h.symm.get?_of_get? (h.nodup_ids hids) htyped' htyped
  · exact h.get?_of_get? hids htyped htyped'

theorem generate_decl (h : m.Reordered m') {types types' : Table NodeId Ty}
    (htypes : ∀ id, types'.get? id = types.get? id) {d : Decl NodeId} {r : Option C.Function}
    (hd : Decl.generate m.symbolTable types m.constantScope d = .ok r) :
    Decl.generate m'.symbolTable types' m'.constantScope d = .ok r := by
  rw [h.constantScope_eq]
  exact Decl.generate_below h.below
    (fun f _ => ⟨h.externalName_eq, h.hidesFunction_eq, fun id _ _ _ => htypes id⟩) hd

theorem exists_generate (h : m.Reordered m') (hids : m.ids.Nodup)
    (htyped : m.typed m.symbolTable = .ok typed) (htyped' : m'.typed m'.symbolTable = .ok typed')
    {program : C.Program} (hprogram : typed.generate m.symbolTable = .ok program) :
    ∃ program', typed'.generate m'.symbolTable = .ok program' := by
  have htypes := h.types_eq hids htyped htyped'
  have htree := Module.tree_of_typed htyped
  have htree' := Module.tree_of_typed htyped'
  simp only [TypedModule.generate_eq_ok, htree] at hprogram
  simp only [TypedModule.generate_eq_ok, htree']
  obtain ⟨hglobals, ⟨generated, hgenerated, _⟩, _, hstructs, hentry⟩ := hprogram
  obtain ⟨globals', hglobals'⟩ : ∃ globals', m'.constants.mapM ConstantDecl.generate =
      .ok globals' := by
    rw [exists_mapM_eq_ok_iff]
    intro c hc
    exact exists_mapM_eq_ok_iff.mp ⟨_, hglobals⟩ c (h.constants_perm.mem_iff.mp hc)
  obtain ⟨generated', hgenerated'⟩ : ∃ generated', m'.decls.mapM
      (Decl.generate m'.symbolTable typed'.types m'.constantScope) = .ok generated' := by
    rw [exists_mapM_eq_ok_iff]
    intro d hd
    obtain ⟨r, hr⟩ := exists_mapM_eq_ok_iff.mp ⟨_, hgenerated⟩ d (h.perm.mem_iff.mp hd)
    exact ⟨r, h.generate_decl htypes hr⟩
  obtain ⟨structs', hstructs'⟩ := h.exists_definitionOrder_iff.mpr ⟨_, hstructs⟩
  exact ⟨⟨structs', globals', generated'.reduceOption.map (·.prototype), generated'.reduceOption,
    program.entry⟩, hglobals', ⟨generated', hgenerated', rfl⟩, rfl, hstructs', h.entry_eq ▸ hentry⟩

/-- Every declaration keeps its code. -/
theorem exists_laidOut (h : m.Reordered m') (hids : m.ids.Nodup)
    (htyped : m.typed m.symbolTable = .ok typed) (htyped' : m'.typed m'.symbolTable = .ok typed')
    {program program' : C.Program} (hprogram : typed.generate m.symbolTable = .ok program)
    (hprogram' : typed'.generate m'.symbolTable = .ok program') :
    ∃ code : Decl NodeId → Option C.Function,
      (∀ d ∈ m.decls,
        Decl.generate m.symbolTable typed.types m.constantScope d = .ok (code d) ∧
        Decl.generate m'.symbolTable typed'.types m'.constantScope d = .ok (code d)) ∧
      program.LaidOut code m.decls ∧ program'.LaidOut code m'.decls := by
  have htypes := h.types_eq hids htyped htyped'
  obtain rfl := Module.tree_of_typed htyped
  obtain rfl := Module.tree_of_typed htyped'
  obtain ⟨code, hcode⟩ := TypedModule.exists_code_of_generate hprogram
  refine ⟨code, fun d hd => ⟨hcode d hd, h.generate_decl htypes (hcode d hd)⟩, ?_, ?_⟩
  · exact TypedModule.laidOut_of_generate hcode hprogram
  · refine TypedModule.laidOut_of_generate (fun d hd => ?_) hprogram'
    exact h.generate_decl htypes (hcode d (h.perm.mem_iff.mp hd))

theorem parts_of_generate (h : m.Reordered m')
    (htyped : m.typed m.symbolTable = .ok typed) (htyped' : m'.typed m'.symbolTable = .ok typed')
    {program program' : C.Program} (hprogram : typed.generate m.symbolTable = .ok program)
    (hprogram' : typed'.generate m'.symbolTable = .ok program') :
    program'.globals.Perm program.globals ∧ program'.structs.Perm program.structs ∧
      program'.entry = program.entry := by
  rw [TypedModule.generate_eq_ok, Module.tree_of_typed htyped] at hprogram
  rw [TypedModule.generate_eq_ok, Module.tree_of_typed htyped'] at hprogram'
  obtain ⟨hglobals, _, _, hstructs, hentry⟩ := hprogram
  obtain ⟨hglobals', _, _, hstructs', hentry'⟩ := hprogram'
  refine ⟨perm_of_mapM h.constants_perm hglobals hglobals', ?_, ?_⟩
  · exact ((C.perm_of_definitionOrder hstructs').trans (h.structs_perm.map _)).trans
      (C.perm_of_definitionOrder hstructs).symm
  · rw [h.entry_eq, hentry] at hentry'
    exact (Except.ok.inj hentry').symm

end Typed

end Module.Reordered

/-- The order of declarations shows in the order of what they give, and nowhere else. -/
theorem Module.generate_reordered {m m' : Module NodeId} (hids : m.ids.Nodup)
    (h : m.Reordered m') :
    ((∃ typed, m.typed m.symbolTable = .ok typed) ↔
      ∃ typed', m'.typed m'.symbolTable = .ok typed') ∧
    ∀ typed typed', m.typed m.symbolTable = .ok typed → m'.typed m'.symbolTable = .ok typed' →
      (∀ id, typed'.types.get? id = typed.types.get? id) ∧
      ((∃ program, typed.generate m.symbolTable = .ok program) ↔
        ∃ program', typed'.generate m'.symbolTable = .ok program') ∧
      ∀ program program', typed.generate m.symbolTable = .ok program →
        typed'.generate m'.symbolTable = .ok program' →
        (∃ code : Decl NodeId → Option C.Function,
          (∀ d ∈ m.decls,
            Decl.generate m.symbolTable typed.types m.constantScope d = .ok (code d) ∧
            Decl.generate m'.symbolTable typed'.types m'.constantScope d = .ok (code d)) ∧
          program.LaidOut code m.decls ∧ program'.LaidOut code m'.decls) ∧
        program'.globals.Perm program.globals ∧ program'.structs.Perm program.structs ∧
        program'.entry = program.entry := by
  refine ⟨⟨?_, ?_⟩, ?_⟩
  · intro htyped
    obtain ⟨typed, htyped⟩ := htyped
    exact h.exists_typed htyped
  · intro htyped'
    obtain ⟨typed', htyped'⟩ := htyped'
    exact h.symm.exists_typed htyped'
  · intro typed typed' htyped htyped'
    refine ⟨h.types_eq hids htyped htyped', ⟨?_, ?_⟩, ?_⟩
    · intro hprogram
      obtain ⟨program, hprogram⟩ := hprogram
      exact h.exists_generate hids htyped htyped' hprogram
    · intro hprogram'
      obtain ⟨program', hprogram'⟩ := hprogram'
      exact h.symm.exists_generate (h.nodup_ids hids) htyped' htyped hprogram'
    · intro program program' hprogram hprogram'
      exact ⟨h.exists_laidOut hids htyped htyped' hprogram hprogram',
        h.parts_of_generate htyped htyped' hprogram hprogram'⟩

/-- The callers first, and then what they use. The two overloads keep their order. -/
def countingCallersFirst : Module NodeId :=
  { counting with decls := counting.decls.drop 3 ++ counting.decls.take 3 }

theorem counting_reordered : counting.Reordered countingCallersFirst where
  perm := by
    rw [← List.take_append_drop 3 counting.decls]
    exact List.perm_append_comm
  functions x := by
    have hfirst : counting.functions = countUp :: counting.functions.tail := rfl
    have hlast : countingCallersFirst.functions = counting.functions.tail ++ [countUp] := rfl
    by_cases hx : countUp.name = x
    · subst hx
      rfl
    · rw [Module.functionsNamed, Module.functionsNamed, hfirst, hlast]
      simp [hx]
  structs _ := rfl
  constants _ := rfl

theorem counting_generate_reordered :
    counting.ids.Nodup ∧ counting.Reordered countingCallersFirst ∧
      ∃ typed typed' program program',
        counting.typed counting.symbolTable = .ok typed ∧
        countingCallersFirst.typed countingCallersFirst.symbolTable = .ok typed' ∧
        typed.generate counting.symbolTable = .ok program ∧
        typed'.generate countingCallersFirst.symbolTable = .ok program' ∧
        typed'.types.get? 47 = typed.types.get? 47 ∧
        (∃ code : Decl NodeId → Option C.Function, program.LaidOut code counting.decls ∧
          program'.LaidOut code countingCallersFirst.decls) ∧
        program'.globals.Perm program.globals ∧ program'.structs.Perm program.structs ∧
        program'.entry = program.entry := by
  have hids : counting.ids.Nodup := by decide +kernel
  obtain ⟨htypedIff, hrest⟩ := Module.generate_reordered hids counting_reordered
  obtain ⟨program, hcompile⟩ := counting_compiles
  obtain ⟨typed, htyped, hprogram⟩ := Module.compile_eq_ok.mp hcompile
  obtain ⟨typed', htyped'⟩ := htypedIff.mp ⟨typed, htyped⟩
  obtain ⟨htypes, hprogramIff, hprograms⟩ := hrest typed typed' htyped htyped'
  obtain ⟨program', hprogram'⟩ := hprogramIff.mp ⟨program, hprogram⟩
  obtain ⟨⟨code, _, hcode⟩, hparts⟩ := hprograms program program' hprogram hprogram'
  exact ⟨hids, counting_reordered, typed, typed', program, program', htyped, htyped', hprogram,
    hprogram', htypes 47, ⟨code, hcode⟩, hparts⟩

end Mis
