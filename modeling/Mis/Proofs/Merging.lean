import Mathlib.Data.List.Forall2
import Mis.Proofs.Symbols

/-!
The symbol table as a merge. Three kinds of declarations give names to call, and
where they give the same one, a built-in function hides a struct and a struct
hides functions. What is left of a name is told by one rule for each kind, and
the table holds exactly that. A function that nothing hides is generated under
the external name that its calls use.
-/
namespace Mis
namespace Module

section Merge

variable {ι : Type}

def IsBuiltin (x : String) : Prop :=
  ∃ b ∈ builtins, b.externalName = x

def HasStruct (m : Module ι) (x : String) : Prop :=
  ∃ s ∈ m.structs, s.name = x

/-- The symbol of a declared function. One of several functions of a name has an external name
that spells out its parameter types. -/
structure Declares (m : Module ι) (f : FunctionDecl ι) (s : Symbol) : Prop where
  kind : s.kind = .function
  params : s.params = f.params.map (·.type)
  result : s.result = f.result
  externalName : s.externalName =
    if 2 ≤ (m.functions.filter (·.name = f.name)).length then mangle f.name (f.params.map (·.type))
    else f.name

/-- What can be called by a name. -/
inductive Means (m : Module ι) (x : String) : Option (List Symbol) → Prop
  | builtin {b : Symbol} : b ∈ builtins → b.externalName = x → Means m x (some [b])
  | constructor : ¬ IsBuiltin x → m.HasStruct x →
      Means m x (some [⟨x ++ "_init", .constructor, [], some ⟨x, false⟩⟩])
  | functions {symbols : List Symbol} : ¬ IsBuiltin x → ¬ m.HasStruct x →
      (∃ f ∈ m.functions, f.name = x) →
      List.Forall₂ m.Declares (m.functions.filter (·.name = x)) symbols →
      Means m x (some symbols)
  | nothing : ¬ IsBuiltin x → ¬ m.HasStruct x → (∀ f ∈ m.functions, f.name ≠ x) → Means m x none

variable {m : Module ι} {x : String}

theorem declares_iff {f : FunctionDecl ι} {s : Symbol} :
    m.Declares f s ↔ m.functionSymbol f = s := by
  constructor
  · intro h
    obtain ⟨name, kind, params, result⟩ := s
    obtain ⟨rfl, rfl, rfl, rfl⟩ := h
    simp only [functionSymbol, FunctionDecl.paramTypes, isOverloaded, functionsNamed,
      decide_eq_true_eq, Nat.lt_iff_add_one_le]
  · rintro rfl
    refine ⟨rfl, rfl, rfl, ?_⟩
    simp only [functionSymbol, FunctionDecl.paramTypes, isOverloaded, functionsNamed,
      decide_eq_true_eq, Nat.lt_iff_add_one_le]

theorem forall₂_declares_iff {fs : List (FunctionDecl ι)} {symbols : List Symbol} :
    List.Forall₂ m.Declares fs symbols ↔ fs.map m.functionSymbol = symbols := by
  have hdeclares : m.Declares = fun f s => m.functionSymbol f = s := by
    funext f s
    exact propext declares_iff
  rw [hdeclares, ← List.forall₂_map_left_iff, List.forall₂_eq_eq_eq]

theorem find?_builtins {b : Symbol} (hb : b ∈ builtins) :
    builtins.find? (·.externalName = b.externalName) = some b := by
  have hall : ∀ b ∈ builtins, builtins.find? (·.externalName = b.externalName) = some b := by
    decide +kernel
  exact hall b hb

theorem get?_of_means {found : Option (List Symbol)} (h : m.Means x found) :
    m.symbolTable.get? x = found := by
  have hbuiltin : ¬ IsBuiltin x → x ∉ builtins.map (·.externalName) := mt List.mem_map.mp
  have hstruct : ¬ m.HasStruct x → x ∉ m.structs.map (·.name) := mt List.mem_map.mp
  rw [get?_symbolTable_eq]
  cases h with
  | builtin hb hx =>
      subst hx
      rw [if_pos (List.mem_map_of_mem hb), find?_builtins hb]
      rfl
  | constructor hnb hs =>
      rw [if_neg (hbuiltin hnb), if_pos (List.mem_map.mpr hs)]
      rfl
  | functions hnb hns hf hsymbols =>
      rw [if_neg (hbuiltin hnb), if_neg (hstruct hns), if_pos (mem_functionNames.mpr hf),
        ← forall₂_declares_iff.mp hsymbols]
      rfl
  | nothing hnb hns hnf =>
      have hnone : x ∉ m.functionNames := fun hx => by
        obtain ⟨f, hf, hname⟩ := mem_functionNames.mp hx
        exact hnf f hf hname
      rw [if_neg (hbuiltin hnb), if_neg (hstruct hns), if_neg hnone]

theorem exists_means (m : Module ι) (x : String) : ∃ found, m.Means x found := by
  by_cases hb : IsBuiltin x
  · obtain ⟨b, hb, hx⟩ := hb
    exact ⟨_, .builtin hb hx⟩
  by_cases hs : m.HasStruct x
  · exact ⟨_, .constructor hb hs⟩
  by_cases hf : ∃ f ∈ m.functions, f.name = x
  · exact ⟨_, .functions hb hs hf (forall₂_declares_iff.mpr rfl)⟩
  · exact ⟨_, .nothing hb hs fun f hmem hx => hf ⟨f, hmem, hx⟩⟩

theorem get?_eq_iff_means {found : Option (List Symbol)} :
    m.symbolTable.get? x = found ↔ m.Means x found := by
  constructor
  · rintro rfl
    obtain ⟨found, hfound⟩ := m.exists_means x
    rwa [get?_of_means hfound]
  · exact get?_of_means

theorem isOverloaded_symbolTable_iff :
    m.symbolTable.isOverloaded x = true ↔ 2 ≤ (m.functions.filter (·.name = x)).length := by
  rw [isOverloaded_symbolTable, isOverloaded, decide_eq_true_eq]
  rfl

theorem isKnownType_symbolTable_iff {type : Ty} :
    m.symbolTable.isKnownType type = true ↔
      type.name = "Int" ∨ type.name = "String" ∨ m.HasStruct type.name := by
  simp only [SymbolTable.isKnownType, symbolTable, decide_eq_true_eq, List.cons_append,
    List.nil_append, List.mem_cons, List.mem_map]
  rfl

/-- The table holds for every name what the merge leaves of it. The overloaded names are those of
at least two functions, the known types are the two built-in ones and the structs, and the `i`-th
function of a name that is not hidden is generated under the external name of the `i`-th symbol. -/
theorem symbolTable_merges (m : Module ι) :
    (∀ x found, m.symbolTable.get? x = found ↔ m.Means x found) ∧
    (∀ x, m.symbolTable.isOverloaded x = true ↔
      2 ≤ (m.functions.filter (·.name = x)).length) ∧
    (∀ type, m.symbolTable.isKnownType type = true ↔
      type.name = "Int" ∨ type.name = "String" ∨ m.HasStruct type.name) ∧
    ∀ (x : String) (i : Nat) (f : FunctionDecl ι),
      (m.functions.filter (·.name = x))[i]? = some f → ¬ IsBuiltin x → ¬ m.HasStruct x →
      ∃ symbols s, m.symbolTable.get? x = some symbols ∧ symbols[i]? = some s ∧
        m.Declares f s ∧ s.externalName = m.symbolTable.externalName f := by
  refine ⟨fun _ _ => get?_eq_iff_means, fun _ => isOverloaded_symbolTable_iff,
    fun _ => isKnownType_symbolTable_iff, ?_⟩
  intro x i f hf hnb hns
  obtain ⟨hmem, hname⟩ := List.mem_filter.mp (List.mem_of_getElem? hf)
  have hx : ∃ f ∈ m.functions, f.name = x := ⟨f, hmem, of_decide_eq_true hname⟩
  have hmeans : m.Means x (some ((m.functions.filter (·.name = x)).map m.functionSymbol)) :=
    .functions hnb hns hx (forall₂_declares_iff.mpr rfl)
  refine ⟨_, m.functionSymbol f, get?_of_means hmeans, ?_, declares_iff.mpr rfl,
    m.externalName_functionSymbol f⟩
  rw [List.getElem?_map, hf]
  rfl

end Merge

/-- A struct of the name of a function, a function of a built-in name, and two overloads. -/
def shadowing : Module NodeId where
  imports := []
  decls :=
    [.function ⟨"show", [⟨"n", .int⟩], none, []⟩,
     .function ⟨"Point", [⟨"x", .int⟩], none, []⟩,
     .struct ⟨"Point", [⟨"x", .int⟩]⟩,
     .function ⟨"printInt", [⟨"s", .string⟩], none, []⟩,
     .function ⟨"show", [], some .int, []⟩]

theorem shadowing_merges :
    shadowing.symbolTable.get? "Point" =
      some [⟨"Point_init", .constructor, [], some ⟨"Point", false⟩⟩] ∧
    shadowing.Means "printInt" (some [⟨"printInt", .builtin, [.int], none⟩]) ∧
    shadowing.symbolTable.isOverloaded "show" = true ∧
    ∃ symbols s, shadowing.symbolTable.get? "show" = some symbols ∧ symbols[1]? = some s ∧
      shadowing.Declares ⟨"show", [], some .int, []⟩ s ∧ s.externalName = "show__void" := by
  have hmerges := shadowing.symbolTable_merges
  have hbuiltin : ∀ x ∈ ["Point", "show"], ¬ IsBuiltin x := by
    simp only [IsBuiltin]
    decide +kernel
  have hstruct : shadowing.HasStruct "Point" := by
    simp only [HasStruct]
    decide +kernel
  have hshow : ¬ shadowing.HasStruct "show" := by
    simp only [HasStruct]
    decide +kernel
  refine ⟨(hmerges.1 _ _).mpr (.constructor (hbuiltin _ (by decide)) hstruct),
    (hmerges.1 _ _).mp (by decide +kernel), (hmerges.2.1 _).mpr (by decide +kernel), ?_⟩
  exact hmerges.2.2.2 "show" 1 ⟨"show", [], some .int, []⟩ rfl
    (hbuiltin _ (by decide)) hshow

end Module
end Mis
