import Mathlib.Data.List.Chain
import Mis.Proofs.Program

/-!
External names. Functions and constructors of a program share one space of names,
and a name that spells out the parameter types of an overload may already be
taken: by a function of that very name, by another overload whose type names have
underscores, or by a constructor. Where underscores stay out of type names and do
not double in the names of functions, every declaration has a name of its own.
-/
namespace Mis

/-! Underscores. -/

/-- No two underscores stand side by side. -/
def NoDouble (cs : List Char) : Prop :=
  cs.IsChain fun c d => c ≠ '_' ∨ d ≠ '_'

instance : DecidablePred NoDouble := fun cs =>
  inferInstanceAs (Decidable (cs.IsChain fun c d => c ≠ '_' ∨ d ≠ '_'))

theorem not_noDouble (cs ds : List Char) : ¬ NoDouble (cs ++ '_' :: '_' :: ds) := by
  intro h
  have hright := (List.isChain_append.mp h).2.1
  rw [List.isChain_cons_cons] at hright
  simp at hright

theorem noDouble_of_not_mem {cs : List Char} (h : '_' ∉ cs) : NoDouble cs := by
  apply List.Pairwise.isChain
  apply List.pairwise_of_forall_mem_list
  intro c hc _ _
  left
  intro heq
  exact h (heq ▸ hc)

theorem noDouble_append {cs ds : List Char} (hcs : '_' ∉ cs) (hds : NoDouble ds)
    (hhead : ds.head? ≠ some '_') : NoDouble (cs ++ '_' :: ds) := by
  refine List.isChain_append.mpr ⟨noDouble_of_not_mem hcs, List.isChain_cons.mpr ⟨?_, hds⟩, ?_⟩
  · intro d hd
    right
    intro heq
    rw [heq] at hd
    exact hhead hd
  · intro c hc _ _
    left
    intro heq
    exact hcs (heq ▸ List.mem_of_getLast? hc)

/-- Where the rest starts with no underscore and has no two side by side, the last two
underscores that do are the ones before it. -/
theorem doubled_inj {cs ds js ks : List Char} (hjs : NoDouble js) (hks : NoDouble ks)
    (hjhead : js.head? ≠ some '_') (hkhead : ks.head? ≠ some '_')
    (h : cs ++ '_' :: '_' :: js = ds ++ '_' :: '_' :: ks) : cs = ds ∧ js = ks := by
  have hshift {js ks es : List Char} (hjs : NoDouble js) (hjhead : js.head? ≠ some '_')
      (h : '_' :: '_' :: js = es ++ '_' :: '_' :: ks) : es = [] := by
    cases es with
    | nil => rfl
    | cons e es =>
        injection h with _ h
        cases es with
        | nil =>
            injection h with _ h
            rw [h] at hjhead
            exact absurd rfl hjhead
        | cons e' es =>
            injection h with _ h
            rw [h] at hjs
            exact absurd hjs (not_noDouble es ks)
  obtain ⟨es, rfl, hes⟩ | ⟨es, rfl, hes⟩ := List.append_eq_append_iff.mp h
  · obtain rfl := hshift hjs hjhead hes
    simpa using hes
  · obtain rfl := hshift hks hkhead hes
    simpa [eq_comm] using hes

/-! Overloads. -/

/-- The words for the parameter types in the external name of an overload. -/
def typeWords : List Ty → List String
  | [] => ["void"]
  | ts => ts.map (·.name)

theorem toList_mangle (x : String) (ts : List Ty) :
    (mangle x ts).toList =
      x.toList ++ '_' :: '_' :: ['_'].intercalate ((typeWords ts).map String.toList) := by
  cases ts <;> simp [mangle, typeWords]

/-- A type whose name cannot be taken for a part of another name. -/
def Ty.isPlain (t : Ty) : Bool :=
  !t.isPointer && t.name ≠ "" && t.name ≠ "void" && !t.name.toList.contains '_'

theorem Ty.isPlain_iff {t : Ty} :
    t.isPlain = true ↔
      t.isPointer = false ∧ t.name ≠ "" ∧ t.name ≠ "void" ∧ '_' ∉ t.name.toList := by
  simp [isPlain, and_assoc]

theorem noDouble_intercalate {ls : List (List Char)} (h : ∀ l ∈ ls, l ≠ [] ∧ '_' ∉ l) :
    NoDouble (['_'].intercalate ls) ∧ (['_'].intercalate ls).head? ≠ some '_' := by
  induction ls with
  | nil => exact ⟨.nil, nofun⟩
  | cons l ls ih =>
      rw [List.forall_mem_cons] at h
      obtain ⟨⟨hne, hnot⟩, hls⟩ := h
      obtain ⟨c, cs, rfl⟩ := List.exists_cons_of_ne_nil hne
      have hhead : c ≠ '_' := by
        intro heq
        exact hnot (heq ▸ List.mem_cons_self)
      cases ls with
      | nil =>
          rw [List.intercalate_singleton]
          exact ⟨noDouble_of_not_mem hnot, by simpa using hhead⟩
      | cons l' ls =>
          rw [List.intercalate_cons_cons, List.append_assoc]
          exact ⟨noDouble_append hnot (ih hls).1 (ih hls).2, by simpa using hhead⟩

theorem plain_of_mem_typeWords {ts : List Ty} (h : ∀ t ∈ ts, t.isPlain = true) {l : List Char}
    (hl : l ∈ (typeWords ts).map String.toList) : l ≠ [] ∧ '_' ∉ l := by
  cases ts with
  | nil =>
      rw [typeWords, List.map_singleton, List.mem_singleton] at hl
      subst hl
      decide
  | cons t ts =>
      rw [typeWords, List.map_map, List.mem_map] at hl
      · obtain ⟨u, hu, rfl⟩ := hl
        obtain ⟨_, hne, _, hnot⟩ := Ty.isPlain_iff.mp (h u hu)
        exact ⟨by simpa using hne, hnot⟩
      · simp

theorem typeWords_inj {ts us : List Ty} (hts : ∀ t ∈ ts, t.isPlain = true)
    (hus : ∀ u ∈ us, u.isPlain = true) (h : typeWords ts = typeWords us) : ts = us := by
  have hvoid {t : Ty} (ht : t.isPlain = true) : t.name ≠ "void" := (Ty.isPlain_iff.mp ht).2.2.1
  have hnames {ts : List Ty} (hts : ∀ t ∈ ts, t.isPlain = true) :
      (ts.map (·.name)).map (⟨·, false⟩) = ts := by
    have hplain : ∀ t ∈ ts, (⟨t.name, false⟩ : Ty) = t := by
      intro t ht
      rw [← (Ty.isPlain_iff.mp (hts t ht)).1]
    rw [List.map_map]
    exact (List.map_congr_left hplain).trans (List.map_id' ts)
  cases ts with
  | nil =>
      cases us with
      | nil => rfl
      | cons u us =>
          injection h with hname _
          exact absurd hname.symm (hvoid (hus u List.mem_cons_self))
  | cons t ts =>
      cases us with
      | nil =>
          injection h with hname _
          exact absurd hname (hvoid (hts t List.mem_cons_self))
      | cons u us =>
          rw [← hnames hts, ← hnames hus]
          exact congrArg _ h

theorem mangle_inj {x y : String} {ts us : List Ty} (hts : ∀ t ∈ ts, t.isPlain = true)
    (hus : ∀ u ∈ us, u.isPlain = true) (h : mangle x ts = mangle y us) : x = y ∧ ts = us := by
  have hts' := noDouble_intercalate fun _ hl => plain_of_mem_typeWords hts hl
  have hus' := noDouble_intercalate fun _ hl => plain_of_mem_typeWords hus hl
  have hne (ts : List Ty) : (typeWords ts).map String.toList ≠ [] := by
    cases ts <;> simp [typeWords]
  have hchars := congrArg String.toList h
  rw [toList_mangle, toList_mangle] at hchars
  obtain ⟨hxy, hwords⟩ := doubled_inj hts'.1 hus'.1 hts'.2 hus'.2 hchars
  have hsplit := congrArg (List.splitOn '_') hwords
  rw [List.splitOn_intercalate '_' (fun l hl => (plain_of_mem_typeWords hts hl).2) (hne ts),
    List.splitOn_intercalate '_' (fun l hl => (plain_of_mem_typeWords hus hl).2) (hne us)] at hsplit
  have hinj := List.map_injective_iff.mpr (fun _ _ => String.toList_inj.mp) hsplit
  exact ⟨String.toList_inj.mp hxy, typeWords_inj hts hus hinj⟩

/-! Names of a program. -/

section Names

variable {ι : Type}

namespace Module

/-- Functions with the same external name have the same name and parameter types, and none has
the name of a constructor. -/
structure ClashFree (m : Module ι) : Prop where
  functions : ∀ f ∈ m.generatedFunctions, ∀ g ∈ m.generatedFunctions,
    m.symbolTable.externalName f = m.symbolTable.externalName g →
      f.name = g.name ∧ f.paramTypes = g.paramTypes
  constructors : ∀ f ∈ m.generatedFunctions, ∀ s ∈ m.structs,
    m.symbolTable.externalName f ≠ constructorName s.name

/-- Underscores stay out of the names of types, and those of functions cannot be taken for the
name of an overload or a constructor. -/
structure PlainNames (m : Module ι) : Prop where
  params : ∀ f ∈ m.functions, m.isOverloaded f.name = true → ∀ t ∈ f.paramTypes, t.isPlain = true
  functions : ∀ f ∈ m.functions, m.isOverloaded f.name = false →
    NoDouble f.name.toList ∧ ∀ s ∈ m.structs, f.name ≠ constructorName s.name
  structs : ∀ s ∈ m.structs, '_' ∉ s.name.toList

theorem externalName_eq (m : Module ι) (f : FunctionDecl ι) :
    m.symbolTable.externalName f =
      if m.isOverloaded f.name then mangle f.name f.paramTypes else f.name :=
  (m.externalName_functionSymbol f).symm

end Module

theorem constructorName_ne_mangle {x : String} (hx : '_' ∉ x.toList) (y : String)
    (ts : List Ty) : constructorName x ≠ mangle y ts := by
  intro heq
  have hcount := congrArg (List.count '_' ∘ String.toList) heq
  simp only [Function.comp_apply, constructorName, toList_mangle, String.toList_append,
    List.count_append, List.count_eq_zero_of_not_mem hx, List.count_cons_self] at hcount
  have hinit : List.count '_' "_init".toList = 1 := by decide
  omega

/-- Only overloads share their name. -/
theorem Module.eq_of_not_isOverloaded {m : Module ι} {f g : FunctionDecl ι}
    (hf : f ∈ m.functions) (hg : g ∈ m.functions) (hname : f.name = g.name)
    (h : m.isOverloaded f.name = false) : f = g := by
  have hmem : f ∈ m.functionsNamed f.name ∧ g ∈ m.functionsNamed f.name := by
    simp [Module.functionsNamed, hf, hg, hname]
  rw [Module.isOverloaded, decide_eq_false_iff_not] at h
  cases hnamed : m.functionsNamed f.name with
  | nil => simp [hnamed] at hmem
  | cons k ks =>
      have hks : ks = [] := by
        rw [← List.length_eq_zero_iff]
        rw [hnamed, List.length_cons] at h
        omega
      rw [hnamed, hks, List.mem_singleton, List.mem_singleton] at hmem
      rw [hmem.1, hmem.2]

theorem Module.PlainNames.clashFree {m : Module ι} (h : m.PlainNames) : m.ClashFree := by
  have hmangled {f g : FunctionDecl ι} (hg : g ∈ m.functions)
      (hplain : m.isOverloaded g.name = false) : mangle f.name f.paramTypes ≠ g.name := by
    intro heq
    have hdouble := (h.functions g hg hplain).1
    rw [← heq, toList_mangle] at hdouble
    exact not_noDouble _ _ hdouble
  constructor
  · intro f hf g hg heq
    have hf := (Module.mem_generatedFunctions.mp hf).1
    have hg := (Module.mem_generatedFunctions.mp hg).1
    rw [m.externalName_eq f, m.externalName_eq g] at heq
    cases hfover : m.isOverloaded f.name with
    | true =>
        cases hgover : m.isOverloaded g.name with
        | true =>
            rw [hfover, hgover, if_pos rfl, if_pos rfl] at heq
            exact mangle_inj (h.params f hf hfover) (h.params g hg hgover) heq
        | false =>
            rw [hfover, hgover, if_pos rfl, if_neg Bool.false_ne_true] at heq
            exact absurd heq (hmangled hg hgover)
    | false =>
        cases hgover : m.isOverloaded g.name with
        | true =>
            rw [hfover, hgover, if_pos rfl, if_neg Bool.false_ne_true] at heq
            exact absurd heq.symm (hmangled hf hfover)
        | false =>
            rw [hfover, hgover, if_neg Bool.false_ne_true, if_neg Bool.false_ne_true] at heq
            rw [Module.eq_of_not_isOverloaded hf hg heq hfover]
            exact ⟨rfl, rfl⟩
  · intro f hf s hs heq
    have hf := (Module.mem_generatedFunctions.mp hf).1
    rw [m.externalName_eq f] at heq
    cases hover : m.isOverloaded f.name with
    | true =>
        rw [hover, if_pos rfl] at heq
        exact constructorName_ne_mangle (h.structs s hs) _ _ heq.symm
    | false =>
        rw [hover, if_neg Bool.false_ne_true] at heq
        exact (h.functions f hf hover).2 s hs heq

end Names

section Generated

variable {m : Module NodeId} {typed : TypedModule} {program : C.Program}

/-- The names of generated functions, those of constructors last. -/
theorem perm_names_of_generate {t : SymbolTable} {types : Table NodeId Ty} {globals : Scope}
    {decls : List (Decl NodeId)} {generated : List (Option C.Function)}
    (h : List.Forall₂ (fun d r => Decl.generate t types globals d = .ok r) decls generated) :
    (generated.reduceOption.map (·.prototype.name)).Perm
      ((((⟨[], decls⟩ : Module NodeId).functions.filter fun f => !t.hidesFunction f).map
          t.externalName) ++
        (⟨[], decls⟩ : Module NodeId).structs.map (constructorName ·.name)) := by
  induction h with
  | nil => exact .nil
  | @cons d r decls generated hd _ ih =>
      cases d with
      | function f =>
          have hfunctions : (⟨[], .function f :: decls⟩ : Module NodeId).functions =
              f :: (⟨[], decls⟩ : Module NodeId).functions := rfl
          have hstructs : (⟨[], .function f :: decls⟩ : Module NodeId).structs =
              (⟨[], decls⟩ : Module NodeId).structs := rfl
          rw [hfunctions, hstructs, List.filter_cons]
          obtain ⟨hhidden, rfl⟩ | ⟨hhidden, _, g, rfl, hg⟩ := Decl.generate_function hd
          · rw [hhidden]
            exact ih
          · obtain ⟨frame, body, _, _, rfl⟩ := FunctionDecl.generate_eq_ok hg
            rw [hhidden]
            exact ih.cons _
      | struct s =>
          cases hd
          exact (ih.cons _).trans List.perm_middle.symm
      | constant c =>
          cases hd
          exact ih

theorem Module.perm_names (h : m.compile = .ok program) :
    (program.functions.map (·.prototype.name)).Perm
      (m.generatedFunctions.map m.symbolTable.externalName ++
        m.structs.map (constructorName ·.name)) := by
  obtain ⟨typed, htyped, hgenerate⟩ := Module.compile_eq_ok.mp h
  have htree := Module.tree_of_typed htyped
  rw [TypedModule.generate_eq_ok, htree] at hgenerate
  obtain ⟨_, ⟨generated, hgenerated, hfunctions⟩, _⟩ := hgenerate
  rw [hfunctions]
  exact perm_names_of_generate (mapM_eq_ok.mp hgenerated)

theorem Module.nodup_names_iff (h : m.compile = .ok program)
    (hfunctions : (m.functions.map fun f => (f.name, f.paramTypes)).Nodup)
    (hstructs : (m.structs.map (·.name)).Nodup) :
    (program.functions.map (·.prototype.name)).Nodup ↔ m.ClashFree := by
  have hgenerated : (m.generatedFunctions.map fun f => (f.name, f.paramTypes)).Nodup :=
    (List.filter_sublist.map _).nodup hfunctions
  have hconstructors : (m.structs.map (constructorName ·.name)).Nodup := by
    have hinjective : Function.Injective constructorName :=
      fun _ _ heq => (String.append_left_inj "_init").mp heq
    have hmapped := hstructs.map hinjective
    rwa [List.map_map] at hmapped
  rw [(Module.perm_names h).nodup_iff, List.nodup_append]
  constructor
  · intro ⟨hnames, _, hdisjoint⟩
    constructor
    · intro f hf g hg heq
      rw [List.inj_on_of_nodup_map hnames hf hg heq]
      exact ⟨rfl, rfl⟩
    · intro f hf s hs
      exact hdisjoint _ (List.mem_map_of_mem hf) _ (List.mem_map_of_mem hs)
  · intro hfree
    refine ⟨?_, hconstructors, ?_⟩
    · rw [List.Nodup, List.pairwise_map] at hgenerated ⊢
      refine hgenerated.imp_of_mem ?_
      intro f g hf hg hne heq
      obtain ⟨hname, hparams⟩ := hfree.functions f hf g hg heq
      exact hne (by rw [hname, hparams])
    · intro x hx y hy
      obtain ⟨f, hf, rfl⟩ := List.mem_map.mp hx
      obtain ⟨s, hs, rfl⟩ := List.mem_map.mp hy
      exact hfree.constructors f hf s hs

theorem filter_eq_singleton {α β : Type} [DecidableEq β] {f : α → β} {as : List α} {a : α}
    (h : (as.map f).Nodup) (ha : a ∈ as) : as.filter (f · = f a) = [a] := by
  induction as with
  | nil => cases ha
  | cons b as ih =>
      rw [List.map_cons, List.nodup_cons] at h
      cases ha with
      | head =>
          have hnone : as.filter (f · = f a) = [] := by
            rw [List.filter_eq_nil_iff]
            intro c hc heq
            exact h.1 (List.mem_map.mpr ⟨c, hc, of_decide_eq_true heq⟩)
          rw [List.filter_cons, if_pos (decide_eq_true rfl), hnone]
      | tail _ ha =>
          have hne : f b ≠ f a := by
            intro heq
            exact h.1 (heq ▸ List.mem_map_of_mem ha)
          rw [List.filter_cons, if_neg (by simpa using hne), ih h.2 ha]

/-- A call that is not of a built-in function goes to a generated function with the parameters
of the symbol it means. -/
theorem Module.exists_called (h : m.compile = .ok program) {σ : Scope} {callee : Expr NodeId}
    {args : List (Expr NodeId)} {s : Symbol}
    (hs : calledSymbol m.symbolTable σ callee args = .ok s) (hkind : s.kind ≠ .builtin) :
    ∃ g ∈ program.functions, g.prototype.name = Frame.calledName callee s ∧
      g.prototype.params.map (·.type) = (s.result.toList ++ s.params).map Ty.pointer := by
  obtain ⟨typed, htyped, hgenerate⟩ := Module.compile_eq_ok.mp h
  have hgen := Module.generates_of_generate htyped hgenerate
  rw [Module.calledName_eq (fun _ => hgen.not_startsCapital) hs]
  obtain ⟨f, hf, rfl⟩ | ⟨d, hd, rfl⟩ | hb := Module.source_of_calledSymbol hs
  · obtain ⟨hf, hshown⟩ := Module.mem_generatedFunctions.mp hf
    obtain ⟨_, g, hg, hfg⟩ := hgen.function_mem f hf hshown
    obtain ⟨frame, body, _, _, rfl⟩ := FunctionDecl.generate_eq_ok hfg
    refine ⟨_, hg, (m.externalName_functionSymbol _).symm, ?_⟩
    cases hresult : f.result <;>
      simp [FunctionDecl.prototype, C.Prototype.make, Module.functionSymbol,
        FunctionDecl.paramTypes, hresult]
  · exact ⟨_, hgen.constructor_mem d hd, rfl, rfl⟩
  · have hbuiltin : ∀ b ∈ builtins, b.kind = .builtin := by decide
    exact absurd (hbuiltin s hb) hkind

/-- The functions of a program have distinct names exactly where no declarations clash, as with
plain names. Then every declared function has one generated function, and every call goes to the
one for the symbol it means. -/
theorem Module.externalNames_unique (h : m.compile = .ok program)
    (hfunctions : (m.functions.map fun f => (f.name, f.paramTypes)).Nodup)
    (hstructs : (m.structs.map (·.name)).Nodup) :
    ((program.functions.map (·.prototype.name)).Nodup ↔ m.ClashFree) ∧
      (m.PlainNames → m.ClashFree) ∧
      (m.ClashFree →
        (∀ f ∈ m.generatedFunctions, ∃ g,
          program.functions.filter (·.prototype.name = m.symbolTable.externalName f) = [g] ∧
            g.prototype = f.prototype m.symbolTable) ∧
        ∀ σ callee args s, calledSymbol m.symbolTable σ callee args = .ok s →
          s.kind ≠ .builtin → ∃ g,
            program.functions.filter (·.prototype.name = Frame.calledName callee s) = [g] ∧
              g.prototype.params.map (·.type) = (s.result.toList ++ s.params).map Ty.pointer) := by
  have hiff := Module.nodup_names_iff h hfunctions hstructs
  refine ⟨hiff, Module.PlainNames.clashFree, ?_⟩
  intro hfree
  have hnames := hiff.mpr hfree
  have hsingle {g : C.Function} (hg : g ∈ program.functions) {x : String}
      (hx : g.prototype.name = x) : program.functions.filter (·.prototype.name = x) = [g] := by
    rw [← hx]
    exact filter_eq_singleton (f := fun g : C.Function => g.prototype.name) hnames hg
  constructor
  · intro f hf
    obtain ⟨typed, htyped, hgenerate⟩ := Module.compile_eq_ok.mp h
    have hgen := Module.generates_of_generate htyped hgenerate
    obtain ⟨hf, hhidden⟩ := Module.mem_generatedFunctions.mp hf
    obtain ⟨_, g, hg, hfg⟩ := hgen.function_mem f hf hhidden
    obtain ⟨frame, body, _, _, rfl⟩ := FunctionDecl.generate_eq_ok hfg
    exact ⟨_, hsingle hg rfl, rfl⟩
  · intro σ callee args s hs hkind
    obtain ⟨g, hg, hname, htypes⟩ := Module.exists_called h hs hkind
    exact ⟨g, hsingle hg hname, htypes⟩

end Generated

theorem counting_externalNames_unique :
    counting.PlainNames ∧ ∃ program, counting.compile = .ok program ∧
      (program.functions.map (·.prototype.name)).Nodup ∧
      ∀ f ∈ counting.generatedFunctions, ∃ g,
        program.functions.filter (·.prototype.name = counting.symbolTable.externalName f) = [g] ∧
          g.prototype = f.prototype counting.symbolTable := by
  have hplain : counting.PlainNames := ⟨by decide +kernel, by decide +kernel, by decide +kernel⟩
  obtain ⟨program, hcompile⟩ := counting_compiles
  obtain ⟨hiff, hfree, hunique⟩ :=
    Module.externalNames_unique hcompile (by decide +kernel) (by decide +kernel)
  exact ⟨hplain, program, hcompile, hiff.mpr (hfree hplain), (hunique (hfree hplain)).1⟩

/-- The external name of an overload is taken by another function. -/
def takenName : Module NodeId where
  imports := []
  decls :=
    [.function ⟨"f", [⟨"a", .int⟩], none, []⟩,
     .function ⟨"f", [⟨"a", .string⟩], none, []⟩,
     .function ⟨"f__Int", [⟨"a", .int⟩], none, []⟩,
     .function ⟨"start", [], none, []⟩]

theorem takenName_clashes :
    (takenName.functions.map fun f => (f.name, f.paramTypes)).Nodup ∧
      (takenName.structs.map (·.name)).Nodup ∧
      ∃ program, takenName.compile = .ok program ∧
        ¬ (program.functions.map (·.prototype.name)).Nodup := by
  refine ⟨by decide +kernel, by decide +kernel, ?_⟩
  obtain ⟨program, hcompile, hnames⟩ :=
    exists_eq_ok_of_any (x := takenName.compile)
      (p := fun program => ¬ (program.functions.map (·.prototype.name)).Nodup) (by decide +kernel)
  exact ⟨program, hcompile, of_decide_eq_true hnames⟩

end Mis
