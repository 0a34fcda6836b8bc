import Mis.Proofs.Numbering
import Mis.Proofs.StructOrder
import Mis.Proofs.Typings

/-!
Type names of generated programs. Variables get their types from literals,
parameters, constants and calls, so they have known types where the types that
the module writes down are known. Nothing checks those: the result of a call is
looked up only where its type is asked for. The types of a program are known
exactly where the declarations it comes from name known types.
-/
namespace Mis

/-- Every variable in sight has a known type. -/
def SymbolTable.Knows (t : SymbolTable) (σ : Scope) : Prop :=
  ∀ x T, σ x = some T → t.isKnownType T = true

namespace SymbolTable.Knows

variable {t : SymbolTable} {σ τ : Scope}

theorem empty : t.Knows Scope.empty :=
  fun _ _ h => by cases h

theorem insert (h : t.Knows σ) {x : String} {T : Ty} (hT : t.isKnownType T = true) :
    t.Knows (σ.insert x T) := by
  intro y U hU
  rw [Scope.insert] at hU
  split at hU
  · cases hU
    exact hT
  · exact h y U hU

theorem insertAll (h : t.Knows σ) {xs : List TypedName}
    (hxs : ∀ x ∈ xs, t.isKnownType x.type = true) : t.Knows (σ.insertAll xs) := by
  induction xs generalizing σ with
  | nil => exact h
  | cons x xs ih =>
      rw [List.forall_mem_cons] at hxs
      exact ih (h.insert hxs.1) hxs.2

theorem orElse (h : t.Knows σ) (h' : t.Knows τ) : t.Knows (σ.orElse τ) := by
  intro x T hT
  rw [Scope.orElse, Option.or_eq_some_iff] at hT
  cases hT with
  | inl hT => exact h x T hT
  | inr hT => exact h' x T hT.2

end SymbolTable.Knows

section Module

variable {m : Module NodeId}

/-- The types that the declarations behind a program name: those of fields, of constants, and of
parameters and results. -/
def Module.declaredTypes (m : Module NodeId) : List Ty :=
  m.structs.flatMap (·.fields.map (·.type)) ++ m.constants.map (·.type) ++
    m.generatedFunctions.flatMap fun f => f.paramTypes ++ f.result.toList

/-- All types that declarations name are known. -/
def Module.TypesKnown (m : Module NodeId) : Prop :=
  ∀ T ∈ m.declaredTypes, m.symbolTable.isKnownType T = true

theorem Module.isKnownType_iff {T : Ty} :
    m.symbolTable.isKnownType T = true ↔
      T.name = Ty.int.name ∨ T.name = Ty.string.name ∨ T.name ∈ m.structs.map (·.name) := by
  simp [SymbolTable.isKnownType, Module.symbolTable]

theorem Module.isKnownType_literal (v : Literal) : m.symbolTable.isKnownType v.type = true := by
  rw [Module.isKnownType_iff]
  cases v with
  | int n => exact .inl rfl
  | text s => exact .inr (.inl rfl)

/-- A value has the type of a literal, of a variable in sight, or of a call, which is checked. -/
theorem Module.isKnownType_valueType {σ : Scope} (hσ : m.symbolTable.Knows σ) {e : Expr NodeId}
    {T : Ty} (h : e.valueType m.symbolTable σ = .ok T) : m.symbolTable.isKnownType T = true := by
  rw [Expr.valueType] at h
  obtain ⟨r, hr, h⟩ := bind_eq_ok.mp h
  cases r with
  | none => cases h
  | some U =>
      cases h
      cases e with
      | literal i v =>
          cases hr
          exact Module.isKnownType_literal v
      | name i x =>
          rw [Expr.resultType] at hr
          cases hx : σ x with
          | none => simp [hx] at hr
          | some U =>
              simp only [hx, Except.ok.injEq, Option.some.injEq] at hr
              exact hr ▸ hσ x U hx
      | call i callee args =>
          rw [Expr.resultType] at hr
          obtain ⟨s, _, hr⟩ := bind_eq_ok.mp hr
          cases hresult : s.result with
          | none => simp [hresult] at hr
          | some U =>
              simp only [hresult] at hr
              split at hr
              · rename_i hknown
                cases hr
                exact hknown
              · cases hr

/-! Typing. -/

/-- What a run of typing knows has known types. -/
structure Typings.Known (t : SymbolTable) (a : Typings) : Prop where
  scope : t.Knows a.scope
  types : ∀ p ∈ a.types, t.isKnownType p.2 = true

theorem Typings.Known.record {a b : Typings} (h : a.Known m.symbolTable) {w : Write}
    (hw : a.record m.symbolTable w = .ok b) : b.Known m.symbolTable := by
  obtain ⟨T, hT, hscope, htypes⟩ := Typings.record_eq_ok hw
  have hknown := Module.isKnownType_valueType h.scope hT
  constructor
  · rw [hscope, Typings.scopeOf]
    split
    · exact h.scope.insert hknown
    · exact h.scope
  · rw [htypes]
    intro p hp
    cases List.mem_append.mp hp with
    | inl hp => exact h.types p hp
    | inr hp =>
        rw [List.mem_singleton.mp hp]
        exact hknown

theorem Typings.Known.foldlM {a b : Typings} (h : a.Known m.symbolTable) {ws : List Write}
    (hws : ws.foldlM (Typings.record m.symbolTable) a = .ok b) : b.Known m.symbolTable := by
  induction ws generalizing a with
  | nil =>
      cases hws
      exact h
  | cons w ws ih =>
      rw [List.foldlM_cons] at hws
      obtain ⟨c, hw, hws⟩ := bind_eq_ok.mp hws
      exact ih (h.record hw) hws

/-! Frames. -/

/-- What a frame holds has known types. -/
structure Frame.Known (t : SymbolTable) (frame : Frame) : Prop where
  globals : t.Knows frame.globals
  params : ∀ x ∈ frame.params, t.isKnownType x.type = true
  declared : ∀ x ∈ frame.declared, t.isKnownType x.type = true
  slots : ∀ s ∈ frame.slots, t.isKnownType s.type = true

namespace Frame.Known

variable {t : SymbolTable} {frame : Frame}

theorem scope (h : frame.Known t) : t.Knows frame.scope :=
  ((SymbolTable.Knows.empty.insertAll h.params).insertAll h.declared).orElse h.globals

theorem addSlot (h : frame.Known t) {slot : Slot} (hslot : t.isKnownType slot.type = true) :
    ∀ s ∈ frame.slots ++ [slot], t.isKnownType s.type = true := by
  intro s hs
  cases List.mem_append.mp hs with
  | inl hs => exact h.slots s hs
  | inr hs =>
      rw [List.mem_singleton.mp hs]
      exact hslot

theorem declare (h : frame.Known t) {x : String} {T : Ty} (hT : t.isKnownType T = true)
    {after : Frame} (hdeclare : frame.declare x T = .ok after) : after.Known t := by
  obtain ⟨_, ⟨_, rfl⟩ | ⟨_, rfl⟩⟩ := Frame.declare_eq_ok hdeclare
  · exact h
  · refine ⟨h.globals, h.params, ?_, h.slots⟩
    intro y hy
    cases List.mem_append.mp hy with
    | inl hy => exact h.declared y hy
    | inr hy =>
        rw [List.mem_singleton.mp hy]
        exact hT

theorem locals (h : frame.Known t) {x : TypedName} (hx : x ∈ frame.locals) :
    t.isKnownType x.type = true := by
  rw [Frame.locals, List.mem_append, List.mem_map, List.mem_map] at hx
  cases hx with
  | inl hx =>
      obtain ⟨y, hy, rfl⟩ := hx
      exact h.declared y hy
  | inr hx =>
      obtain ⟨slot, hslot, rfl⟩ := hx
      exact h.slots slot (frame.mem_slots_iff.mpr (List.mem_append.mp hslot))

end Frame.Known

theorem Module.TypesKnown.field (h : m.TypesKnown) {s : StructDecl} (hs : s ∈ m.structs)
    {x : TypedName} (hx : x ∈ s.fields) : m.symbolTable.isKnownType x.type = true := by
  apply h
  refine List.mem_append_left _ (List.mem_append_left _ (List.mem_flatMap.mpr ⟨s, hs, ?_⟩))
  exact List.mem_map_of_mem hx

theorem Module.TypesKnown.constant (h : m.TypesKnown) {c : ConstantDecl NodeId}
    (hc : c ∈ m.constants) : m.symbolTable.isKnownType c.type = true := by
  apply h
  exact List.mem_append_left _ (List.mem_append_right _ (List.mem_map_of_mem hc))

theorem Module.TypesKnown.function (h : m.TypesKnown) {f : FunctionDecl NodeId}
    (hf : f ∈ m.generatedFunctions) {T : Ty} (hT : T ∈ f.paramTypes ++ f.result.toList) :
    m.symbolTable.isKnownType T = true :=
  h T (List.mem_append_right _ (List.mem_flatMap.mpr ⟨f, hf, hT⟩))

/-- A call of a function with a known result type has a known type. -/
theorem Module.TypesKnown.result (h : m.TypesKnown) {σ : Scope} {callee : Expr NodeId}
    {args : List (Expr NodeId)} {s : Symbol}
    (hs : calledSymbol m.symbolTable σ callee args = .ok s) {T : Ty} (hT : s.result = some T) :
    m.symbolTable.isKnownType T = true := by
  obtain ⟨f, hf, rfl⟩ | ⟨d, hd, rfl⟩ | hb := Module.source_of_calledSymbol hs
  · exact h.function hf (List.mem_append_right _ (Option.mem_toList.mpr hT))
  · cases hT
    exact Module.isKnownType_iff.mpr (.inr (.inr (List.mem_map_of_mem hd)))
  · have hint : ∀ b ∈ builtins, b.result = none ∨ b.result = some .int := by decide
    cases hint s hb with
    | inl hnone =>
        rw [hnone] at hT
        cases hT
    | inr hsome =>
        rw [hsome] at hT
        cases hT
        exact Module.isKnownType_iff.mpr (.inl rfl)

theorem Frame.Known.meet (hknown : m.TypesKnown) {types : Table NodeId Ty} {frame after : Frame}
    (h : frame.Known m.symbolTable) {d : Demand}
    (hrecorded : ∀ id x init, d = .declare id x init →
      ∃ T, types.get? id = some T ∧ m.symbolTable.isKnownType T = true)
    (hmeet : frame.meet m.symbolTable types d = .ok after) : after.Known m.symbolTable := by
  cases d with
  | declare id x init =>
      obtain ⟨T, hT, hdeclare⟩ := Frame.meet_declare_eq_ok hmeet
      obtain ⟨U, hU, hknownU⟩ := hrecorded id x init rfl
      rw [declaredType_of_get? hU] at hT
      cases hT
      exact h.declare hknownU hdeclare
  | ownSlot id x =>
      rw [Frame.meet] at hmeet
      cases hx : frame.scope x with
      | none => simp [hx] at hmeet
      | some T =>
          simp only [hx, Except.ok.injEq] at hmeet
          subst hmeet
          exact ⟨h.globals, h.params, h.declared, h.addSlot (h.scope x T hx)⟩
  | visible x =>
      rw [Frame.meet] at hmeet
      cases hx : frame.scope x with
      | none => simp [hx] at hmeet
      | some T =>
          simp only [hx, Except.ok.injEq] at hmeet
          exact hmeet ▸ h
  | constant id v =>
      cases hmeet
      exact ⟨h.globals, h.params, h.declared, h.addSlot (Module.isKnownType_literal v)⟩
  | call id callee args =>
      obtain ⟨s, hs, hmeet⟩ := bind_eq_ok.mp hmeet
      cases hmeet
      cases hresult : s.result with
      | none => exact ⟨h.globals, h.params, h.declared, h.slots⟩
      | some T =>
          have hT := hknown.result (mapError_eq_ok.mp hs) hresult
          exact ⟨h.globals, h.params, h.declared, h.addSlot hT⟩

theorem Frame.Known.foldlM (hknown : m.TypesKnown) {types : Table NodeId Ty}
    {frame after : Frame} (h : frame.Known m.symbolTable) {ds : List Demand}
    (hrecorded : ∀ id x init, .declare id x init ∈ ds →
      ∃ T, types.get? id = some T ∧ m.symbolTable.isKnownType T = true)
    (hmeet : ds.foldlM (Frame.meet m.symbolTable types) frame = .ok after) :
    after.Known m.symbolTable := by
  induction ds generalizing frame with
  | nil =>
      cases hmeet
      exact h
  | cons d ds ih =>
      rw [List.foldlM_cons] at hmeet
      obtain ⟨middle, hd, hds⟩ := bind_eq_ok.mp hmeet
      have hmiddle := h.meet hknown
        (fun id x init heq => hrecorded id x init (heq ▸ List.mem_cons_self)) hd
      exact ih hmiddle (fun id x init hmem => hrecorded id x init (List.mem_cons_of_mem _ hmem)) hds

theorem Module.TypesKnown.constantScope (h : m.TypesKnown) :
    m.symbolTable.Knows m.constantScope := by
  apply SymbolTable.Knows.empty.insertAll
  intro x hx
  obtain ⟨c, hc, rfl⟩ := List.mem_map.mp hx
  exact h.constant hc

theorem Module.TypesKnown.params (h : m.TypesKnown) {f : FunctionDecl NodeId}
    (hf : f ∈ m.generatedFunctions) {x : TypedName} (hx : x ∈ f.params) :
    m.symbolTable.isKnownType x.type = true :=
  h.function hf (List.mem_append_left _ (List.mem_map_of_mem hx))

/-- With distinct labels the frame of a function takes the types that its own body was given. -/
theorem Module.TypesKnown.frame (h : m.TypesKnown) (hids : m.ids.Nodup) {typed : TypedModule}
    (htyped : m.typed m.symbolTable = .ok typed) {f : FunctionDecl NodeId}
    (hf : f ∈ m.generatedFunctions) {frame : Frame}
    (hframe : f.frame m.symbolTable typed.types m.constantScope = .ok frame) :
    frame.Known m.symbolTable := by
  obtain ⟨b, hb, hrecorded⟩ :=
    Module.recorded_of_typed hids htyped (Module.mem_generatedFunctions.mp hf).1
  have hstart : (f.typingsStart m.constantScope).Known m.symbolTable :=
    ⟨h.constantScope.insertAll fun _ => h.params hf, List.forall_mem_nil _⟩
  have hknown := hstart.foldlM hb
  obtain ⟨entered, henter, hmeet⟩ := bind_eq_ok.mp hframe
  obtain ⟨rfl, _⟩ := Frame.enter_eq_ok henter
  have hentered : (Frame.start m.constantScope f).Known m.symbolTable :=
    { globals := h.constantScope
      params := fun _ => h.params hf
      declared := List.forall_mem_nil _
      slots := List.forall_mem_nil _ }
  refine hentered.foldlM h ?_ hmeet
  intro id x init hmem
  obtain ⟨more, hmore, hids⟩ := Typings.types_of_foldlM hb
  have hid : id ∈ more.map (·.1) := by
    rw [hids]
    exact List.mem_map_of_mem (Stmt.write_of_declare_memAll f.body hmem)
  obtain ⟨p, hp, rfl⟩ := List.mem_map.mp hid
  have hp : p ∈ b.types := hmore ▸ List.mem_append_right _ hp
  exact ⟨p.2, hrecorded p hp, hknown.types p hp⟩

end Module

/-! Programs. -/

/-- The types that a program mentions. -/
def C.Program.types (p : C.Program) : List Ty :=
  p.structs.flatMap (·.fields.map (·.type)) ++ p.globals.map (·.type) ++
    p.prototypes.flatMap (·.params.map (·.type)) ++
    p.functions.flatMap (fun f => f.prototype.params.map (·.type) ++ f.locals.map (·.type)) ++
    p.entry.result.toList

/-- Every type is a built-in one or a struct of the program, or a pointer to one. -/
def C.Program.TypesClosed (p : C.Program) : Prop :=
  ∀ T ∈ p.types, T.name = Ty.int.name ∨ T.name = Ty.string.name ∨ T.name ∈ p.structs.map (·.name)

section Program

variable {m : Module NodeId} {program : C.Program}

theorem Module.mem_structs_of_compile (h : m.compile = .ok program) {d : C.Struct} :
    d ∈ program.structs ↔ ∃ s ∈ m.structs, s.definition = d := by
  obtain ⟨typed, htyped, hgenerate⟩ := Module.compile_eq_ok.mp h
  rw [TypedModule.generate_eq_ok, Module.tree_of_typed htyped] at hgenerate
  rw [(C.perm_of_definitionOrder hgenerate.2.2.2.1).mem_iff, List.mem_map]

theorem Module.typesClosed_iff (h : m.compile = .ok program) :
    program.TypesClosed ↔ ∀ T ∈ program.types, m.symbolTable.isKnownType T = true := by
  have hnames (x : String) : x ∈ program.structs.map (·.name) ↔ x ∈ m.structs.map (·.name) := by
    simp only [List.mem_map, Module.mem_structs_of_compile h]
    constructor
    · intro hx
      obtain ⟨d, ⟨s, hs, rfl⟩, rfl⟩ := hx
      exact ⟨s, hs, rfl⟩
    · intro hx
      obtain ⟨s, hs, rfl⟩ := hx
      exact ⟨_, ⟨s, hs, rfl⟩, rfl⟩
  simp only [C.Program.TypesClosed, hnames, Module.isKnownType_iff]

theorem C.Program.mem_types {p : C.Program} {T : Ty} :
    T ∈ p.types ↔ (∃ d ∈ p.structs, ∃ x ∈ d.fields, x.type = T) ∨
      (∃ g ∈ p.globals, g.type = T) ∨
      (∃ q ∈ p.prototypes, ∃ x ∈ q.params, x.type = T) ∨
      (∃ f ∈ p.functions, (∃ x ∈ f.prototype.params, x.type = T) ∨ ∃ x ∈ f.locals, x.type = T) ∨
      p.entry.result = some T := by
  simp only [C.Program.types, List.mem_append, List.mem_flatMap, List.mem_map, Option.mem_toList,
    or_assoc]

theorem ConstantDecl.generate_type {c : ConstantDecl NodeId} {g : C.Global}
    (h : c.generate = .ok g) : g.type = c.type := by
  rw [ConstantDecl.generate] at h
  split at h
  · cases h
    rfl
  · cases h

theorem FunctionDecl.mem_prototype_types {t : SymbolTable} {f : FunctionDecl NodeId} {T : Ty} :
    (∃ x ∈ (f.prototype t).params, x.type = T) ↔
      ∃ U ∈ f.paramTypes ++ f.result.toList, U.pointer = T := by
  simp only [FunctionDecl.prototype, C.Prototype.make, FunctionDecl.paramTypes, List.mem_append,
    or_and_right, exists_or, List.mem_map, exists_exists_and_eq_and]
  rw [or_comm]
  cases f.result <;> simp

theorem Module.typesKnown_of_typesClosed (h : m.compile = .ok program)
    (hclosed : program.TypesClosed) : m.TypesKnown := by
  rw [Module.typesClosed_iff h] at hclosed
  obtain ⟨typed, htyped, hgenerate⟩ := Module.compile_eq_ok.mp h
  have hgen := Module.generates_of_generate htyped hgenerate
  intro T hT
  simp only [Module.declaredTypes, List.mem_append, List.mem_flatMap, List.mem_map, or_assoc] at hT
  obtain ⟨s, hs, x, hx, rfl⟩ | ⟨c, hc, rfl⟩ | ⟨f, hf, hT⟩ := hT
  · apply hclosed
    rw [C.Program.mem_types]
    exact .inl ⟨s.definition, (Module.mem_structs_of_compile h).mpr ⟨s, hs, rfl⟩, x, hx, rfl⟩
  · obtain ⟨g, hg, hcg⟩ := exists_of_forall₂_left hgen.globals hc
    apply hclosed
    rw [C.Program.mem_types]
    exact .inr (.inl ⟨g, hg, ConstantDecl.generate_type hcg⟩)
  · obtain ⟨hf, hhidden⟩ := Module.mem_generatedFunctions.mp hf
    obtain ⟨_, g, hg, hfg⟩ := hgen.function_mem f hf hhidden
    obtain ⟨frame, body, _, _, rfl⟩ := FunctionDecl.generate_eq_ok hfg
    have hpointer : m.symbolTable.isKnownType T.pointer = true := by
      apply hclosed
      rw [C.Program.mem_types]
      refine .inr (.inr (.inr (.inl ⟨_, hg, .inl ?_⟩)))
      exact FunctionDecl.mem_prototype_types.mpr ⟨T, List.mem_append.mpr hT, rfl⟩
    exact hpointer

theorem Module.typesClosed_of_typesKnown (hids : m.ids.Nodup) (h : m.compile = .ok program)
    (hknown : m.TypesKnown) : program.TypesClosed := by
  rw [Module.typesClosed_iff h]
  obtain ⟨typed, htyped, hgenerate⟩ := Module.compile_eq_ok.mp h
  have hgen := Module.generates_of_generate htyped hgenerate
  have hfunction : ∀ g ∈ program.functions, ∀ T,
      ((∃ x ∈ g.prototype.params, x.type = T) ∨ ∃ x ∈ g.locals, x.type = T) →
        m.symbolTable.isKnownType T = true := by
    intro g hg T hT
    obtain ⟨s, hs, rfl⟩ | ⟨f, hf, hhidden, hfg⟩ := hgen.source g hg
    · have hstruct : m.symbolTable.isKnownType ⟨s.name, true⟩ = true :=
        Module.isKnownType_iff.mpr (.inr (.inr (List.mem_map_of_mem hs)))
      obtain ⟨x, hx, rfl⟩ | ⟨x, hx, rfl⟩ := hT
      · rw [List.mem_singleton.mp hx]
        exact hstruct
      · cases hx
    · have hf := Module.mem_generatedFunctions.mpr ⟨hf, hhidden⟩
      obtain ⟨frame, body, hframe, _, rfl⟩ := FunctionDecl.generate_eq_ok hfg
      obtain hT | ⟨x, hx, rfl⟩ := hT
      · obtain ⟨U, hU, rfl⟩ := FunctionDecl.mem_prototype_types.mp hT
        have hknownU : m.symbolTable.isKnownType U = true := hknown.function hf hU
        exact hknownU
      · exact (hknown.frame hids htyped hf hframe).locals hx
  intro T hT
  obtain ⟨d, hd, x, hx, rfl⟩ | ⟨g, hg, rfl⟩ | ⟨q, hq, hT⟩ | ⟨g, hg, hT⟩ | hT :=
    C.Program.mem_types.mp hT
  · obtain ⟨s, hs, rfl⟩ := (Module.mem_structs_of_compile h).mp hd
    exact hknown.field hs hx
  · obtain ⟨c, hc, hcg⟩ := exists_of_forall₂_right hgen.globals hg
    rw [ConstantDecl.generate_type hcg]
    exact hknown.constant hc
  · rw [hgen.prototypes_eq] at hq
    obtain ⟨g, hg, rfl⟩ := List.mem_map.mp hq
    exact hfunction g hg T (.inl hT)
  · exact hfunction g hg T hT
  · obtain ⟨f, hf, hentry⟩ := Module.exists_entry hgen.entry_eq
    rw [hentry] at hT
    exact hknown.function hf (List.mem_append_right _ (Option.mem_toList.mpr hT))

end Program

/-- The types of a program are known exactly where all types that its declarations name are. -/
theorem typesClosed_iff_of_compile {source text : String} (h : compile source = .ok text) :
    ∃ m program, read source = .ok m ∧ m.compile = .ok program ∧ text = program.render ∧
      (program.TypesClosed ↔ m.TypesKnown) := by
  obtain ⟨m, hread, h⟩ := bind_eq_ok.mp h
  obtain ⟨program, hcompile, h⟩ := bind_eq_ok.mp h
  cases h
  refine ⟨m, program, hread, hcompile, rfl, Module.typesKnown_of_typesClosed hcompile, ?_⟩
  exact Module.typesClosed_of_typesKnown (nodup_ids_of_read hread) hcompile

def placing : String :=
  "struct Point { x: Int }\nfunc at(p: Point) -> Point { q := p return q }\n" ++
    "func start() { at(Point()) }"

theorem placing_typesClosed :
    ∃ m program, read placing = .ok m ∧ m.compile = .ok program ∧ program.TypesClosed := by
  obtain ⟨text, hcompile⟩ := exists_eq_ok (x := compile placing) (by decide +kernel)
  obtain ⟨m, hread, hknown⟩ := exists_eq_ok_of_any (x := read placing)
    (p := fun m => m.declaredTypes.all (m.symbolTable.isKnownType ·)) (by decide +kernel)
  obtain ⟨m', program, hread', hprogram, _, hiff⟩ := typesClosed_iff_of_compile hcompile
  rw [hread] at hread'
  cases hread'
  exact ⟨m, program, hread, hprogram, hiff.mpr (List.all_eq_true.mp hknown)⟩

/-- No struct of the type of the parameter is there. -/
def undeclaredStruct : String :=
  "func f(a: Foo) {}\nfunc start() {}"

theorem undeclaredStruct_not_typesClosed :
    ∃ text m program, compile undeclaredStruct = .ok text ∧ read undeclaredStruct = .ok m ∧
      m.compile = .ok program ∧ text = program.render ∧ ¬ program.TypesClosed := by
  obtain ⟨m, hread, hm⟩ := exists_eq_ok_of_any (x := read undeclaredStruct)
    (p := fun m => m.compile.toOption.any fun p =>
      (⟨"Foo", true⟩ : Ty) ∈ p.types ∧ "Foo" ∉ p.structs.map (·.name)) (by decide +kernel)
  obtain ⟨program, hprogram, hfoo⟩ := exists_eq_ok_of_any hm
  obtain ⟨htype, hnone⟩ := of_decide_eq_true hfoo
  have hcompile : compile undeclaredStruct = .ok program.render :=
    bind_eq_ok.mpr ⟨m, hread, bind_eq_ok.mpr ⟨program, hprogram, rfl⟩⟩
  refine ⟨program.render, m, program, hcompile, hread, hprogram, rfl, ?_⟩
  intro hclosed
  obtain hint | hstring | hstruct := hclosed _ htype
  · exact absurd hint (by decide)
  · exact absurd hstring (by decide)
  · exact hnone hstruct

end Mis
