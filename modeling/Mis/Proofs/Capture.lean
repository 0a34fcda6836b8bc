import Mis.Proofs.Program
import Mis.Proofs.Semantics

/-!
What a name of a body stands for. In source order it stands for a constant of the
module as long as no parameter has the name and no declaration before it. In C all
variables of a function are declared at its top, and slots and the result
parameter are names beside them, so the constant is captured if the name is
declared later, in the statement itself, or by the generated code.
-/
namespace Mis

/-- A place where a body reads or assigns a name, between the declarations before it and those
from it on. The value of a declaration stands before its variable. -/
structure Use where
  name : String
  before : List String
  after : List String
deriving DecidableEq

section Uses

variable {ι : Type}

def Expr.uses (before after : List String) (e : Expr ι) : List Use :=
  e.names.map fun x => ⟨x, before, after⟩

mutual

def Stmt.uses (before after : List String) : Stmt ι → List Use
  | .declare _ _ x e => e.uses before (x :: after)
  | .call _ e | .leave _ (some e) => e.uses before after
  | .assign _ x e => ⟨x, before, after⟩ :: e.uses before after
  | .branch _ c yes none =>
    c.uses before (Stmt.declaredAll yes ++ after) ++ Stmt.usesAll before after yes
  | .branch _ c yes (some no) =>
    c.uses before (Stmt.declaredAll yes ++ (Stmt.declaredAll no ++ after)) ++
      Stmt.usesAll before (Stmt.declaredAll no ++ after) yes ++
      Stmt.usesAll (before ++ Stmt.declaredAll yes) after no
  | .loop _ c body =>
    c.uses before (Stmt.declaredAll body ++ after) ++ Stmt.usesAll before after body
  | .leave _ none => []

def Stmt.usesAll (before after : List String) : List (Stmt ι) → List Use
  | [] => []
  | s :: ss =>
    Stmt.uses before (Stmt.declaredAll ss ++ after) s ++
      Stmt.usesAll (before ++ Stmt.declared s) after ss

end

/-- All uses of names in a function. -/
def FunctionDecl.uses (f : FunctionDecl ι) : List Use :=
  Stmt.usesAll [] [] f.body

/-- In source order the name stands for a constant of the module. -/
def Use.OfConstant (f : FunctionDecl ι) (u : Use) : Prop :=
  u.name ∉ f.params.map (·.name) ∧ u.name ∉ u.before

instance (f : FunctionDecl ι) (u : Use) : Decidable (u.OfConstant f) :=
  inferInstanceAs (Decidable (_ ∧ _))

/-- The use is among `names`, and the declarations around it are those of `all`. -/
def Use.Within (names all : List String) (u : Use) : Prop :=
  u.name ∈ names ∧ u.before ++ u.after = all

theorem Expr.within_uses {before after : List String} {e : Expr ι} {u : Use}
    (h : u ∈ e.uses before after) : u.Within e.names (before ++ after) := by
  obtain ⟨x, hx, rfl⟩ := List.mem_map.mp h
  exact ⟨hx, rfl⟩

theorem Use.Within.mono {names more all : List String} {u : Use} (h : u.Within names all)
    (hnames : ∀ x ∈ names, x ∈ more) : u.Within more all :=
  ⟨hnames _ h.1, h.2⟩

mutual

theorem Stmt.within_uses {u : Use} : ∀ (s : Stmt ι) (before after : List String),
    u ∈ s.uses before after → u.Within s.names (before ++ (s.declared ++ after))
  | .declare _ _ x e, before, after, h => Expr.within_uses h
  | .call _ e, before, after, h | .leave _ (some e), before, after, h => Expr.within_uses h
  | .assign _ x e, before, after, h => by
      obtain rfl | h := List.mem_cons.mp h
      · exact ⟨List.mem_cons_self, rfl⟩
      · exact (Expr.within_uses h).mono fun _ => List.mem_cons_of_mem _
  | .branch _ c yes none, before, after, h => by
      obtain h | h := List.mem_append.mp h
      · exact (Expr.within_uses h).mono fun _ => List.mem_append_left _
      · exact (Stmt.within_usesAll yes before after h).mono fun _ => List.mem_append_right _
  | .branch _ c yes (some no), before, after, h => by
      rw [Stmt.uses, List.mem_append, List.mem_append] at h
      rw [Stmt.declared, Stmt.names, List.append_assoc (Stmt.declaredAll yes)]
      obtain (h | h) | h := h
      · exact (Expr.within_uses h).mono fun _ hx =>
          List.mem_append_left _ (List.mem_append_left _ hx)
      · exact (Stmt.within_usesAll yes before _ h).mono fun _ hx =>
          List.mem_append_left _ (List.mem_append_right _ hx)
      · have hno := Stmt.within_usesAll no (before ++ Stmt.declaredAll yes) after h
        rw [List.append_assoc] at hno
        exact hno.mono fun _ hx => List.mem_append_right _ hx
  | .loop _ c body, before, after, h => by
      obtain h | h := List.mem_append.mp h
      · exact (Expr.within_uses h).mono fun _ => List.mem_append_left _
      · exact (Stmt.within_usesAll body before after h).mono fun _ => List.mem_append_right _
  | .leave _ none, _, _, h => by cases h

theorem Stmt.within_usesAll {u : Use} : ∀ (ss : List (Stmt ι)) (before after : List String),
    u ∈ Stmt.usesAll before after ss →
      u.Within (Stmt.namesAll ss) (before ++ (Stmt.declaredAll ss ++ after))
  | [], _, _, h => by cases h
  | s :: ss, before, after, h => by
      rw [Stmt.declaredAll, Stmt.namesAll, List.append_assoc]
      obtain h | h := List.mem_append.mp h
      · exact (Stmt.within_uses s before _ h).mono fun _ => List.mem_append_left _
      · have hss := Stmt.within_usesAll ss (before ++ s.declared) after h
        rw [List.append_assoc] at hss
        exact hss.mono fun _ => List.mem_append_right _

end

/-- Every use stands somewhere among the declarations of the body. -/
theorem FunctionDecl.within_uses {f : FunctionDecl ι} {u : Use} (h : u ∈ f.uses) :
    u.Within (Stmt.namesAll f.body) (Stmt.declaredAll f.body) := by
  have hbody := Stmt.within_usesAll f.body [] [] h
  rwa [List.nil_append, List.append_nil] at hbody

end Uses

/-! The names of slots, whatever the labels of the body are. -/

namespace Frame

/-- Temporaries and constants are named by counting. -/
structure Counted (t : SymbolTable) (vs : List Visit) (frame : Frame) : Prop where
  temps_eq : frame.temps.map (·.name) = (List.range (temporaries t vs).length).map tempName
  consts_eq : frame.consts.map (·.name) = (List.range (literals vs).length).map constName

namespace Counted

variable {t : SymbolTable} {vs : List Visit} {frame after : Frame} {v : Visit}

theorem length_temps (h : Counted t vs frame) : frame.temps.length = (temporaries t vs).length := by
  simpa using congrArg List.length h.temps_eq

theorem length_consts (h : Counted t vs frame) : frame.consts.length = (literals vs).length := by
  simpa using congrArg List.length h.consts_eq

theorem skip (h : Counted t vs frame) (hslots : after.slots = frame.slots)
    (htemp : v.temporary? t = none) (hliteral : v.site.literal? = none) :
    Counted t (vs ++ [v]) after := by
  constructor
  · rw [temporaries_concat_none htemp, ← h.temps_eq, temps, temps, hslots]
  · rw [literals_concat_none hliteral, ← h.consts_eq, consts, consts, hslots]

theorem addTemp {type type' : Ty} (h : Counted t vs frame)
    (hslots : after.slots = (frame.addTemp type).slots) (htemp : v.temporary? t = some type')
    (hliteral : v.site.literal? = none) : Counted t (vs ++ [v]) after := by
  constructor
  · have hafter : after.temps = frame.temps ++ [⟨frame.nextTemp, type, none⟩] := by
      rw [temps, hslots]
      exact temps_addTemp frame type
    rw [hafter, temporaries_concat, htemp, List.map_append, h.temps_eq, nextTemp, h.length_temps]
    simp [List.range_succ]
  · rw [literals_concat_none hliteral, ← h.consts_eq, consts, hslots]
    exact congrArg _ (consts_addTemp frame type)

theorem addConst {id : NodeId} {value : Literal} (h : Counted t vs frame)
    (hslots : after.slots = (frame.addConst value).slots) (htemp : v.temporary? t = none)
    (hliteral : v.site.literal? = some (id, value)) : Counted t (vs ++ [v]) after := by
  constructor
  · rw [temporaries_concat_none htemp, ← h.temps_eq, temps, hslots]
    exact congrArg _ (temps_addConst frame value)
  · have hafter : after.consts = frame.consts ++ [⟨frame.nextConst, value.type, some value⟩] := by
      rw [consts, hslots]
      exact consts_addConst frame value
    rw [hafter, literals_concat, hliteral, List.map_append, h.consts_eq, nextConst,
      h.length_consts]
    simp [List.range_succ]

theorem serve (h : Counted t vs frame) : Counted t (vs ++ [v]) (frame.serve t v) := by
  obtain ⟨σ, site⟩ := v
  cases site with
  | declare x type =>
      refine h.skip ?_ rfl rfl
      cases type with
      | none => rfl
      | some type =>
          simp only [Frame.serve]
          split <;> rfl
  | literal id value => exact h.addConst rfl rfl rfl
  | own id type =>
      cases type with
      | none => exact h.skip rfl rfl rfl
      | some type => exact h.addTemp rfl rfl rfl
  | call id callee args =>
      cases hs : calledSymbol t σ callee args with
      | error e =>
          refine h.skip ?_ (by simp [Visit.temporary?, hs, Except.toOption]) rfl
          simp only [Frame.serve, hs]
      | ok s =>
          cases hresult : s.result with
          | none =>
              refine h.skip ?_ (by simp [Visit.temporary?, hs, Except.toOption, hresult]) rfl
              simp only [Frame.serve, hs, hresult, addCall]
          | some type =>
              have htemp : Visit.temporary? t ⟨σ, .call id callee args⟩ = some type := by
                simp [Visit.temporary?, hs, Except.toOption, hresult]
              have hslots : (frame.serve t ⟨σ, .call id callee args⟩).slots =
                  (frame.addTemp type).slots := by
                simp only [Frame.serve, hs, hresult, addCall]
              exact h.addTemp hslots htemp rfl

theorem foldl_serve {ws : List Visit} (h : Counted t vs frame) :
    Counted t (vs ++ ws) (ws.foldl (Frame.serve t) frame) := by
  induction ws generalizing vs frame with
  | nil => simpa using h
  | cons w ws ih => simpa using ih h.serve

theorem name_mem_slots (h : Counted t vs frame) {x : String} :
    x ∈ frame.slots.map (·.name) ↔
      (∃ j < (temporaries t vs).length, x = tempName j) ∨
        ∃ i < (literals vs).length, x = constName i := by
  have hslots : x ∈ frame.slots.map (·.name) ↔
      x ∈ frame.temps.map (·.name) ∨ x ∈ frame.consts.map (·.name) := by
    simp only [List.mem_map, frame.mem_slots_iff, or_and_right, exists_or]
  rw [hslots, h.temps_eq, h.consts_eq]
  simp only [List.mem_map, List.mem_range, eq_comm]

end Counted

end Frame

/-- The generated code of `f` has something of its own of this name: a temporary, a constant slot
or the result parameter. -/
def FunctionDecl.OwnName (t : SymbolTable) (types : Table NodeId Ty) (globals : Scope)
    (f : FunctionDecl NodeId) (x : String) : Prop :=
  (∃ j < (temporaries t (f.visits t types globals)).length, x = tempName j) ∨
    (∃ i < (literals (f.visits t types globals)).length, x = constName i) ∨
    x = C.resultParam ∧ f.result.isSome

/-- Generated names are reserved ones. -/
theorem FunctionDecl.isReserved_of_ownName {t : SymbolTable} {types : Table NodeId Ty}
    {globals : Scope} {f : FunctionDecl NodeId} {x : String} (h : f.OwnName t types globals x) :
    isReserved x = true := by
  obtain ⟨j, _, rfl⟩ | ⟨i, _, rfl⟩ | ⟨rfl, _⟩ := h
  · exact isReserved_tempName j
  · exact isReserved_constName i
  · exact isReserved_resultParam

/-- A local variable or a parameter of the C function. -/
def C.Function.Declares (g : C.Function) (x : String) : Prop :=
  x ∈ g.locals.map (·.name) ∨ x ∈ g.prototype.params.map (·.name)

instance (g : C.Function) (x : String) : Decidable (g.Declares x) :=
  inferInstanceAs (Decidable (_ ∨ _))

section Functions

variable {t : SymbolTable} {types : Table NodeId Ty} {globals : Scope} {f : FunctionDecl NodeId}
  {frame : Frame}

theorem FunctionDecl.counted_of_frame (h : f.frame t types globals = .ok frame) :
    Frame.Counted t (f.visits t types globals) frame := by
  have hstart : Frame.Counted t [] (Frame.start globals f) := ⟨rfl, rfl⟩
  rw [(FunctionDecl.framed_of_frame h).eq_foldl]
  exact hstart.foldl_serve

/-- A slot has a reserved name, but not that of the result parameter. -/
theorem FunctionDecl.isReserved_of_mem_slots (h : f.frame t types globals = .ok frame) {x : String}
    (hx : x ∈ frame.slots.map (·.name)) : isReserved x = true ∧ x ≠ C.resultParam := by
  obtain ⟨j, _, rfl⟩ | ⟨i, _, rfl⟩ := (FunctionDecl.counted_of_frame h).name_mem_slots.mp hx
  · exact ⟨isReserved_tempName j, tempName_ne_resultParam j⟩
  · exact ⟨isReserved_constName i, constName_ne_resultParam i⟩

/-- A C function declares its parameters, what its body declares, and names of its own. -/
theorem FunctionDecl.declares_iff {g : C.Function} (h : f.generate t types globals = .ok g)
    {x : String} :
    g.Declares x ↔
      x ∈ f.params.map (·.name) ∨ x ∈ Stmt.declaredAll f.body ∨ f.OwnName t types globals x := by
  obtain ⟨frame, body, hframe, _, rfl⟩ := FunctionDecl.generate_eq_ok h
  rw [C.Function.Declares, frame.name_mem_locals_iff, FunctionDecl.name_mem_declared hframe,
    (FunctionDecl.counted_of_frame hframe).name_mem_slots, FunctionDecl.name_mem_prototype,
    FunctionDecl.OwnName]
  by_cases hparam : x ∈ f.params.map (·.name)
  · simp only [hparam, or_true, true_or]
  · simp only [hparam, not_false_eq_true, and_true, or_false, false_or, or_assoc]

/-- What is not declared in the C function is a constant of the module. -/
theorem FunctionDecl.isSome_globals_of_not_declares {g : C.Function}
    (h : f.generate t types globals = .ok g) {x : String} (hx : x ∈ Stmt.namesAll f.body)
    (hfree : ¬ g.Declares x) : (globals x).isSome := by
  rw [FunctionDecl.declares_iff h, not_or, not_or] at hfree
  obtain ⟨frame, body, hframe, _, _⟩ := FunctionDecl.generate_eq_ok h
  have hframed := FunctionDecl.framed_of_frame hframe
  obtain hlocal | hglobal := Frame.isSome_scope.mp (hframed.visible x hx)
  · rw [Frame.isSome_localScope, hframed.params_eq, FunctionDecl.name_mem_declared hframe] at hlocal
    obtain hparam | hdeclared := hlocal
    · exact absurd hparam hfree.1
    · exact absurd hdeclared.1 hfree.2.1
  · exact hframed.globals_eq ▸ hglobal

/-- The pointer of a constant is seen in the C function unless the function declares the name. -/
theorem C.Function.entryVars_of_not_declares {Addr : Type} {g : C.Function} {x : String}
    (h : ¬ g.Declares x) (homes : String → Addr) (act : Activation Addr) :
    g.entryVars homes act x = .pointer (act.globals x) := by
  rw [C.Function.Declares, not_or] at h
  rw [C.Function.entryVars, if_neg h.1, if_neg h.2]

end Functions

/-- A name that in source order stands for a constant of the module is captured exactly if it is
declared in this statement or later, or if the generated code has something of its own of that
name. Otherwise it stands for the pointer of the constant. -/
theorem Module.constant_captured_iff {m : Module NodeId} {typed : TypedModule}
    {program : C.Program} (htyped : m.typed m.symbolTable = .ok typed)
    (hprogram : typed.generate m.symbolTable = .ok program) {f : FunctionDecl NodeId}
    (hf : f ∈ m.functions) (hshown : m.symbolTable.hidesFunction f = false) :
    ∃ g ∈ program.functions, f.generate m.symbolTable typed.types m.constantScope = .ok g ∧
      ∀ u ∈ f.uses, u.OfConstant f →
        (g.Declares u.name ↔ u.name ∈ u.after ∨
          f.OwnName m.symbolTable typed.types m.constantScope u.name) ∧
        (¬ g.Declares u.name →
          u.name ∈ program.globals.map (·.name) ∧
            ∀ (Addr : Type) (homes : String → Addr) (act : Activation Addr),
              g.entryVars homes act u.name = .pointer (act.globals u.name)) := by
  have hgen := Module.generates_of_generate htyped hprogram
  obtain ⟨_, g, hg, hfg⟩ := hgen.function_mem f hf hshown
  refine ⟨g, hg, hfg, ?_⟩
  intro u hu hconstant
  have hwithin := FunctionDecl.within_uses hu
  refine ⟨?_, ?_⟩
  · rw [FunctionDecl.declares_iff hfg, ← hwithin.2, List.mem_append]
    have hparam := hconstant.1
    have hbefore := hconstant.2
    tauto
  · intro hfree
    refine ⟨hgen.name_mem_globals ?_, ?_⟩
    · exact FunctionDecl.isSome_globals_of_not_declares hfg hwithin.1 hfree
    · intro Addr homes act
      exact C.Function.entryVars_of_not_declares hfree homes act

theorem counting_limit_not_captured :
    ∃ typed program, counting.typed counting.symbolTable = .ok typed ∧
      typed.generate counting.symbolTable = .ok program ∧ countUp ∈ counting.functions ∧
      counting.symbolTable.hidesFunction countUp = false ∧
      ∃ g ∈ program.functions,
        countUp.generate counting.symbolTable typed.types counting.constantScope = .ok g ∧
        ⟨"limit", ["x"], ["y"]⟩ ∈ countUp.uses ∧
        Use.OfConstant countUp ⟨"limit", ["x"], ["y"]⟩ ∧ ¬ g.Declares "limit" ∧
        "limit" ∈ program.globals.map (·.name) := by
  have hf : countUp ∈ counting.functions := List.mem_cons_self
  have hshown : counting.symbolTable.hidesFunction countUp = false := by decide +kernel
  have hu : ⟨"limit", ["x"], ["y"]⟩ ∈ countUp.uses := by decide
  have hconstant : Use.OfConstant countUp ⟨"limit", ["x"], ["y"]⟩ := by decide
  obtain ⟨program, hcompile⟩ := counting_compiles
  obtain ⟨typed, htyped, hprogram⟩ := Module.compile_eq_ok.mp hcompile
  obtain ⟨g, hg, hfg, huses⟩ := Module.constant_captured_iff htyped hprogram hf hshown
  obtain ⟨hiff, hpointer⟩ := huses _ hu hconstant
  have hnot : ¬ g.Declares "limit" := by
    rw [hiff]
    rintro (hlater | hown)
    · exact absurd hlater (by decide)
    · exact absurd (FunctionDecl.isReserved_of_ownName hown) (by decide)
  exact ⟨typed, program, htyped, hprogram, hf, hshown, g, hg, hfg, hu, hconstant, hnot,
    (hpointer hnot).1⟩

/-- The constant `x` is printed, and then a variable `x` is declared. -/
def hoistedStart : FunctionDecl NodeId where
  name := "start"
  params := []
  result := none
  body :=
    [.call 4 (.call 3 (.name 1 "printInt") [.name 2 "x"]),
     .declare 6 .shared "x" (.literal 5 (.text "one"))]

def hoisted : Module NodeId where
  imports := []
  decls := [.constant ⟨"x", .int, .literal 0 (.int 1)⟩, .function hoistedStart]

def hoistedTyped : TypedModule where
  tree := hoisted
  types := Table.empty.insertAll [(6, .string)]

def hoistedCode : C.Function where
  prototype := ⟨"start", []⟩
  locals := [⟨"x", ⟨"String", true⟩⟩, ⟨"const_0", .string⟩]
  initials := [("const_0", .text "one")]
  body := [.call "printInt" [.name "x"], .assign (.name "x") (.addressOf "const_0"),
    .assign (.deref "x") (.name "const_0")]

/-- The variable, a text that is not set yet, captures the constant, a number. -/
theorem hoisted_constant_captured :
    hoisted.typed hoisted.symbolTable = .ok hoistedTyped ∧
      (∃ program, hoistedTyped.generate hoisted.symbolTable = .ok program ∧
        hoistedCode ∈ program.functions) ∧
      ⟨"x", [], ["x"]⟩ ∈ hoistedStart.uses ∧ Use.OfConstant hoistedStart ⟨"x", [], ["x"]⟩ ∧
      hoistedStart.generate hoisted.symbolTable hoistedTyped.types hoisted.constantScope =
        .ok hoistedCode ∧
      hoistedCode.Declares "x" ∧
      ∀ act : Activation String, hoistedCode.entryVars id act "x" = .pointer none := by
  refine ⟨rfl, ⟨_, rfl, List.mem_cons_self⟩, by decide, by decide, rfl, by decide, ?_⟩
  intro act
  rfl

end Mis
