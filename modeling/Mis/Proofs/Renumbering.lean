import Mis.Proofs.Program
import Mis.Proofs.Slots

/-!
Labels only tell the nodes of a tree apart. Renumbering them without bringing two
together renumbers the keys of every table that a stage fills, one operation at a
time, and changes nothing else; and no label gets into a program. The one error
that names a label says that a slot is missing, which does not happen.
-/
namespace Mis

namespace Table

variable {κ μ α : Type} [DecidableEq κ] [DecidableEq μ] {r : κ → μ}

def mapKeys (r : κ → μ) (t : Table κ α) : Table μ α :=
  ⟨t.entries.map fun e => (r e.1, e.2)⟩

theorem get?_mapKeys (hr : Function.Injective r) (t : Table κ α) (k : κ) :
    (t.mapKeys r).get? (r k) = t.get? k := by
  obtain ⟨entries⟩ := t
  simp only [get?, mapKeys]
  induction entries with
  | nil => rfl
  | cons e entries ih =>
      have hkey : (r k == r e.1) = (k == e.1) := by
        rw [Bool.eq_iff_iff, beq_iff_eq, beq_iff_eq]
        exact hr.eq_iff
      rw [List.map_cons, List.lookup_cons, List.lookup_cons, hkey, ih]

theorem insert_mapKeys (hr : Function.Injective r) (t : Table κ α) (k : κ) (a : α) :
    (t.mapKeys r).insert (r k) a = (t.insert k a).mapKeys r := by
  obtain ⟨entries⟩ := t
  simp only [insert, mapKeys, List.map_cons, List.filter_map, mk.injEq, List.cons.injEq, true_and]
  congr 2
  funext e
  simp [hr.eq_iff]

theorem insertAll_mapKeys (hr : Function.Injective r) (t : Table κ α) (as : List (κ × α)) :
    (t.mapKeys r).insertAll (as.map fun e => (r e.1, e.2)) = (t.insertAll as).mapKeys r := by
  induction as generalizing t with
  | nil => rfl
  | cons e as ih =>
      have hfirst := ih (t.insert e.1 e.2)
      rw [← insert_mapKeys hr] at hfirst
      exact hfirst

end Table

section Renumber

variable {r : NodeId → NodeId}

/-! Typing does not look at labels. -/

@[simp] theorem Expr.name?_map (e : Expr NodeId) : (e.map r).name? = e.name? := by
  cases e <;> rfl

@[simp] theorem Expr.kind_map (e : Expr NodeId) : (e.map r).kind = e.kind := by
  cases e with
  | literal i v => cases v <;> rfl
  | name i x | call i callee args => rfl

@[simp] theorem Expr.calleeName?_map (e : Expr NodeId) : (e.map r).calleeName? = e.calleeName? := by
  cases e with
  | literal i v | name i x => rfl
  | call i callee args => exact Expr.name?_map callee

@[simp] theorem Expr.id_map (e : Expr NodeId) : (e.map r).id = r e.id := by
  cases e <;> rfl

theorem Expr.mapAll_eq_map (es : List (Expr NodeId)) : Expr.mapAll r es = es.map (Expr.map r) := by
  induction es with
  | nil => rfl
  | cons e es ih => rw [Expr.mapAll, ih, List.map_cons]

@[simp] theorem Expr.length_mapAll (es : List (Expr NodeId)) :
    (Expr.mapAll r es).length = es.length := by
  rw [Expr.mapAll_eq_map, List.length_map]

section Typing

variable {t : SymbolTable} {σ : Scope}

theorem SymbolTable.select_map (callee : Expr NodeId) (arity : Nat)
    (types : Unit → Except SemanticError (List Ty)) :
    t.select (callee.map r) arity types = t.select callee arity types := by
  rw [SymbolTable.select, SymbolTable.select, Expr.name?_map, Expr.kind_map]

mutual

theorem Expr.resultType_map : ∀ e : Expr NodeId, (e.map r).resultType t σ = e.resultType t σ
  | .literal _ _ | .name _ _ => rfl
  | .call _ callee args => by
      rw [Expr.map, Expr.resultType, Expr.resultType, SymbolTable.select_map, Expr.length_mapAll,
        Expr.argumentTypes_map args]

theorem Expr.argumentTypes_map :
    ∀ es : List (Expr NodeId),
      Expr.argumentTypes t σ (Expr.mapAll r es) = Expr.argumentTypes t σ es
  | [] => rfl
  | e :: es => by
      rw [Expr.mapAll, Expr.argumentTypes, Expr.argumentTypes, Expr.resultType_map e,
        Expr.argumentTypes_map es, Expr.calleeName?_map]

end

theorem Expr.valueType_map (e : Expr NodeId) : (e.map r).valueType t σ = e.valueType t σ := by
  rw [Expr.valueType, Expr.valueType, Expr.resultType_map, Expr.calleeName?_map]

theorem calledSymbol_map (callee : Expr NodeId) (args : List (Expr NodeId)) :
    calledSymbol t σ (callee.map r) (Expr.mapAll r args) = calledSymbol t σ callee args := by
  rw [calledSymbol, calledSymbol, SymbolTable.select_map, Expr.length_mapAll,
    Expr.argumentTypes_map]

end Typing

/-! The table of types. -/

def Write.map (r : NodeId → NodeId) (w : Write) : Write :=
  ⟨r w.id, w.declares, w.name, w.value.map r⟩

mutual

theorem Stmt.writes_map : ∀ s : Stmt NodeId, (s.map r).writes = s.writes.map (Write.map r)
  | .declare _ _ _ _ | .assign _ _ _ | .leave _ _ | .call _ _ => rfl
  | .branch _ _ yes none | .loop _ _ yes => Stmt.writesAll_map yes
  | .branch _ _ yes (some no) => by
      rw [Stmt.map, Stmt.writes, Stmt.writes, List.map_append, Stmt.writesAll_map yes,
        Stmt.writesAll_map no]

theorem Stmt.writesAll_map :
    ∀ ss : List (Stmt NodeId),
      Stmt.writesAll (Stmt.mapAll r ss) = (Stmt.writesAll ss).map (Write.map r)
  | [] => rfl
  | s :: ss => by
      rw [Stmt.mapAll, Stmt.writesAll, Stmt.writesAll, List.map_append, Stmt.writes_map s,
        Stmt.writesAll_map ss]

end

def Typings.map (r : NodeId → NodeId) (a : Typings) : Typings :=
  { a with types := a.types.map fun p => (r p.1, p.2) }

def FunctionDecl.map (r : NodeId → NodeId) (f : FunctionDecl NodeId) : FunctionDecl NodeId :=
  ⟨f.name, f.params, f.result, Stmt.mapAll r f.body⟩

def TypedModule.map (r : NodeId → NodeId) (typed : TypedModule) : TypedModule :=
  ⟨typed.tree.map r, typed.types.mapKeys r⟩

section Types

variable {t : SymbolTable}

theorem Typings.record_map (a : Typings) (w : Write) :
    (a.map r).record t (w.map r) = Typings.map r <$> a.record t w := by
  rw [Typings.record, Typings.record, map_bind, Write.map, Expr.valueType_map]
  congr 1
  funext type
  simp [Typings.map, Typings.mismatch?, Functor.map, Except.map]

/-- A run of steps that each commute with a change of states commutes with it. -/
theorem foldlM_map_eq {ε S A : Type} {step step' : S → A → Except ε S} {g : S → S} {h : A → A}
    (hstep : ∀ s a, step' (g s) (h a) = g <$> step s a) (s : S) (as : List A) :
    (as.map h).foldlM step' (g s) = g <$> as.foldlM step s := by
  induction as generalizing s with
  | nil => rfl
  | cons a as ih =>
      rw [List.map_cons, List.foldlM_cons, List.foldlM_cons, hstep, map_bind, bind_map_left]
      congr 1
      funext s
      exact ih s

theorem FunctionDecl.typed_map (constants : Scope) (f : FunctionDecl NodeId) :
    (f.map r).typed t constants = Typings.map r <$> f.typed t constants := by
  rw [FunctionDecl.typed, FunctionDecl.typed, FunctionDecl.map, Stmt.writesAll_map]
  exact foldlM_map_eq Typings.record_map (f.typingsStart constants) (Stmt.writesAll f.body)

theorem mapM_map_eq {ε A B : Type} {f f' : A → Except ε B} {g : B → B} {h : A → A}
    (hf : ∀ a, f' (h a) = g <$> f a) (as : List A) :
    (as.map h).mapM f' = List.map g <$> as.mapM f := by
  induction as with
  | nil => rfl
  | cons a as ih =>
      rw [List.map_cons, List.mapM_cons, List.mapM_cons, hf, ih, map_bind, bind_map_left]
      congr 1
      funext b
      rw [map_bind, bind_map_left]
      rfl

end Types

/-! The parts of a module. -/

def ConstantDecl.map (r : NodeId → NodeId) (c : ConstantDecl NodeId) : ConstantDecl NodeId :=
  ⟨c.name, c.type, c.init.map r⟩

namespace Module

variable (m : Module NodeId)

theorem functions_map : (m.map r).functions = m.functions.map (FunctionDecl.map r) := by
  rw [functions, functions, Module.map, List.filterMap_map, List.map_filterMap]
  congr 1
  funext d
  cases d <;> rfl

theorem structs_map : (m.map r).structs = m.structs := by
  rw [structs, structs, Module.map, List.filterMap_map]
  congr 1
  funext d
  cases d <;> rfl

theorem constants_map : (m.map r).constants = m.constants.map (ConstantDecl.map r) := by
  rw [constants, constants, Module.map, List.filterMap_map, List.map_filterMap]
  congr 1
  funext d
  cases d <;> rfl

theorem constantScope_map : (m.map r).constantScope = m.constantScope := by
  rw [constantScope, constantScope, constants_map, List.map_map]
  rfl

theorem functionsNamed_map (x : String) :
    (m.map r).functionsNamed x = (m.functionsNamed x).map (FunctionDecl.map r) := by
  rw [functionsNamed, functionsNamed, functions_map, List.filter_map]
  rfl

theorem functionNames_map : (m.map r).functionNames = m.functionNames := by
  rw [functionNames, functionNames, functions_map, List.map_map]
  rfl

theorem isOverloaded_map : (m.map r).isOverloaded = m.isOverloaded := by
  funext x
  rw [isOverloaded, isOverloaded, functionsNamed_map, List.length_map]

theorem functionSymbol_map (f : FunctionDecl NodeId) :
    (m.map r).functionSymbol (f.map r) = m.functionSymbol f := by
  rw [functionSymbol, functionSymbol, isOverloaded_map]
  rfl

theorem callables_map : (m.map r).callables = m.callables := by
  rw [callables_eq, callables_eq, functionNames_map, structs_map]
  congr 3
  funext x
  rw [functionsNamed_map, List.map_map]
  congr 2
  funext f
  exact functionSymbol_map m f

/-- A module means the same functions, constructors and types under all numberings. -/
theorem symbolTable_map : (m.map r).symbolTable = m.symbolTable := by
  rw [symbolTable_eq, symbolTable_eq, callables_map, structs_map, functionNames_map,
    isOverloaded_map]

theorem typed_map (hr : Function.Injective r) (t : SymbolTable) :
    (m.map r).typed t = TypedModule.map r <$> m.typed t := by
  rw [typed, typed, functions_map, constantScope_map,
    mapM_map_eq (FunctionDecl.typed_map m.constantScope), bind_map_left, map_bind]
  congr 1
  funext typings
  have htypes : (typings.map (Typings.map r)).flatMap (·.types) =
      (typings.flatMap (·.types)).map fun p => (r p.1, p.2) := by
    rw [List.flatMap_map, List.map_flatMap]
    rfl
  have htable := Table.insertAll_mapKeys hr Table.empty (typings.flatMap (·.types))
  rw [htypes]
  exact congrArg (fun types => Except.ok (TypedModule.mk (m.map r) types)) htable

end Module

/-! Frames. -/

def Demand.map (r : NodeId → NodeId) : Demand → Demand
  | .declare id x init => .declare (r id) x (init.map r)
  | .ownSlot id x => .ownSlot (r id) x
  | .visible x => .visible x
  | .constant id v => .constant (r id) v
  | .call id callee args => .call (r id) (callee.map r) (Expr.mapAll r args)

mutual

theorem Expr.demands_map : ∀ e : Expr NodeId, (e.map r).demands = e.demands.map (Demand.map r)
  | .literal _ _ | .name _ _ => rfl
  | .call _ _ args => congrArg (_ :: ·) (Expr.demandsAll_map args)

theorem Expr.demandsAll_map :
    ∀ es : List (Expr NodeId),
      Expr.demandsAll (Expr.mapAll r es) = (Expr.demandsAll es).map (Demand.map r)
  | [] => rfl
  | e :: es => by
      rw [Expr.mapAll, Expr.demandsAll, Expr.demandsAll, List.map_append, Expr.demands_map e,
        Expr.demandsAll_map es]

end

mutual

theorem Stmt.demands_map : ∀ s : Stmt NodeId, (s.map r).demands = s.demands.map (Demand.map r)
  | .declare _ .shared _ e | .assign _ _ e => congrArg (_ :: ·) (Expr.demands_map e)
  | .declare _ .own _ e => by
      rw [Stmt.map, Stmt.demands, Stmt.demands, List.map_append, List.map_cons,
        Expr.demands_map e]
      rfl
  | .branch _ c yes none | .loop _ c yes => by
      rw [Stmt.map, Stmt.demands, Stmt.demands, List.map_append, Expr.demands_map c,
        Stmt.demandsAll_map yes]
  | .branch _ c yes (some no) => by
      rw [Stmt.map, Stmt.demands, Stmt.demands, List.map_append, List.map_append,
        Expr.demands_map c, Stmt.demandsAll_map yes, Stmt.demandsAll_map no]
  | .leave _ none => rfl
  | .leave _ (some e) | .call _ e => Expr.demands_map e

theorem Stmt.demandsAll_map :
    ∀ ss : List (Stmt NodeId),
      Stmt.demandsAll (Stmt.mapAll r ss) = (Stmt.demandsAll ss).map (Demand.map r)
  | [] => rfl
  | s :: ss => by
      rw [Stmt.mapAll, Stmt.demandsAll, Stmt.demandsAll, List.map_append, Stmt.demands_map s,
        Stmt.demandsAll_map ss]

end

namespace Frame

def map (r : NodeId → NodeId) (frame : Frame) : Frame :=
  { frame with
    valueSlots := frame.valueSlots.mapKeys r
    calledNames := frame.calledNames.mapKeys r
    ownSlots := frame.ownSlots.mapKeys r }

variable {t : SymbolTable} {types : Table NodeId Ty} (frame : Frame)

theorem declare_map (x : String) (type : Ty) :
    (frame.map r).declare x type = map r <$> frame.declare x type := by
  have hlocal : (frame.map r).localScope = frame.localScope := rfl
  rw [declare, declare, hlocal]
  cases isReserved x with
  | true => rfl
  | false =>
      cases frame.localScope x with
      | none => rfl
      | some previous =>
          by_cases hsame : previous = type <;> simp [hsame, Functor.map, Except.map]

theorem addCall_map (hr : Function.Injective r) (id : NodeId) (name : String)
    (result : Option Ty) :
    (frame.map r).addCall (r id) name result = (frame.addCall id name result).map r := by
  cases result with
  | none => simp [addCall, map, Table.insert_mapKeys hr]
  | some type =>
      simp only [addCall, map, Table.insert_mapKeys hr]
      rfl

theorem calledName_map (callee : Expr NodeId) (s : Symbol) :
    calledName (callee.map r) s = calledName callee s := by
  rw [calledName, calledName, Expr.name?_map]

/-- Meeting a demand commutes with renumbering. -/
theorem meet_map (hr : Function.Injective r) (d : Demand) :
    (frame.map r).meet t (types.mapKeys r) (d.map r) = map r <$> frame.meet t types d := by
  have hscope : (frame.map r).scope = frame.scope := rfl
  cases d with
  | declare id x init =>
      simp only [meet, Demand.map, Table.get?_mapKeys hr, hscope, Expr.valueType_map, declare_map]
      cases types.get? id <;> rw [map_bind]
  | ownSlot id x =>
      simp only [meet, Demand.map, hscope]
      cases frame.scope x with
      | none => rfl
      | some type =>
          have hslots := Table.insert_mapKeys hr frame.ownSlots id frame.nextTemp
          exact congrArg
            (fun slots => Except.ok { (frame.map r).addTemp type with ownSlots := slots }) hslots
  | visible x =>
      simp only [meet, Demand.map, hscope]
      cases frame.scope x <;> rfl
  | constant id v =>
      have hslots := Table.insert_mapKeys hr frame.valueSlots id frame.nextConst
      exact congrArg (fun slots => Except.ok { (frame.map r).addConst v with valueSlots := slots })
        hslots
  | call id callee args =>
      simp only [meet, Demand.map, hscope, calledSymbol_map, calledName_map, addCall_map frame hr,
        map_bind]
      rfl

end Frame

theorem FunctionDecl.frame_map {t : SymbolTable} {types : Table NodeId Ty} (globals : Scope)
    (hr : Function.Injective r) (f : FunctionDecl NodeId) :
    (f.map r).frame t (types.mapKeys r) globals = Frame.map r <$> f.frame t types globals := by
  have henter : Frame.enter globals (f.map r) = Frame.map r <$> Frame.enter globals f := by
    rw [Frame.enter, Frame.enter, FunctionDecl.map]
    cases f.params.find? fun p => isReserved p.name <;> rfl
  rw [FunctionDecl.frame, FunctionDecl.frame, henter, bind_map_left, map_bind]
  congr 1
  funext frame
  rw [FunctionDecl.map, Stmt.demandsAll_map]
  exact foldlM_map_eq (fun frame d => frame.meet_map hr d) frame (Stmt.demandsAll f.body)

/-! Lowering. -/

/-- Only the error that names a node changes. -/
def GenerateError.map (r : NodeId → NodeId) : GenerateError → GenerateError
  | .noSlot id => .noSlot (r id)
  | e => e

theorem mapError_bind {ε δ α β : Type} {g : ε → δ} (x : Except ε α) (f : α → Except ε β) :
    (x >>= f).mapError g = x.mapError g >>= fun a => (f a).mapError g := by
  cases x <;> rfl

theorem mapM_mapError {ε δ α β : Type} {g : ε → δ} (f : α → Except ε β) (as : List α) :
    as.mapM (fun a => (f a).mapError g) = (as.mapM f).mapError g := by
  induction as with
  | nil => rfl
  | cons a as ih =>
      rw [List.mapM_cons, List.mapM_cons, mapError_bind, ih]
      congr 1
      funext b
      rw [mapError_bind]
      rfl

section Lower

variable (frame : Frame)

theorem Frame.slotOf_map (hr : Function.Injective r) (e : Expr NodeId) :
    (frame.map r).slotOf (e.map r) = (frame.slotOf e).mapError (GenerateError.map r) := by
  simp only [Frame.slotOf, Frame.map, Expr.id_map, Table.get?_mapKeys hr, Expr.calleeName?_map]
  cases frame.valueSlots.get? e.id with
  | some slot => rfl
  | none => cases e.calleeName? <;> rfl

theorem Frame.calleeOf_map (hr : Function.Injective r) (id : NodeId) :
    (frame.map r).calleeOf (r id) = (frame.calleeOf id).mapError (GenerateError.map r) := by
  simp only [Frame.calleeOf, Frame.map, Table.get?_mapKeys hr]
  cases frame.calledNames.get? id <;> rfl

theorem Frame.ownSlotOf_map (hr : Function.Injective r) (id : NodeId) :
    (frame.map r).ownSlotOf (r id) = (frame.ownSlotOf id).mapError (GenerateError.map r) := by
  simp only [Frame.ownSlotOf, Frame.map, Table.get?_mapKeys hr]
  cases frame.ownSlots.get? id <;> rfl

theorem Frame.resultOperand_map (hr : Function.Injective r) (id : NodeId) :
    (frame.map r).resultOperand (r id) = frame.resultOperand id := by
  simp only [Frame.resultOperand, Frame.map, Table.get?_mapKeys hr]

theorem Frame.valueOf_of_name? {e : Expr NodeId} (h : e.name? = none) :
    frame.valueOf e = frame.slotOf e >>= fun slot => .ok (.name slot) := by
  cases e with
  | name i x => cases h
  | literal i v | call i callee args => rfl

theorem Frame.valueOf_map (hr : Function.Injective r) (e : Expr NodeId) :
    (frame.map r).valueOf (e.map r) = (frame.valueOf e).mapError (GenerateError.map r) := by
  cases e with
  | name i x => rfl
  | literal i v | call i callee args =>
      rw [Frame.valueOf_of_name? frame rfl, Frame.valueOf_of_name? (frame.map r) rfl,
        Frame.slotOf_map frame hr, mapError_bind]
      rfl

theorem Frame.addressOf_of_name? {e : Expr NodeId} (h : e.name? = none) :
    frame.addressOf e = frame.slotOf e >>= fun slot => .ok (.addressOf slot) := by
  cases e with
  | name i x => cases h
  | literal i v | call i callee args => rfl

theorem Frame.addressOf_map (hr : Function.Injective r) (e : Expr NodeId) :
    (frame.map r).addressOf (e.map r) = (frame.addressOf e).mapError (GenerateError.map r) := by
  cases e with
  | name i x => rfl
  | literal i v | call i callee args =>
      rw [Frame.addressOf_of_name? frame rfl, Frame.addressOf_of_name? (frame.map r) rfl,
        Frame.slotOf_map frame hr, mapError_bind]
      rfl

theorem lowerTarget_map (hr : Function.Injective r) (id : NodeId) (storage : Storage)
    (init : Expr NodeId) :
    lowerTarget (frame.map r) (r id) storage (init.map r) =
      (lowerTarget frame id storage init).mapError (GenerateError.map r) := by
  cases storage with
  | shared => exact Frame.addressOf_map frame hr init
  | own =>
      rw [lowerTarget, lowerTarget, mapError_bind, Frame.ownSlotOf_map frame hr]
      rfl

mutual

theorem Expr.lowerCalls_map (hr : Function.Injective r) :
    ∀ e : Expr NodeId,
      (e.map r).lowerCalls (frame.map r) = (e.lowerCalls frame).mapError (GenerateError.map r)
  | .literal _ _ | .name _ _ => rfl
  | .call id callee args => by
      have hoperands : (Expr.mapAll r args).mapM (frame.map r).addressOf =
          (args.mapM frame.addressOf).mapError (GenerateError.map r) := by
        rw [Expr.mapAll_eq_map, List.mapM_map, ← mapM_mapError]
        congr 1
        funext e
        exact Frame.addressOf_map frame hr e
      simp only [Expr.map, Expr.lowerCalls, Expr.lowerCallsAll_map hr args, hoperands,
        Frame.calleeOf_map frame hr, Frame.resultOperand_map frame hr, mapError_bind]
      rfl

theorem Expr.lowerCallsAll_map (hr : Function.Injective r) :
    ∀ es : List (Expr NodeId),
      Expr.lowerCallsAll (frame.map r) (Expr.mapAll r es) =
        (Expr.lowerCallsAll frame es).mapError (GenerateError.map r)
  | [] => rfl
  | e :: es => by
      simp only [Expr.mapAll, Expr.lowerCallsAll, Expr.lowerCalls_map hr e,
        Expr.lowerCallsAll_map hr es, mapError_bind]
      rfl

end

mutual

/-- Lowering a statement commutes with renumbering. -/
theorem Stmt.lower_map (hr : Function.Injective r) :
    ∀ s : Stmt NodeId,
      (s.map r).lower (frame.map r) = (s.lower frame).mapError (GenerateError.map r)
  | .declare id storage x init => by
      simp only [Stmt.map, Stmt.lower, Expr.lowerCalls_map frame hr, lowerTarget_map frame hr,
        Frame.valueOf_map frame hr, mapError_bind]
      rfl
  | .assign _ x e => by
      simp only [Stmt.map, Stmt.lower, Expr.lowerCalls_map frame hr, Frame.valueOf_map frame hr,
        mapError_bind]
      rfl
  | .branch _ c yes none => by
      simp only [Stmt.map, Stmt.lower, Expr.lowerCalls_map frame hr, Frame.valueOf_map frame hr,
        Stmt.lowerAll_map hr yes, mapError_bind]
      rfl
  | .branch _ c yes (some no) => by
      simp only [Stmt.map, Stmt.lower, Expr.lowerCalls_map frame hr, Frame.valueOf_map frame hr,
        Stmt.lowerAll_map hr yes, Stmt.lowerAll_map hr no, mapError_bind]
      rfl
  | .loop _ c body => by
      simp only [Stmt.map, Stmt.lower, Expr.lowerCalls_map frame hr, Frame.valueOf_map frame hr,
        Stmt.lowerAll_map hr body, mapError_bind]
      rfl
  | .leave _ none => rfl
  | .leave _ (some e) => by
      have hresult : (frame.map r).result = frame.result := rfl
      simp only [Stmt.map, Option.map_some, Stmt.lower, hresult, Expr.lowerCalls_map frame hr,
        Frame.valueOf_map frame hr]
      cases frame.result with
      | none => rfl
      | some type =>
          simp only [Option.isNone_some, Bool.false_eq_true, if_false, mapError_bind]
          rfl
  | .call _ e => Expr.lowerCalls_map frame hr e

theorem Stmt.lowerAll_map (hr : Function.Injective r) :
    ∀ ss : List (Stmt NodeId),
      Stmt.lowerAll (frame.map r) (Stmt.mapAll r ss) =
        (Stmt.lowerAll frame ss).mapError (GenerateError.map r)
  | [] => rfl
  | s :: ss => by
      simp only [Stmt.mapAll, Stmt.lowerAll, Stmt.lower_map hr s, Stmt.lowerAll_map hr ss,
        mapError_bind]
      rfl

end

end Lower

/-! Generation. -/

theorem FindsSlots.mapError_map {α : Type} {x : Except GenerateError α} (h : FindsSlots x) :
    x.mapError (GenerateError.map r) = x := by
  cases x with
  | ok a => rfl
  | error e =>
      cases e with
      | noSlot id => exact absurd rfl (h id)
      | semantic | constantNotLiteral | valueFromVoidFunction | redeclaredAs | reservedName
      | capitalFunction | recursiveStruct | noEntryPoint => rfl

section Generate

variable {t : SymbolTable} {types : Table NodeId Ty} {globals : Scope}

theorem FunctionDecl.generate_map (hr : Function.Injective r) (f : FunctionDecl NodeId) :
    (f.map r).generate t (types.mapKeys r) globals = f.generate t types globals := by
  rw [FunctionDecl.generate, FunctionDecl.generate, FunctionDecl.frame_map globals hr,
    bind_map_left]
  cases hframe : f.frame t types globals with
  | error e => rfl
  | ok frame =>
      have hslots := Stmt.findsSlots_lowerAll f.body (f.holds_of_frame hframe)
      have hbody : Stmt.lowerAll (frame.map r) (f.map r).body = Stmt.lowerAll frame f.body := by
        rw [← hslots.mapError_map]
        exact Stmt.lowerAll_map frame hr f.body
      change (Stmt.lowerAll (frame.map r) (f.map r).body >>= _) = (Stmt.lowerAll frame f.body >>= _)
      rw [hbody]
      rfl

theorem Decl.generate_map (hr : Function.Injective r) (d : Decl NodeId) :
    (d.map r).generate t (types.mapKeys r) globals = d.generate t types globals := by
  cases d with
  | function f =>
      have hdecl : (Decl.function f).map r = .function (f.map r) := rfl
      rw [hdecl, Decl.generate, Decl.generate, FunctionDecl.generate_map hr f]
      rfl
  | struct s => rfl
  | constant c => rfl

theorem ConstantDecl.generate_map (c : ConstantDecl NodeId) : (c.map r).generate = c.generate := by
  obtain ⟨x, type, init⟩ := c
  cases init <;> rfl

theorem Module.entry_map (m : Module NodeId) : (m.map r).entry t = m.entry t := by
  have hstart : (fun f : FunctionDecl NodeId => f.name = entryPoint && f.params.isEmpty) ∘
      FunctionDecl.map r = fun f => f.name = entryPoint && f.params.isEmpty := rfl
  rw [Module.entry, Module.entry, Module.functions_map, List.find?_map, hstart]
  cases m.functions.find? fun f => f.name = entryPoint && f.params.isEmpty <;> rfl

theorem TypedModule.generate_map (hr : Function.Injective r) (typed : TypedModule) :
    (typed.map r).generate t = typed.generate t := by
  have hconstants : (typed.map r).tree.constants.mapM ConstantDecl.generate =
      typed.tree.constants.mapM ConstantDecl.generate := by
    rw [TypedModule.map, Module.constants_map, List.mapM_map]
    congr 1
    funext c
    exact ConstantDecl.generate_map c
  have hdecls : (typed.map r).tree.decls.mapM (Decl.generate t (typed.map r).types
      (typed.map r).tree.constantScope) =
      typed.tree.decls.mapM (Decl.generate t typed.types typed.tree.constantScope) := by
    rw [TypedModule.map, Module.constantScope_map, Module.map, List.mapM_map]
    congr 1
    funext d
    exact Decl.generate_map hr d
  rw [TypedModule.generate_eq, TypedModule.generate_eq, hconstants, hdecls]
  simp only [TypedModule.map, Module.structs_map, Module.entry_map]

end Generate

/-- Under all numberings a module has the same program, or fails at the same stage with the same
error. -/
theorem Module.compile_renumbered (hr : Function.Injective r) (m : Module NodeId) :
    ((m.map r).typed (m.map r).symbolTable).map (·.generate (m.map r).symbolTable) =
        (m.typed m.symbolTable).map (·.generate m.symbolTable) ∧
      (m.map r).compile = m.compile := by
  rw [Module.compile, Module.compile, Module.symbolTable_map, Module.typed_map m hr]
  cases m.typed m.symbolTable with
  | error e => exact ⟨rfl, rfl⟩
  | ok typed =>
      have hprogram := TypedModule.generate_map (t := m.symbolTable) hr typed
      exact ⟨congrArg Except.ok hprogram,
        congrArg (Except.mapError CompileError.ofGenerate) hprogram⟩

end Renumber

/-- Two calls with one label, and two literals with one label, which share a slot. -/
def sharing : Module NodeId where
  imports := []
  decls :=
    [.function ⟨"start", [], none,
      [.call 4 (.call 1 (.name 3 "printInt") [.literal 0 (.int 1)]),
        .call 5 (.call 1 (.name 3 "printInt") [.literal 0 (.int 2)])]⟩]

theorem sharing_compile_renumbered :
    Function.Injective (fun i : NodeId => 2 * i + 7) ∧ sharing.compile.toOption.isSome = true ∧
      ((sharing.map fun i => 2 * i + 7).typed (sharing.map fun i => 2 * i + 7).symbolTable).map
          (·.generate (sharing.map fun i => 2 * i + 7).symbolTable) =
        (sharing.typed sharing.symbolTable).map (·.generate sharing.symbolTable) ∧
      (sharing.map fun i => 2 * i + 7).compile = sharing.compile := by
  have hr : Function.Injective fun i : NodeId => 2 * i + 7 := by
    intro (i : Nat) (j : Nat) (h : 2 * i + 7 = 2 * j + 7)
    change i = j
    omega
  exact ⟨hr, by decide +kernel, Module.compile_renumbered hr sharing⟩

end Mis
