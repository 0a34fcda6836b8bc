import Mathlib.Data.List.Basic
import Mathlib.Data.List.Induction
import Mis.Proofs.Decimal
import Mis.Proofs.Frame

/-!
The names of slots. Along the walk over a body the literals are counted and, on
their own, the results of calls and the `::=` slots; the number of a node is the
number in the name of its slot. With distinct labels every node keeps the slot
it was given, and the storage of the function can be read off the walk.
-/
namespace Mis

/-! Numbered names. -/

theorem tempName_injective {i j : Nat} (h : tempName i = tempName j) : i = j :=
  natRepr_injective ((String.append_right_inj "tmp_").mp h)

theorem constName_injective {i j : Nat} (h : constName i = constName j) : i = j :=
  natRepr_injective ((String.append_right_inj "const_").mp h)

theorem tempName_ne_constName (i j : Nat) : tempName i ≠ constName j := by
  intro h
  have hlist := congrArg String.toList h
  simp [tempName, constName] at hlist

theorem tempName_ne_resultParam (n : Nat) : tempName n ≠ C.resultParam := by
  intro h
  have hlist := congrArg String.toList h
  simp [tempName, C.resultParam] at hlist

theorem constName_ne_resultParam (n : Nat) : constName n ≠ C.resultParam := by
  intro h
  have hlist := congrArg String.toList h
  simp [constName, C.resultParam] at hlist

theorem isNumbered_append_toString (stem : String) (n : Nat) :
    isNumbered stem (stem ++ toString n) = true := by
  have hstem : stem.toList.isPrefixOf? (stem ++ toString n).toList =
      some (Nat.toDigits 10 n) := by
    rw [List.isPrefixOf?_eq_some_iff_append_eq, String.toList_append]
    exact congrArg (stem.toList ++ ·) Nat.toList_repr.symm
  have hdigits : (Nat.toDigits 10 n).all Char.isDigit = true :=
    List.all_eq_true.mpr fun c hc => Nat.isDigit_of_mem_toDigits (by decide) (by decide) hc
  rw [isNumbered]
  rw [hstem]
  simp [hdigits, Nat.toDigits_ne_nil]

theorem isReserved_tempName (n : Nat) : isReserved (tempName n) = true := by
  have h : isNumbered "tmp_" (tempName n) = true := isNumbered_append_toString "tmp_" n
  simp [isReserved, h]

theorem isReserved_constName (n : Nat) : isReserved (constName n) = true := by
  have h : isNumbered "const_" (constName n) = true := isNumbered_append_toString "const_" n
  simp [isReserved, h]

theorem isReserved_resultParam : isReserved C.resultParam = true := by
  simp [isReserved]

/-! The two counts. -/

def Site.literal? : Site → Option (NodeId × Literal)
  | .literal id value => some (id, value)
  | _ => none

/-- The literals of the walk. -/
def literals (vs : List Visit) : List (NodeId × Literal) :=
  vs.filterMap (·.site.literal?)

/-- The type of the temporary that a stop gets, if it gets one: a call whose callee has a result
gets the result, a `::=` statement a value of its own type. -/
def Visit.temporary? (t : SymbolTable) (v : Visit) : Option Ty :=
  match v.site with
  | .call _ callee args => (calledSymbol t v.scope callee args).toOption.bind (·.result)
  | .own _ type => type
  | .declare _ _ | .literal _ _ => none

/-- The stops that get temporaries, with the types of these. -/
def temporaries (t : SymbolTable) (vs : List Visit) : List (Site × Ty) :=
  vs.filterMap fun v => (v.temporary? t).map (v.site, ·)

def constEntries (vs : List Visit) : List (NodeId × String) :=
  (literals vs).mapIdx fun i p => (p.1, constName i)

def tempEntries (t : SymbolTable) (vs : List Visit) : List (Site × String) :=
  (temporaries t vs).mapIdx fun j p => (p.1, tempName j)

theorem literals_concat (vs : List Visit) (v : Visit) :
    literals (vs ++ [v]) = literals vs ++ v.site.literal?.toList := by
  cases h : v.site.literal? <;> simp [literals, h]

theorem temporaries_concat (t : SymbolTable) (vs : List Visit) (v : Visit) :
    temporaries t (vs ++ [v]) = temporaries t vs ++ ((v.temporary? t).map (v.site, ·)).toList := by
  cases h : v.temporary? t <;> simp [temporaries, h]

theorem literals_concat_none {vs : List Visit} {v : Visit} (h : v.site.literal? = none) :
    literals (vs ++ [v]) = literals vs := by
  rw [literals_concat, h]
  exact List.append_nil _

theorem temporaries_concat_none {t : SymbolTable} {vs : List Visit} {v : Visit}
    (h : v.temporary? t = none) : temporaries t (vs ++ [v]) = temporaries t vs := by
  rw [temporaries_concat, h]
  exact List.append_nil _

theorem constEntries_concat {vs : List Visit} {v : Visit} {id : NodeId} {value : Literal}
    (h : v.site.literal? = some (id, value)) :
    constEntries (vs ++ [v]) = constEntries vs ++ [(id, constName (literals vs).length)] := by
  rw [constEntries, literals_concat, h]
  exact List.mapIdx_concat

theorem constEntries_concat_none {vs : List Visit} {v : Visit} (h : v.site.literal? = none) :
    constEntries (vs ++ [v]) = constEntries vs := by
  rw [constEntries, literals_concat_none h, constEntries]

theorem tempEntries_concat {t : SymbolTable} {vs : List Visit} {v : Visit} {type : Ty}
    (h : v.temporary? t = some type) :
    tempEntries t (vs ++ [v]) =
      tempEntries t vs ++ [(v.site, tempName (temporaries t vs).length)] := by
  rw [tempEntries, temporaries_concat, h]
  exact List.mapIdx_concat

theorem tempEntries_concat_none {t : SymbolTable} {vs : List Visit} {v : Visit}
    (h : v.temporary? t = none) : tempEntries t (vs ++ [v]) = tempEntries t vs := by
  rw [tempEntries, temporaries_concat_none h, tempEntries]

theorem mem_slotIds {vs : List Visit} {v : Visit} {id : NodeId} (hv : v ∈ vs)
    (hid : v.site.id? = some id) : id ∈ slotIds vs :=
  List.mem_filterMap.mpr ⟨v, hv, hid⟩

/-- With distinct labels a label stands for one stop of the walk. -/
theorem eq_of_id? {vs : List Visit} {v w : Visit} {id : NodeId} (hids : (slotIds vs).Nodup)
    (hv : v ∈ vs) (hw : w ∈ vs) (hvid : v.site.id? = some id) (hwid : w.site.id? = some id) :
    v = w := by
  induction vs with
  | nil => cases hv
  | cons u us ih =>
      have hcons : slotIds (u :: us) = u.site.id?.toList ++ slotIds us := by
        cases hu : u.site.id? <;> simp [slotIds, hu]
      rw [hcons, List.nodup_append] at hids
      have hhead : u.site.id? = some id → id ∉ slotIds us := by
        intro hu hmem
        exact hids.2.2 id (by simp [hu]) id hmem rfl
      cases hv with
      | head =>
          cases hw with
          | head => rfl
          | tail _ hw => exact absurd (mem_slotIds hw hwid) (hhead hvid)
      | tail _ hv =>
          cases hw with
          | head => exact absurd (mem_slotIds hv hvid) (hhead hwid)
          | tail _ hw => exact ih hids.2.1 hv hw

theorem mem_of_mem_constEntries {vs : List Visit} {id : NodeId} {c : String}
    (h : (id, c) ∈ constEntries vs) : ∃ v ∈ vs, ∃ value, v.site = .literal id value := by
  obtain ⟨i, hi, heq⟩ := List.mem_mapIdx.mp h
  obtain ⟨v, hv, hliteral⟩ := List.mem_filterMap.mp (List.getElem_mem hi)
  refine ⟨v, hv, ?_⟩
  cases hsite : v.site with
  | literal i value =>
      rw [hsite] at hliteral
      simp only [Site.literal?, Option.some.injEq] at hliteral
      rw [← hliteral] at heq
      cases heq
      exact ⟨value, rfl⟩
  | declare _ _ | call _ _ _ | own _ _ => simp [hsite, Site.literal?] at hliteral

theorem mem_slotIds_of_mem_constEntries {vs : List Visit} {id : NodeId} {c : String}
    (h : (id, c) ∈ constEntries vs) : id ∈ slotIds vs := by
  obtain ⟨v, hv, value, hsite⟩ := mem_of_mem_constEntries h
  exact mem_slotIds hv (hsite ▸ rfl)

theorem mem_of_mem_tempEntries {t : SymbolTable} {vs : List Visit} {site : Site} {c : String}
    (h : (site, c) ∈ tempEntries t vs) :
    ∃ v ∈ vs, v.site = site ∧ (v.temporary? t).isSome := by
  obtain ⟨j, hj, heq⟩ := List.mem_mapIdx.mp h
  obtain ⟨v, hv, hmap⟩ := List.mem_filterMap.mp (List.getElem_mem hj)
  obtain ⟨type, htype, hpair⟩ := Option.map_eq_some_iff.mp hmap
  refine ⟨v, hv, ?_, ?_⟩
  · rw [← hpair] at heq
    exact congrArg Prod.fst heq
  · rw [htype]
    rfl

theorem mem_slotIds_of_mem_tempEntries {t : SymbolTable} {vs : List Visit} {site : Site}
    {id : NodeId} {c : String} (h : (site, c) ∈ tempEntries t vs) (hid : site.id? = some id) :
    id ∈ slotIds vs := by
  obtain ⟨v, hv, hsite, _⟩ := mem_of_mem_tempEntries h
  exact mem_slotIds hv (hsite ▸ hid)

namespace Frame

section Slots

variable (frame : Frame)

theorem temps_addTemp (type : Ty) :
    (frame.addTemp type).temps = frame.temps ++ [⟨frame.nextTemp, type, none⟩] := by
  simp [temps, addTemp]

theorem consts_addTemp (type : Ty) : (frame.addTemp type).consts = frame.consts := by
  simp [consts, addTemp]

theorem temps_addConst (value : Literal) : (frame.addConst value).temps = frame.temps := by
  simp [temps, addConst]

theorem consts_addConst (value : Literal) :
    (frame.addConst value).consts =
      frame.consts ++ [⟨frame.nextConst, value.type, some value⟩] := by
  simp [consts, addConst]

theorem mem_slots_iff {slot : Slot} :
    slot ∈ frame.slots ↔ slot ∈ frame.temps ∨ slot ∈ frame.consts := by
  simp only [temps, consts, List.mem_filter]
  cases slot.init <;> simp

theorem name_mem_locals_iff {x : String} :
    x ∈ frame.locals.map (·.name) ↔
      x ∈ frame.declared.map (·.name) ∨ x ∈ frame.slots.map (·.name) := by
  simp only [locals, List.map_append, List.map_map, List.mem_append, List.mem_map, mem_slots_iff]
  grind

theorem initials_eq : frame.initials = frame.consts.filterMap fun s => s.init.map (s.name, ·) := by
  simp only [initials, consts]
  induction frame.slots with
  | nil => rfl
  | cons s ss ih =>
      cases h : s.init <;> simp [h, ih]

end Slots

/-- The slots of the frame are those that the counts along the walk give. -/
structure Numbered (t : SymbolTable) (vs : List Visit) (frame : Frame) : Prop where
  temps_eq : frame.temps = (temporaries t vs).mapIdx fun j p => ⟨tempName j, p.2, none⟩
  consts_eq : frame.consts =
    (literals vs).mapIdx fun i p => ⟨constName i, p.2.type, some p.2⟩
  value_iff : ∀ id c, frame.valueSlots.get? id = some c ↔
    (id, c) ∈ constEntries vs ∨
      ∃ callee args, (.call id callee args, c) ∈ tempEntries t vs
  own_iff : ∀ id c, frame.ownSlots.get? id = some c ↔
    ∃ type, (.own id type, c) ∈ tempEntries t vs
  called_iff : ∀ id name, frame.calledNames.get? id = some name ↔
    ∃ σ callee args s, ⟨σ, .call id callee args⟩ ∈ vs ∧
      calledSymbol t σ callee args = .ok s ∧ name = calledName callee s

namespace Numbered

variable {t : SymbolTable} {vs : List Visit} {frame : Frame}

theorem nextTemp_eq (h : Numbered t vs frame) :
    frame.nextTemp = tempName (temporaries t vs).length := by
  simp [nextTemp, h.temps_eq]

theorem nextConst_eq (h : Numbered t vs frame) :
    frame.nextConst = constName (literals vs).length := by
  simp [nextConst, h.consts_eq]

theorem start (t : SymbolTable) (globals : Scope) (f : FunctionDecl NodeId) :
    Numbered t [] (Frame.start globals f) where
  temps_eq := rfl
  consts_eq := rfl
  value_iff := by simp [Frame.start, constEntries, tempEntries, literals, temporaries]
  own_iff := by simp [Frame.start, tempEntries, temporaries]
  called_iff := by simp [Frame.start]

/-- A stop that asks for no slot and calls nothing. -/
theorem skip {v : Visit} {after : Frame} (h : Numbered t vs frame)
    (hliteral : v.site.literal? = none) (htemporary : v.temporary? t = none)
    (hcall : ∀ σ id callee args s, v = ⟨σ, .call id callee args⟩ →
      calledSymbol t σ callee args ≠ .ok s)
    (hslots : after.slots = frame.slots) (hvalues : after.valueSlots = frame.valueSlots)
    (howns : after.ownSlots = frame.ownSlots) (hcalled : after.calledNames = frame.calledNames) :
    Numbered t (vs ++ [v]) after := by
  refine ⟨?_, ?_, ?_, ?_, ?_⟩
  · rw [temps, hslots, temporaries_concat_none htemporary]
    exact h.temps_eq
  · rw [consts, hslots, literals_concat_none hliteral]
    exact h.consts_eq
  · rw [hvalues, constEntries_concat_none hliteral, tempEntries_concat_none htemporary]
    exact h.value_iff
  · rw [howns, tempEntries_concat_none htemporary]
    exact h.own_iff
  · intro id name
    rw [hcalled, h.called_iff]
    constructor
    · intro hmet
      obtain ⟨σ, callee, args, s, hv, hs, hname⟩ := hmet
      exact ⟨σ, callee, args, s, List.mem_append_left _ hv, hs, hname⟩
    · intro hmet
      obtain ⟨σ, callee, args, s, hv, hs, hname⟩ := hmet
      obtain hv | hv := List.mem_append.mp hv
      · exact ⟨σ, callee, args, s, hv, hs, hname⟩
      · exact absurd hs (hcall σ id callee args s (List.mem_singleton.mp hv).symm)

/-- A new label gets its entry and all others keep theirs. -/
private theorem get?_insert_iff {table : Table NodeId String} {P : NodeId → String → Prop}
    (htable : ∀ id c, table.get? id = some c ↔ P id c) {id : NodeId} (hfresh : ∀ c, ¬ P id c)
    (name : String) (i : NodeId) (c : String) :
    (table.insert id name).get? i = some c ↔ P i c ∨ i = id ∧ c = name := by
  rw [Table.get?_insert]
  by_cases hi : i = id
  · subst hi
    simp [hfresh, eq_comm]
  · simp [hi, htable]

theorem serve_literal {σ : Scope} {id : NodeId} {value : Literal} (h : Numbered t vs frame)
    (hid : id ∉ slotIds vs) :
    Numbered t (vs ++ [⟨σ, .literal id value⟩]) (frame.serve t ⟨σ, .literal id value⟩) := by
  have htemp : tempEntries t (vs ++ [⟨σ, .literal id value⟩]) = tempEntries t vs :=
    tempEntries_concat_none rfl
  have hconst : constEntries (vs ++ [⟨σ, .literal id value⟩]) =
      constEntries vs ++ [(id, constName (literals vs).length)] := constEntries_concat rfl
  refine ⟨?_, ?_, ?_, ?_, ?_⟩
  · rw [temporaries_concat_none rfl, ← h.temps_eq]
    exact frame.temps_addConst value
  · rw [literals_concat, Site.literal?, Option.toList_some, List.mapIdx_concat, ← h.consts_eq,
      ← h.nextConst_eq]
    exact frame.consts_addConst value
  · intro i c
    rw [hconst, htemp, ← h.nextConst_eq]
    refine (get?_insert_iff h.value_iff ?_ frame.nextConst i c).trans ?_
    · intro c hmet
      obtain hc | ⟨callee, args, hc⟩ := hmet
      · exact hid (mem_slotIds_of_mem_constEntries hc)
      · exact hid (mem_slotIds_of_mem_tempEntries hc rfl)
    · simp only [List.mem_append, List.mem_singleton, Prod.mk.injEq]
      exact or_right_comm
  · rw [htemp]
    exact h.own_iff
  · intro i name
    simp only [List.mem_append, List.mem_singleton, Visit.mk.injEq, reduceCtorEq, and_false,
      or_false]
    exact h.called_iff i name

theorem serve_own {σ : Scope} {id : NodeId} {type : Ty} (h : Numbered t vs frame)
    (hid : id ∉ slotIds vs) :
    Numbered t (vs ++ [⟨σ, .own id (some type)⟩]) (frame.serve t ⟨σ, .own id (some type)⟩) := by
  have htemp : tempEntries t (vs ++ [⟨σ, .own id (some type)⟩]) =
      tempEntries t vs ++ [(.own id (some type), tempName (temporaries t vs).length)] :=
    tempEntries_concat rfl
  have hconst : constEntries (vs ++ [⟨σ, .own id (some type)⟩]) = constEntries vs :=
    constEntries_concat_none rfl
  refine ⟨?_, ?_, ?_, ?_, ?_⟩
  · rw [temporaries_concat, Visit.temporary?, Option.map_some, Option.toList_some,
      List.mapIdx_concat, ← h.temps_eq, ← h.nextTemp_eq]
    exact frame.temps_addTemp type
  · rw [literals_concat_none rfl, ← h.consts_eq]
    exact frame.consts_addTemp type
  · intro i c
    rw [hconst, htemp]
    simp only [List.mem_append, List.mem_singleton, Prod.mk.injEq, reduceCtorEq, false_and,
      or_false]
    exact h.value_iff i c
  · intro i c
    rw [htemp, ← h.nextTemp_eq]
    refine (get?_insert_iff h.own_iff ?_ frame.nextTemp i c).trans ?_
    · intro c hmet
      obtain ⟨type', hc⟩ := hmet
      exact hid (mem_slotIds_of_mem_tempEntries hc rfl)
    · simp only [List.mem_append, List.mem_singleton, Prod.mk.injEq, Site.own.injEq]
      constructor
      · intro hmet
        obtain ⟨type', hc⟩ | ⟨hi, hc⟩ := hmet
        · exact ⟨type', .inl hc⟩
        · exact ⟨some type, .inr ⟨⟨hi, rfl⟩, hc⟩⟩
      · intro hmet
        obtain ⟨type', hc | ⟨⟨hi, _⟩, hc⟩⟩ := hmet
        · exact .inl ⟨type', hc⟩
        · exact .inr ⟨hi, hc⟩
  · intro i name
    simp only [List.mem_append, List.mem_singleton, Visit.mk.injEq, reduceCtorEq, and_false,
      or_false]
    exact h.called_iff i name

/-- The entry of a call among the called names. -/
private theorem called_call {σ : Scope} {id : NodeId} {callee : Expr NodeId}
    {args : List (Expr NodeId)} {s : Symbol} (h : Numbered t vs frame) (hid : id ∉ slotIds vs)
    (hs : calledSymbol t σ callee args = .ok s) (i : NodeId) (name : String) :
    (frame.calledNames.insert id (calledName callee s)).get? i = some name ↔
      ∃ τ callee' args' s', ⟨τ, .call i callee' args'⟩ ∈ vs ++ [⟨σ, .call id callee args⟩] ∧
        calledSymbol t τ callee' args' = .ok s' ∧ name = calledName callee' s' := by
  refine (get?_insert_iff h.called_iff ?_ (calledName callee s) i name).trans ?_
  · intro name hmet
    obtain ⟨τ, callee', args', s', hv, _⟩ := hmet
    exact hid (mem_slotIds hv rfl)
  · constructor
    · intro hmet
      obtain ⟨τ, callee', args', s', hv, hs', hname⟩ | ⟨rfl, rfl⟩ := hmet
      · exact ⟨τ, callee', args', s', List.mem_append_left _ hv, hs', hname⟩
      · exact ⟨σ, callee, args, s, List.mem_append_right _ (List.mem_singleton_self _), hs, rfl⟩
    · intro hmet
      obtain ⟨τ, callee', args', s', hv, hs', hname⟩ := hmet
      obtain hv | hv := List.mem_append.mp hv
      · exact .inl ⟨τ, callee', args', s', hv, hs', hname⟩
      · simp only [List.mem_singleton, Visit.mk.injEq, Site.call.injEq] at hv
        obtain ⟨rfl, rfl, rfl, rfl⟩ := hv
        rw [hs] at hs'
        cases hs'
        exact .inr ⟨rfl, hname⟩

theorem serve_call_void {σ : Scope} {id : NodeId} {callee : Expr NodeId}
    {args : List (Expr NodeId)} {s : Symbol} (h : Numbered t vs frame) (hid : id ∉ slotIds vs)
    (hs : calledSymbol t σ callee args = .ok s) (hresult : s.result = none) :
    Numbered t (vs ++ [⟨σ, .call id callee args⟩])
      (frame.addCall id (calledName callee s) s.result) := by
  have hnone : Visit.temporary? t ⟨σ, .call id callee args⟩ = none := by
    simp [Visit.temporary?, hs, Except.toOption, hresult]
  rw [hresult]
  refine ⟨?_, ?_, ?_, ?_, called_call h hid hs⟩
  · rw [temporaries_concat_none hnone]
    exact h.temps_eq
  · rw [literals_concat_none rfl]
    exact h.consts_eq
  · rw [tempEntries_concat_none hnone, constEntries_concat_none rfl]
    exact h.value_iff
  · rw [tempEntries_concat_none hnone]
    exact h.own_iff

theorem serve_call_value {σ : Scope} {id : NodeId} {callee : Expr NodeId}
    {args : List (Expr NodeId)} {s : Symbol} {type : Ty} (h : Numbered t vs frame)
    (hid : id ∉ slotIds vs) (hs : calledSymbol t σ callee args = .ok s)
    (hresult : s.result = some type) :
    Numbered t (vs ++ [⟨σ, .call id callee args⟩])
      (frame.addCall id (calledName callee s) s.result) := by
  have hsome : Visit.temporary? t ⟨σ, .call id callee args⟩ = some type := by
    simp [Visit.temporary?, hs, Except.toOption, hresult]
  rw [hresult]
  refine ⟨?_, ?_, ?_, ?_, called_call h hid hs⟩
  · rw [temporaries_concat, hsome, Option.map_some, Option.toList_some,
      List.mapIdx_concat, ← h.temps_eq, ← h.nextTemp_eq]
    exact frame.temps_addTemp type
  · rw [literals_concat_none rfl, ← h.consts_eq]
    exact frame.consts_addTemp type
  · intro i c
    rw [tempEntries_concat hsome, constEntries_concat_none rfl, ← h.nextTemp_eq]
    refine (get?_insert_iff h.value_iff ?_ frame.nextTemp i c).trans ?_
    · intro c hmet
      obtain hc | ⟨callee', args', hc⟩ := hmet
      · exact hid (mem_slotIds_of_mem_constEntries hc)
      · exact hid (mem_slotIds_of_mem_tempEntries hc rfl)
    · simp only [List.mem_append, List.mem_singleton, Prod.mk.injEq, Site.call.injEq]
      constructor
      · intro hmet
        obtain (hc | ⟨callee', args', hc⟩) | ⟨hi, hc⟩ := hmet
        · exact .inl hc
        · exact .inr ⟨callee', args', .inl hc⟩
        · exact .inr ⟨callee, args, .inr ⟨⟨hi, rfl, rfl⟩, hc⟩⟩
      · intro hmet
        obtain hc | ⟨callee', args', hc | ⟨⟨hi, _⟩, hc⟩⟩ := hmet
        · exact .inl (.inl hc)
        · exact .inl (.inr ⟨callee', args', hc⟩)
        · exact .inr ⟨hi, hc⟩
  · intro i c
    rw [tempEntries_concat hsome]
    simp only [List.mem_append, List.mem_singleton, Prod.mk.injEq, reduceCtorEq, false_and,
      or_false]
    exact h.own_iff i c

theorem serve {v : Visit} (h : Numbered t vs frame)
    (hid : ∀ id, v.site.id? = some id → id ∉ slotIds vs) :
    Numbered t (vs ++ [v]) (frame.serve t v) := by
  obtain ⟨σ, site⟩ := v
  cases site with
  | declare x type =>
      cases type with
      | none => exact h.skip rfl rfl (by simp) rfl rfl rfl rfl
      | some type =>
          by_cases hlocal : (frame.localScope x).isSome
          · simp only [Frame.serve, hlocal, if_true]
            exact h.skip rfl rfl (by simp) rfl rfl rfl rfl
          · simp only [Frame.serve, hlocal]
            exact h.skip rfl rfl (by simp) rfl rfl rfl rfl
  | literal id value => exact h.serve_literal (hid id rfl)
  | call id callee args =>
      cases hs : calledSymbol t σ callee args with
      | error e =>
          simp only [Frame.serve, hs]
          refine h.skip rfl ?_ ?_ rfl rfl rfl rfl
          · simp [Visit.temporary?, hs, Except.toOption]
          · intro τ id' callee' args' s hv
            cases hv
            simp [hs]
      | ok s =>
          simp only [Frame.serve, hs]
          cases hresult : s.result with
          | none => exact hresult ▸ h.serve_call_void (hid id rfl) hs hresult
          | some type => exact hresult ▸ h.serve_call_value (hid id rfl) hs hresult
  | own id type =>
      cases type with
      | none => exact h.skip rfl rfl (by simp) rfl rfl rfl rfl
      | some type => exact h.serve_own (hid id rfl)

theorem foldl_serve {ws : List Visit} (h : Numbered t vs frame)
    (hids : (slotIds (vs ++ ws)).Nodup) :
    Numbered t (vs ++ ws) (ws.foldl (Frame.serve t) frame) := by
  induction ws generalizing vs frame with
  | nil => simpa using h
  | cons w ws ih =>
      have hsplit : vs ++ w :: ws = (vs ++ [w]) ++ ws := by simp
      rw [hsplit] at hids ⊢
      refine ih (h.serve ?_) hids
      intro id hid hmem
      rw [slotIds_append, slotIds_append] at hids
      have hdisjoint := (List.nodup_append.mp (List.nodup_append.mp hids).1).2.2
      exact hdisjoint id hmem id (mem_slotIds (List.mem_singleton_self w) hid) rfl

end Numbered
end Frame

theorem FunctionDecl.nodup_slotIds {t : SymbolTable} {types : Table NodeId Ty} {globals : Scope}
    {f : FunctionDecl NodeId} (hids : (Stmt.idsAll f.body).Nodup) :
    (slotIds (f.visits t types globals)).Nodup :=
  (Stmt.slotIds_visitsAll t types (f.startScope globals) f.body).nodup hids

/-- The frame of a function whose labels are distinct. -/
theorem FunctionDecl.numbered_of_frame {t : SymbolTable} {types : Table NodeId Ty}
    {globals : Scope} {f : FunctionDecl NodeId} {frame : Frame}
    (hids : (Stmt.idsAll f.body).Nodup) (h : f.frame t types globals = .ok frame) :
    Frame.Numbered t (f.visits t types globals) frame := by
  rw [(FunctionDecl.framed_of_frame h).eq_foldl]
  exact (Frame.Numbered.start t globals f).foldl_serve (FunctionDecl.nodup_slotIds hids)

/-! Variables. -/

/-- The first entry of each name. -/
def firsts : List TypedName → List TypedName
  | [] => []
  | x :: xs => x :: (firsts xs).filter (·.name ≠ x.name)

theorem name_mem_firsts {xs : List TypedName} {name : String} :
    name ∈ (firsts xs).map (·.name) ↔ name ∈ xs.map (·.name) := by
  induction xs with
  | nil => rfl
  | cons x xs ih =>
      simp only [List.mem_map] at ih
      by_cases hx : name = x.name
      · simp [firsts, hx]
      · simp only [firsts, List.map_cons, List.mem_cons, hx, false_or, List.mem_map,
          List.mem_filter]
        rw [← ih]
        constructor
        · intro hmet
          obtain ⟨y, ⟨hy, _⟩, hname⟩ := hmet
          exact ⟨y, hy, hname⟩
        · intro hmet
          obtain ⟨y, hy, hname⟩ := hmet
          exact ⟨y, ⟨hy, by simpa [hname] using hx⟩, hname⟩

theorem firsts_append (xs ys : List TypedName) :
    firsts (xs ++ ys) = firsts xs ++ (firsts ys).filter (·.name ∉ xs.map (·.name)) := by
  induction xs with
  | nil => exact (List.filter_eq_self.mpr fun _ _ => rfl).symm
  | cons x xs ih =>
      have hfilter : ∀ y : TypedName,
          (decide (y.name ≠ x.name) && decide (y.name ∉ xs.map (·.name))) =
            decide (y.name ∉ (x :: xs).map (·.name)) := by
        intro y
        by_cases hy : y.name = x.name <;> simp [hy]
      simp only [List.cons_append, firsts, ih, List.filter_append, List.filter_filter, hfilter]

theorem firsts_concat (xs : List TypedName) (x : TypedName) :
    firsts (xs ++ [x]) = if x.name ∈ xs.map (·.name) then firsts xs else firsts xs ++ [x] := by
  rw [firsts_append]
  by_cases hx : x.name ∈ xs.map (·.name)
  · rw [if_pos hx, firsts, firsts, List.filter_nil, List.filter_cons_of_neg (by simpa using hx)]
    exact List.append_nil _
  · rw [if_neg hx, firsts, firsts, List.filter_nil, List.filter_cons_of_pos (by simpa using hx)]
    rfl

/-- The variables that the walk declares, with their types. -/
def declarations (vs : List Visit) : List TypedName :=
  (declaredVariables vs).filterMap fun p => p.2.map (⟨p.1, ·⟩)

theorem declarations_concat (vs : List Visit) (v : Visit) :
    declarations (vs ++ [v]) = declarations vs ++ declarations [v] := by
  rw [declarations, declaredVariables_append, List.filterMap_append]
  rfl

/-- The local variables of a function: what its body declares, less the parameters. -/
def localVariables (params : List TypedName) (vs : List Visit) : List TypedName :=
  firsts ((declarations vs).filter (·.name ∉ params.map (·.name)))

theorem localVariables_concat {params : List TypedName} {vs : List Visit} {v : Visit}
    (h : declarations [v] = []) : localVariables params (vs ++ [v]) = localVariables params vs := by
  rw [localVariables, declarations_concat, h, List.append_nil, localVariables]

namespace Frame

theorem declared_serve {t : SymbolTable} {vs : List Visit} {frame : Frame} {v : Visit}
    (h : frame.declared = localVariables frame.params vs) :
    (frame.serve t v).declared = localVariables frame.params (vs ++ [v]) := by
  obtain ⟨σ, site⟩ := v
  cases site with
  | declare x type =>
      cases type with
      | none => exact h.trans (localVariables_concat rfl).symm
      | some type =>
          have hone : declarations [⟨σ, .declare x (some type)⟩] = [⟨x, type⟩] := rfl
          have hknown := frame.isSome_localScope (x := x)
          rw [h, localVariables, name_mem_firsts] at hknown
          rw [localVariables, declarations_concat, hone, List.filter_append]
          by_cases hparam : x ∈ frame.params.map (·.name)
          · have hlocal : (frame.localScope x).isSome := hknown.mpr (.inl hparam)
            rw [List.filter_cons_of_neg (by simpa using hparam), List.filter_nil, List.append_nil]
            simp only [serve, hlocal, if_true]
            exact h
          · rw [List.filter_cons_of_pos (by simpa using hparam), List.filter_nil, firsts_concat]
            by_cases hmem : x ∈ ((declarations vs).filter
                (·.name ∉ frame.params.map (·.name))).map (·.name)
            · have hlocal : (frame.localScope x).isSome := hknown.mpr (.inr hmem)
              rw [if_pos hmem]
              simp only [serve, hlocal, if_true]
              exact h
            · have hlocal : ¬ (frame.localScope x).isSome := by
                rw [hknown]
                exact not_or.mpr ⟨hparam, hmem⟩
              rw [if_neg hmem]
              simp only [serve, hlocal]
              exact congrArg (· ++ [⟨x, type⟩]) h
  | literal id value => exact h.trans (localVariables_concat rfl).symm
  | call id callee args =>
      have hdeclared : (frame.serve t ⟨σ, .call id callee args⟩).declared = frame.declared := by
        simp only [serve, addCall]
        repeat' split
        all_goals rfl
      exact hdeclared.trans (h.trans (localVariables_concat rfl).symm)
  | own id type =>
      cases type <;> exact h.trans (localVariables_concat rfl).symm

theorem declared_foldl_serve {t : SymbolTable} {vs ws : List Visit} {frame : Frame}
    (h : frame.declared = localVariables frame.params vs) :
    (ws.foldl (serve t) frame).declared = localVariables frame.params (vs ++ ws) := by
  induction ws generalizing vs frame with
  | nil => simpa using h
  | cons w ws ih =>
      have hparams : (frame.serve t w).params = frame.params := (serve_fixed t frame w).2.2.1
      have hnext := ih (hparams ▸ declared_serve h)
      rw [hparams] at hnext
      simpa using hnext

end Frame

theorem FunctionDecl.declared_of_frame {t : SymbolTable} {types : Table NodeId Ty}
    {globals : Scope} {f : FunctionDecl NodeId} {frame : Frame}
    (h : f.frame t types globals = .ok frame) :
    frame.declared = localVariables f.params (f.visits t types globals) := by
  have hstart : (Frame.start globals f).declared = localVariables f.params [] := rfl
  rw [(FunctionDecl.framed_of_frame h).eq_foldl]
  exact Frame.declared_foldl_serve hstart

/-- The variables are what the body declares, less the parameters. -/
theorem FunctionDecl.name_mem_declared {t : SymbolTable} {types : Table NodeId Ty}
    {globals : Scope} {f : FunctionDecl NodeId} {frame : Frame}
    (h : f.frame t types globals = .ok frame) {x : String} :
    x ∈ frame.declared.map (·.name) ↔
      x ∈ Stmt.declaredAll f.body ∧ x ∉ f.params.map (·.name) := by
  have hframed := FunctionDecl.framed_of_frame h
  constructor
  · intro hx
    rw [FunctionDecl.declared_of_frame h, localVariables, name_mem_firsts] at hx
    obtain ⟨y, hy, rfl⟩ := List.mem_map.mp hx
    obtain ⟨hy, hparam⟩ := List.mem_filter.mp hy
    refine ⟨?_, by simpa using hparam⟩
    obtain ⟨p, hp, hsome⟩ := List.mem_filterMap.mp hy
    obtain ⟨type, _, rfl⟩ := Option.map_eq_some_iff.mp hsome
    rw [← Stmt.map_fst_declaredVariables_visitsAll t types (f.startScope globals)]
    exact List.mem_map.mpr ⟨p, hp, rfl⟩
  · intro hx
    obtain ⟨σ, type, hv⟩ := Stmt.exists_visit_of_declared t types hx.1
    have hsome : (frame.localScope x).isSome := by
      rw [hframed.declares σ x type hv]
      exact (hframed.granted _ hv).1
    rw [Frame.isSome_localScope, hframed.params_eq] at hsome
    exact hsome.resolve_left hx.2

theorem FunctionDecl.Framed.declared_free {t : SymbolTable} {types : Table NodeId Ty}
    {globals : Scope} {f : FunctionDecl NodeId} {frame : Frame}
    (h : f.Framed t types globals frame) {x : String} (hx : x ∈ Stmt.declaredAll f.body) :
    isReserved x = false := by
  obtain ⟨σ, type, hv⟩ := Stmt.exists_visit_of_declared t types hx
  exact (h.granted _ hv).2

/-! The protocol. -/

/-- The slot of the node with this label. -/
def Frame.HasSlot (frame : Frame) (id : NodeId) (c : String) : Prop :=
  frame.valueSlots.get? id = some c ∨ frame.ownSlots.get? id = some c

/-- How a frame names and types its storage, told by the walk `vs` over the body. -/
structure NamingProtocol (t : SymbolTable) (params : List TypedName) (vs : List Visit)
    (frame : Frame) : Prop where
  /-- Every call means a symbol in the scope it stands in, so it has a result or is known to
  have none. -/
  call_resolved : ∀ σ id callee args, ⟨σ, .call id callee args⟩ ∈ vs →
    ∃ s, calledSymbol t σ callee args = .ok s
  own_typed : ∀ σ id type, ⟨σ, .own id type⟩ ∈ vs → type.isSome
  literal_slot : ∀ i id value, (literals vs)[i]? = some (id, value) →
    frame.valueSlots.get? id = some (constName i)
  call_slot : ∀ j id callee args type,
    (temporaries t vs)[j]? = some (.call id callee args, type) →
      frame.valueSlots.get? id = some (tempName j)
  own_slot : ∀ j id declared type, (temporaries t vs)[j]? = some (.own id declared, type) →
    frame.ownSlots.get? id = some (tempName j)
  value_slot_only : ∀ id c, frame.valueSlots.get? id = some c →
    (∃ (i : Nat) (value : Literal), (literals vs)[i]? = some (id, value)) ∨
      ∃ (j : Nat) (callee : _) (args : _) (type : Ty),
        (temporaries t vs)[j]? = some (.call id callee args, type)
  own_slot_only : ∀ id c, frame.ownSlots.get? id = some c →
    ∃ (j : Nat) (declared : Option Ty) (type : Ty),
      (temporaries t vs)[j]? = some (.own id declared, type)
  initials_eq : frame.initials = (literals vs).mapIdx fun i p => (constName i, p.2)
  locals_eq : frame.locals =
    (localVariables params vs).map (fun x => ⟨x.name, x.type.pointer⟩) ++
      (temporaries t vs).mapIdx (fun j p => ⟨tempName j, p.2⟩) ++
      (literals vs).mapIdx (fun i p => ⟨constName i, p.2.type⟩)
  slot_unshared : ∀ id id' c, frame.HasSlot id c → frame.HasSlot id' c → id = id'
  slot_used : ∀ slot ∈ frame.slots, ∃ id, frame.HasSlot id slot.name

theorem mem_constEntries {vs : List Visit} {id : NodeId} {c : String} :
    (id, c) ∈ constEntries vs ↔
      ∃ i value, (literals vs)[i]? = some (id, value) ∧ c = constName i := by
  rw [constEntries, List.mem_mapIdx]
  constructor
  · intro hmet
    obtain ⟨i, hi, heq⟩ := hmet
    cases heq
    exact ⟨i, _, List.getElem?_eq_getElem hi, rfl⟩
  · intro hmet
    obtain ⟨i, value, hget, rfl⟩ := hmet
    obtain ⟨hi, hget⟩ := List.getElem?_eq_some_iff.mp hget
    exact ⟨i, hi, by rw [hget]⟩

theorem mem_tempEntries {t : SymbolTable} {vs : List Visit} {site : Site} {c : String} :
    (site, c) ∈ tempEntries t vs ↔
      ∃ j type, (temporaries t vs)[j]? = some (site, type) ∧ c = tempName j := by
  rw [tempEntries, List.mem_mapIdx]
  constructor
  · intro hmet
    obtain ⟨j, hj, heq⟩ := hmet
    cases heq
    exact ⟨j, _, List.getElem?_eq_getElem hj, rfl⟩
  · intro hmet
    obtain ⟨j, type, hget, rfl⟩ := hmet
    obtain ⟨hj, hget⟩ := List.getElem?_eq_some_iff.mp hget
    exact ⟨j, hj, by rw [hget]⟩

private theorem filterMap_mapIdx {α β γ : Type} {f : Nat → α → β} {g : β → Option γ}
    {h : Nat → α → γ} (hg : ∀ i a, g (f i a) = some (h i a)) (l : List α) :
    (l.mapIdx f).filterMap g = l.mapIdx h := by
  induction l using List.reverseRecOn with
  | nil => rfl
  | append_singleton l a ih => simp [List.mapIdx_concat, ih, hg]

private theorem map_mapIdx {α β γ : Type} (f : Nat → α → β) (g : β → γ) (l : List α) :
    (l.mapIdx f).map g = l.mapIdx fun i a => g (f i a) := by
  induction l using List.reverseRecOn with
  | nil => rfl
  | append_singleton l a ih => simp [List.mapIdx_concat, ih]

namespace Frame.Numbered

variable {t : SymbolTable} {vs : List Visit} {frame : Frame}

theorem initials_eq (h : Numbered t vs frame) :
    frame.initials = (literals vs).mapIdx fun i p => (constName i, p.2) := by
  rw [Frame.initials_eq, h.consts_eq]
  refine filterMap_mapIdx ?_ _
  intro i p
  rfl

theorem locals_eq (h : Numbered t vs frame) :
    frame.locals =
      frame.declared.map (fun x => ⟨x.name, x.type.pointer⟩) ++
        (temporaries t vs).mapIdx (fun j p => ⟨tempName j, p.2⟩) ++
        (literals vs).mapIdx (fun i p => ⟨constName i, p.2.type⟩) := by
  rw [Frame.locals, List.map_append, h.temps_eq, h.consts_eq, map_mapIdx, map_mapIdx,
    List.append_assoc]

/-- A slot is the constant of a literal, or the temporary of a call or a `::=` statement. -/
theorem hasSlot_iff (h : Numbered t vs frame) {id : NodeId} {c : String} :
    frame.HasSlot id c ↔
      (∃ i value, (literals vs)[i]? = some (id, value) ∧ c = constName i) ∨
        ∃ j site type, (temporaries t vs)[j]? = some (site, type) ∧ site.id? = some id ∧
          c = tempName j := by
  rw [Frame.HasSlot, h.value_iff, h.own_iff, mem_constEntries]
  simp only [mem_tempEntries]
  constructor
  · intro hmet
    obtain (hconst | ⟨callee, args, j, type, hget, hc⟩) | ⟨declared, j, type, hget, hc⟩ := hmet
    · exact .inl hconst
    · exact .inr ⟨j, _, type, hget, rfl, hc⟩
    · exact .inr ⟨j, _, type, hget, rfl, hc⟩
  · intro hmet
    obtain hconst | ⟨j, site, type, hget, hid, hc⟩ := hmet
    · exact .inl (.inl hconst)
    · -- only calls and `::=` statements have temporaries
      obtain ⟨v, _, htemporary⟩ := List.mem_filterMap.mp (List.mem_of_getElem? hget)
      obtain ⟨type', htype, hpair⟩ := Option.map_eq_some_iff.mp htemporary
      cases hpair
      cases hsite : v.site with
      | call id' callee args =>
          rw [hsite] at hget hid
          cases hid
          exact .inl (.inr ⟨callee, args, j, type, hget, hc⟩)
      | own id' declared =>
          rw [hsite] at hget hid
          cases hid
          exact .inr ⟨declared, j, type, hget, hc⟩
      | declare _ _ | literal _ _ => simp [Visit.temporary?, hsite] at htype

theorem slot_unshared (h : Numbered t vs frame) {id id' : NodeId} {c : String}
    (hslot : frame.HasSlot id c) (hslot' : frame.HasSlot id' c) : id = id' := by
  rw [h.hasSlot_iff] at hslot hslot'
  obtain ⟨i, value, hget, rfl⟩ | ⟨j, site, type, hget, hid, rfl⟩ := hslot
  · obtain ⟨i', value', hget', hc⟩ | ⟨j', site', type', _, _, hc⟩ := hslot'
    · rw [constName_injective hc, hget'] at hget
      cases hget
      rfl
    · exact absurd hc.symm (tempName_ne_constName j' i)
  · obtain ⟨i', value', _, hc⟩ | ⟨j', site', type', hget', hid', hc⟩ := hslot'
    · exact absurd hc (tempName_ne_constName j i')
    · rw [tempName_injective hc, hget'] at hget
      cases hget
      rw [hid'] at hid
      cases hid
      rfl

theorem slot_used (h : Numbered t vs frame) {slot : Slot} (hslot : slot ∈ frame.slots) :
    ∃ id, frame.HasSlot id slot.name := by
  have hsplit := frame.mem_slots_iff.mp hslot
  rw [h.temps_eq, h.consts_eq, List.mem_mapIdx, List.mem_mapIdx] at hsplit
  obtain ⟨j, hj, rfl⟩ | ⟨i, hi, rfl⟩ := hsplit
  · obtain ⟨v, _, htemporary⟩ := List.mem_filterMap.mp (List.getElem_mem hj)
    obtain ⟨type, htype, hpair⟩ := Option.map_eq_some_iff.mp htemporary
    have hid : ∃ id, v.site.id? = some id := by
      cases hsite : v.site with
      | call id _ _ | own id _ => exact ⟨id, rfl⟩
      | declare _ _ | literal _ _ => simp [Visit.temporary?, hsite] at htype
    obtain ⟨id, hid⟩ := hid
    refine ⟨id, h.hasSlot_iff.mpr (.inr ⟨j, v.site, type, ?_, hid, rfl⟩)⟩
    rw [List.getElem?_eq_getElem hj, ← hpair]
  · exact ⟨_, h.hasSlot_iff.mpr (.inl ⟨i, _, List.getElem?_eq_getElem hi, rfl⟩)⟩

theorem name_mem_slots (h : Numbered t vs frame) {id : NodeId} {c : String}
    (hslot : frame.HasSlot id c) : c ∈ frame.slots.map (·.name) := by
  obtain ⟨i, value, hget, rfl⟩ | ⟨j, site, type, hget, _, rfl⟩ := h.hasSlot_iff.mp hslot
  · obtain ⟨hi, hget⟩ := List.getElem?_eq_some_iff.mp hget
    have hmem : ⟨constName i, value.type, some value⟩ ∈ frame.consts := by
      rw [h.consts_eq]
      exact List.mem_mapIdx.mpr ⟨i, hi, by rw [hget]⟩
    exact List.mem_map.mpr ⟨_, frame.mem_slots_iff.mpr (.inr hmem), rfl⟩
  · obtain ⟨hj, hget⟩ := List.getElem?_eq_some_iff.mp hget
    have hmem : ⟨tempName j, type, none⟩ ∈ frame.temps := by
      rw [h.temps_eq]
      exact List.mem_mapIdx.mpr ⟨j, hj, by rw [hget]⟩
    exact List.mem_map.mpr ⟨_, frame.mem_slots_iff.mpr (.inl hmem), rfl⟩

theorem isReserved_of_mem_slots (h : Numbered t vs frame) {c : String}
    (hc : c ∈ frame.slots.map (·.name)) : isReserved c = true ∧ c ≠ C.resultParam := by
  obtain ⟨slot, hslot, rfl⟩ := List.mem_map.mp hc
  obtain ⟨id, hid⟩ := h.slot_used hslot
  obtain ⟨i, value, _, hname⟩ | ⟨j, site, type, _, _, hname⟩ := h.hasSlot_iff.mp hid
  · rw [hname]
    exact ⟨isReserved_constName i, constName_ne_resultParam i⟩
  · rw [hname]
    exact ⟨isReserved_tempName j, tempName_ne_resultParam j⟩

theorem called_of_mem (h : Numbered t vs frame) {σ : Scope} {id : NodeId} {callee : Expr NodeId}
    {args : List (Expr NodeId)} {s : Symbol} (hv : ⟨σ, .call id callee args⟩ ∈ vs)
    (hs : calledSymbol t σ callee args = .ok s) :
    frame.calledNames.get? id = some (calledName callee s) :=
  (h.called_iff _ _).mpr ⟨σ, callee, args, s, hv, hs, rfl⟩

/-- The result of a call goes to a temporary of the type that its symbol has. -/
theorem slot_of_call (h : Numbered t vs frame) {σ : Scope} {id : NodeId} {callee : Expr NodeId}
    {args : List (Expr NodeId)} {s : Symbol} {type : Ty} (hv : ⟨σ, .call id callee args⟩ ∈ vs)
    (hs : calledSymbol t σ callee args = .ok s) (hresult : s.result = some type) :
    ∃ c, frame.valueSlots.get? id = some c ∧ ⟨c, type⟩ ∈ frame.locals := by
  have htemporary : Visit.temporary? t ⟨σ, .call id callee args⟩ = some type := by
    simp [Visit.temporary?, hs, Except.toOption, hresult]
  have hmem : (.call id callee args, type) ∈ temporaries t vs :=
    List.mem_filterMap.mpr ⟨_, hv, by rw [htemporary]; rfl⟩
  obtain ⟨j, hj⟩ := List.getElem?_of_mem hmem
  refine ⟨tempName j, (h.value_iff id (tempName j)).mpr
    (.inr ⟨callee, args, mem_tempEntries.mpr ⟨j, type, hj, rfl⟩⟩), ?_⟩
  obtain ⟨hlt, hj⟩ := List.getElem?_eq_some_iff.mp hj
  rw [h.locals_eq, List.append_assoc]
  exact List.mem_append_right _
    (List.mem_append_left _ (List.mem_mapIdx.mpr ⟨j, hlt, by rw [hj]⟩))

/-- A call has a slot exactly if its symbol has a result. -/
theorem isSome_slot_of_call (h : Numbered t vs frame) (hids : (slotIds vs).Nodup) {σ : Scope}
    {id : NodeId} {callee : Expr NodeId} {args : List (Expr NodeId)} {s : Symbol}
    (hv : ⟨σ, .call id callee args⟩ ∈ vs) (hs : calledSymbol t σ callee args = .ok s) :
    (frame.valueSlots.get? id).isSome = s.result.isSome := by
  have htemporary : Visit.temporary? t ⟨σ, .call id callee args⟩ = s.result := by
    simp [Visit.temporary?, hs, Except.toOption]
  cases hresult : s.result with
  | some type =>
      obtain ⟨c, hslot, _⟩ := h.slot_of_call hv hs hresult
      rw [hslot]
      rfl
  | none =>
      rw [hresult] at htemporary
      cases hslot : frame.valueSlots.get? id with
      | none => rfl
      | some c =>
          -- any slot of this label would belong to this visit, which asks for none
          obtain hconst | ⟨callee', args', htemp⟩ := (h.value_iff id c).mp hslot
          · obtain ⟨v, hw, value, hsite⟩ := mem_of_mem_constEntries hconst
            have heq := eq_of_id? hids hw hv (hsite ▸ rfl) rfl
            rw [heq] at hsite
            cases hsite
          · obtain ⟨v, hw, hsite, hsome⟩ := mem_of_mem_tempEntries htemp
            have heq := eq_of_id? hids hw hv (hsite ▸ rfl) rfl
            rw [heq, htemporary] at hsome
            cases hsome

/-- A `::=` statement has no value of its own. -/
theorem valueSlots_of_ownSlots (h : Numbered t vs frame) (hids : (slotIds vs).Nodup)
    {id : NodeId} {c : String} (hown : frame.ownSlots.get? id = some c) :
    frame.valueSlots.get? id = none := by
  obtain ⟨declared, htemp⟩ := (h.own_iff id c).mp hown
  obtain ⟨w, hw, hwsite, _⟩ := mem_of_mem_tempEntries htemp
  have hwid : w.site.id? = some id := by rw [hwsite]; rfl
  cases hvalue : frame.valueSlots.get? id with
  | none => rfl
  | some c' =>
      obtain hconst | ⟨callee, args, htemp'⟩ := (h.value_iff id c').mp hvalue
      · obtain ⟨v, hv, value, hvsite⟩ := mem_of_mem_constEntries hconst
        have heq := eq_of_id? hids hv hw (hvsite ▸ rfl) hwid
        rw [heq, hwsite] at hvsite
        cases hvsite
      · obtain ⟨v, hv, hvsite, _⟩ := mem_of_mem_tempEntries htemp'
        have heq := eq_of_id? hids hv hw (hvsite ▸ rfl) hwid
        rw [heq, hwsite] at hvsite
        cases hvsite

end Frame.Numbered

/-- A frame names its storage by the protocol, whatever the body of the function is. -/
theorem FunctionDecl.namingProtocol_of_frame {t : SymbolTable} {types : Table NodeId Ty}
    {globals : Scope} {f : FunctionDecl NodeId} {frame : Frame}
    (hids : (Stmt.idsAll f.body).Nodup) (h : f.frame t types globals = .ok frame) :
    NamingProtocol t f.params (f.visits t types globals) frame := by
  have hframed := FunctionDecl.framed_of_frame h
  have hnumbered := FunctionDecl.numbered_of_frame hids h
  refine {
    call_resolved := fun σ id callee args hv => hframed.granted _ hv
    own_typed := fun σ id type hv => hframed.granted _ hv
    literal_slot := ?_
    call_slot := ?_
    own_slot := ?_
    value_slot_only := ?_
    own_slot_only := ?_
    initials_eq := hnumbered.initials_eq
    locals_eq := FunctionDecl.declared_of_frame h ▸ hnumbered.locals_eq
    slot_unshared := fun _ _ _ => hnumbered.slot_unshared
    slot_used := fun _ => hnumbered.slot_used }
  · intro i id value hget
    exact (hnumbered.value_iff _ _).mpr (.inl (mem_constEntries.mpr ⟨i, value, hget, rfl⟩))
  · intro j id callee args type hget
    exact (hnumbered.value_iff _ _).mpr
      (.inr ⟨callee, args, mem_tempEntries.mpr ⟨j, type, hget, rfl⟩⟩)
  · intro j id declared type hget
    exact (hnumbered.own_iff _ _).mpr ⟨declared, mem_tempEntries.mpr ⟨j, type, hget, rfl⟩⟩
  · intro id c hget
    obtain hconst | ⟨callee, args, htemp⟩ := (hnumbered.value_iff _ _).mp hget
    · obtain ⟨i, value, hi, _⟩ := mem_constEntries.mp hconst
      exact .inl ⟨i, value, hi⟩
    · obtain ⟨j, type, hj, _⟩ := mem_tempEntries.mp htemp
      exact .inr ⟨j, callee, args, type, hj⟩
  · intro id c hget
    obtain ⟨declared, htemp⟩ := (hnumbered.own_iff _ _).mp hget
    obtain ⟨j, type, hj, _⟩ := mem_tempEntries.mp htemp
    exact ⟨j, declared, type, hj⟩

/-- A loop, both storages, nested calls, a constant of the module and two ways out. -/
def countUp : FunctionDecl NodeId where
  name := "countUp"
  params := [⟨"a", .int⟩]
  result := some .int
  body :=
    [.declare 7 .own "x" (.call 6 (.name 0 "plusInt")
       [.name 1 "a", .call 5 (.name 2 "minusInt") [.literal 3 (.int 2), .name 4 "a"]]),
     .loop 17 (.call 11 (.name 8 "isLessInt") [.name 9 "x", .name 10 "limit"])
       [.assign 16 "x" (.call 15 (.name 12 "plusInt") [.name 13 "x", .literal 14 (.int 1)])],
     .branch 29 (.call 21 (.name 18 "isEqualInt") [.name 19 "x", .literal 20 (.int 10)])
       [.declare 23 .shared "y" (.literal 22 (.text "ten")),
        .call 27 (.call 26 (.name 24 "printString") [.name 25 "y"])]
       (some [.leave 28 (some (.name 30 "x"))]),
     .leave 32 (some (.literal 31 (.int 0)))]

def countUpTypes : Table NodeId Ty :=
  Table.empty.insertAll [(7, .int), (16, .int), (23, .string)]

/-- A constant, a struct, two overloads and calls of all kinds of functions. -/
def counting : Module NodeId where
  imports := []
  decls :=
    [.constant ⟨"limit", .int, .literal 40 (.int 10)⟩,
     .struct ⟨"Point", [⟨"x", .int⟩]⟩,
     .function countUp,
     .function ⟨"show", [⟨"n", .int⟩], none,
       [.call 44 (.call 43 (.name 41 "printInt") [.name 42 "n"])]⟩,
     .function ⟨"show", [⟨"p", ⟨"Point", false⟩⟩], none, []⟩,
     .function ⟨"start", [], none,
       [.declare 47 .shared "p" (.call 46 (.name 45 "Point") []),
        .call 51 (.call 50 (.name 48 "show") [.name 49 "p"]),
        .call 57 (.call 56 (.name 52 "show")
          [.call 55 (.name 53 "countUp") [.name 54 "limit"]])]⟩]

theorem countUp_namingProtocol :
    (Stmt.idsAll countUp.body).Nodup ∧
      ∃ frame,
        countUp.frame counting.symbolTable countUpTypes counting.constantScope = .ok frame ∧
        NamingProtocol counting.symbolTable countUp.params
          (countUp.visits counting.symbolTable countUpTypes counting.constantScope) frame := by
  have hids : (Stmt.idsAll countUp.body).Nodup := by decide
  obtain ⟨frame, hframe⟩ := exists_eq_ok
    (x := countUp.frame counting.symbolTable countUpTypes counting.constantScope)
    (by decide +kernel)
  exact ⟨hids, frame, hframe, FunctionDecl.namingProtocol_of_frame hids hframe⟩

end Mis
