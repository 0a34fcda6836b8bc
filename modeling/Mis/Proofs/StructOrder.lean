import Mathlib.Data.List.Nodup
import Mis.C.StructOrder
import Mis.Steps

/-!
Struct definitions in order. What has been placed is at every moment a list in
which each struct stands once and behind those it holds, and whoever waits for a
struct contains it. So placing fails only at a struct that contains itself, and
where it succeeds there is none. Since a field means the first struct of its
name, containment can be told from the names alone, and the order in which
structs of different names are given does not matter.
-/
namespace Mis.C

variable {structs : List Struct}

/-- The struct at `i` holds the one at `j` by value. -/
def Holds (structs : List Struct) (i j : Fin structs.length) : Prop :=
  j ∈ heldIndices structs i

/-- Holds directly, or through others. -/
def Contains (structs : List Struct) : Fin structs.length → Fin structs.length → Prop :=
  Relation.TransGen (Holds structs)

/-- Each struct stands once, and behind those it holds. -/
inductive IsOrder (structs : List Struct) : List (Fin structs.length) → Prop
  | nil : IsOrder structs []
  | snoc {placed : List (Fin structs.length)} {i : Fin structs.length} :
      IsOrder structs placed → i ∉ placed → (∀ j ∈ heldIndices structs i, j ∈ placed) →
      IsOrder structs (placed ++ [i])

namespace IsOrder

variable {order : List (Fin structs.length)} {i j : Fin structs.length}

theorem nodup (h : IsOrder structs order) : order.Nodup := by
  induction h with
  | nil => exact List.nodup_nil
  | snoc _ hnew _ ih => exact List.nodup_append_comm.mp (List.nodup_cons.mpr ⟨hnew, ih⟩)

theorem mem_of_holds (h : IsOrder structs order) (hi : i ∈ order) (hij : Holds structs i j) :
    j ∈ order := by
  induction h with
  | nil => cases hi
  | @snoc placed k _ _ hheld ih =>
      rw [List.mem_append, List.mem_singleton] at hi ⊢
      obtain hi | rfl := hi
      · exact .inl (ih hi)
      · exact .inl (hheld j hij)

/-- Once all that `i` holds is placed, so is all that it contains. -/
theorem mem_of_contains (h : IsOrder structs order)
    (hheld : ∀ j ∈ heldIndices structs i, j ∈ order) (hij : Contains structs i j) :
    j ∈ order := by
  induction hij with
  | single hij => exact hheld _ hij
  | tail _ hjk ih => exact h.mem_of_holds ih hjk

/-- A struct that can be placed does not contain itself. -/
theorem not_contains_self (h : IsOrder structs order) (hi : i ∈ order) :
    ¬ Contains structs i i := by
  induction h with
  | nil => cases hi
  | snoc hplaced hnew hheld ih =>
      rw [List.mem_append, List.mem_singleton] at hi
      obtain hi | rfl := hi
      · exact ih hi
      · intro hself
        exact hnew (hplaced.mem_of_contains hheld hself)

end IsOrder

/-- What placing leaves of `placed`: a longer order, without those that wait. -/
structure Extends (structs : List Struct) (path placed after : List (Fin structs.length)) :
    Prop where
  order : IsOrder structs after
  kept : ∀ k ∈ placed, k ∈ after
  waiting : ∀ k ∈ after, k ∈ placed ∨ k ∉ path

section Place

variable {path placed after : List (Fin structs.length)} {i k : Fin structs.length}

theorem Extends.refl (h : IsOrder structs placed) : Extends structs path placed placed :=
  ⟨h, fun _ hk => hk, fun _ hk => .inl hk⟩

theorem Extends.trans {middle : List (Fin structs.length)}
    (h : Extends structs path placed middle) (h' : Extends structs path middle after) :
    Extends structs path placed after where
  order := h'.order
  kept := fun k hk => h'.kept k (h.kept k hk)
  waiting := fun k hk => (h'.waiting k hk).elim (h.waiting k) .inr

/-- If one struct is placed well, so are all of a list. -/
theorem extends_of_foldlM {js : List (Fin structs.length)}
    (hplace : ∀ ps j after, IsOrder structs ps → place structs path ps j = .ok after →
      Extends structs path ps after ∧ j ∈ after)
    (hplaced : IsOrder structs placed) (h : js.foldlM (place structs path) placed = .ok after) :
    Extends structs path placed after ∧ ∀ j ∈ js, j ∈ after := by
  induction js generalizing placed with
  | nil =>
      cases h
      exact ⟨.refl hplaced, by simp⟩
  | cons j js ih =>
      rw [List.foldlM_cons] at h
      obtain ⟨middle, hmiddle, h⟩ := bind_eq_ok.mp h
      obtain ⟨hextends, hj⟩ := hplace placed j middle hplaced hmiddle
      obtain ⟨hrest, hjs⟩ := ih hextends.order h
      exact ⟨hextends.trans hrest, List.forall_mem_cons.mpr ⟨hrest.kept j hj, hjs⟩⟩

theorem extends_of_place (hplaced : IsOrder structs placed)
    (h : place structs path placed i = .ok after) :
    Extends structs path placed after ∧ i ∈ after := by
  fun_induction place structs path placed i generalizing after with
  | case1 path placed i hi =>
      cases h
      exact ⟨.refl hplaced, hi⟩
  | case2 => cases h
  | case3 path placed i hi hpath ih =>
      obtain ⟨middle, hmiddle, h⟩ := bind_eq_ok.mp h
      cases h
      have hplace : ∀ ps j after, IsOrder structs ps → place structs (i :: path) ps j = .ok after →
          Extends structs (i :: path) ps after ∧ j ∈ after := fun ps j after hps h => ih ps j hps h
      obtain ⟨hextends, hheld⟩ := extends_of_foldlM hplace hplaced hmiddle
      -- `i` waits while the structs that it holds are placed
      have hnew : i ∉ middle := fun hmem =>
        (hextends.waiting i hmem).elim hi fun hnot => hnot List.mem_cons_self
      refine ⟨⟨hextends.order.snoc hnew hheld, ?_, ?_⟩, by simp⟩
      · intro k hk
        exact List.mem_append_left _ (hextends.kept k hk)
      · intro k hk
        rw [List.mem_append, List.mem_singleton] at hk
        obtain hk | rfl := hk
        · exact (hextends.waiting k hk).imp_right fun hnot hmem =>
            hnot (List.mem_cons_of_mem _ hmem)
        · exact .inr hpath

theorem exists_of_foldlM_error {ε S A : Type} {step : S → A → Except ε S} {s : S} {as : List A}
    {e : ε} (h : as.foldlM step s = .error e) : ∃ s' a, a ∈ as ∧ step s' a = .error e := by
  induction as generalizing s with
  | nil => cases h
  | cons a as ih =>
      rw [List.foldlM_cons] at h
      obtain h | ⟨s', _, h⟩ := bind_eq_error.mp h
      · exact ⟨s, a, List.mem_cons_self, h⟩
      · obtain ⟨s'', b, hb, hstep⟩ := ih h
        exact ⟨s'', b, List.mem_cons_of_mem _ hb, hstep⟩

/-- Placing stops only at a struct that contains itself. -/
theorem contains_self_of_place (hpath : ∀ p ∈ path, Contains structs p i)
    (h : place structs path placed i = .error k) : Contains structs k k := by
  fun_induction place structs path placed i with
  | case1 => cases h
  | case2 path placed i _ hi =>
      cases h
      exact hpath _ hi
  | case3 path placed i _ _ ih =>
      obtain h | ⟨_, _, h⟩ := bind_eq_error.mp h
      · obtain ⟨ps, j, hj, hplace⟩ := exists_of_foldlM_error h
        refine ih ps j ?_ hplace
        intro p hp
        obtain rfl | hp := List.mem_cons.mp hp
        · exact .single hj
        · exact (hpath p hp).tail hj
      · cases h

end Place

theorem definitionOrder_eq_ok {ordered : List Struct} (h : definitionOrder structs = .ok ordered) :
    ∃ order, IsOrder structs order ∧ (∀ i, i ∈ order) ∧ ordered = order.map structs.get := by
  rw [definitionOrder] at h
  split at h
  · rename_i order horder
    have hplace : ∀ ps j after, IsOrder structs ps → place structs [] ps j = .ok after →
        Extends structs [] ps after ∧ j ∈ after := fun _ _ _ hps hj => extends_of_place hps hj
    obtain ⟨hextends, hall⟩ := extends_of_foldlM hplace .nil horder
    exact ⟨order, hextends.order, fun i => hall i (List.mem_finRange i), (Except.ok.inj h).symm⟩
  · cases h

/-- Ordering loses no struct and adds none. -/
theorem perm_of_definitionOrder {ordered : List Struct}
    (h : definitionOrder structs = .ok ordered) : ordered.Perm structs := by
  obtain ⟨order, horder, hall, rfl⟩ := definitionOrder_eq_ok h
  have hindices : order.Perm (List.finRange structs.length) := by
    rw [List.perm_ext_iff_of_nodup horder.nodup (List.nodup_finRange _)]
    intro i
    exact ⟨fun _ => List.mem_finRange i, fun _ => hall i⟩
  have hstructs := hindices.map structs.get
  exact hstructs.trans (List.Perm.of_eq (List.map_get_finRange structs))

/-- There is an order exactly if no struct contains itself. -/
theorem exists_definitionOrder_iff :
    (∃ ordered, definitionOrder structs = .ok ordered) ↔ ∀ i, ¬ Contains structs i i := by
  constructor
  · intro h i
    obtain ⟨ordered, h⟩ := h
    obtain ⟨order, horder, hall, _⟩ := definitionOrder_eq_ok h
    exact horder.not_contains_self (hall i)
  · intro h
    rw [definitionOrder]
    split
    · exact ⟨_, rfl⟩
    · rename_i k herror
      obtain ⟨placed, i, _, hplace⟩ := exists_of_foldlM_error herror
      exact absurd (contains_self_of_place (by simp) hplace) (h k)

/-! Containment by names. -/

/-- The first struct of a name. -/
def firstIndex? (structs : List Struct) (x : String) : Option (Fin structs.length) :=
  structs.findFinIdx? (·.name = x)

/-- The first struct named `x` holds the first one named `y`. -/
def HoldsNamed (structs : List Struct) (x y : String) : Prop :=
  ∃ s, structs.find? (·.name = x) = some s ∧ ∃ f ∈ s.fields, f.type.isPointer = false ∧
    f.type.name = y ∧ (structs.find? (·.name = y)).isSome

section Names

variable {i j : Fin structs.length} {x y : String}

theorem find?_eq_map_firstIndex? (structs : List Struct) (x : String) :
    structs.find? (·.name = x) = (firstIndex? structs x).map structs.get := by
  cases h : firstIndex? structs x with
  | none =>
      rw [firstIndex?, List.findFinIdx?_eq_none_iff] at h
      exact List.find?_eq_none.mpr h
  | some i =>
      obtain ⟨hi, hbefore⟩ := List.findFinIdx?_eq_some_iff.mp h
      refine List.find?_eq_some_iff_getElem.mpr ⟨hi, i, i.isLt, rfl, ?_⟩
      intro j hj
      have hnot := hbefore ⟨j, Nat.lt_trans hj i.isLt⟩ hj
      simpa using hnot

theorem name_of_firstIndex? (h : firstIndex? structs x = some i) : (structs.get i).name = x := by
  obtain ⟨hi, _⟩ := List.findFinIdx?_eq_some_iff.mp h
  exact of_decide_eq_true hi

theorem heldIndex?_eq (t : Ty) :
    heldIndex? structs t = if t.isPointer then none else firstIndex? structs t.name := by
  rw [heldIndex?, firstIndex?]
  cases t.isPointer with
  | true => simp
  | false => simp

theorem holds_iff :
    Holds structs i j ↔ ∃ f ∈ (structs.get i).fields, f.type.isPointer = false ∧
      firstIndex? structs f.type.name = some j := by
  simp only [Holds, heldIndices, List.mem_filterMap, heldIndex?_eq]
  refine exists_congr fun f => and_congr_right fun _ => ?_
  cases f.type.isPointer <;> simp

theorem firstIndex?_of_holds (h : Holds structs i j) :
    firstIndex? structs (structs.get j).name = some j := by
  obtain ⟨f, _, _, hfirst⟩ := holds_iff.mp h
  rw [name_of_firstIndex? hfirst, hfirst]

theorem holdsNamed_iff :
    HoldsNamed structs x y ↔ ∃ i j, firstIndex? structs x = some i ∧
      firstIndex? structs y = some j ∧ Holds structs i j := by
  simp only [HoldsNamed, find?_eq_map_firstIndex?, holds_iff]
  constructor
  · intro h
    obtain ⟨s, hs, f, hf, hpointer, rfl, hsome⟩ := h
    obtain ⟨i, hi, rfl⟩ := Option.map_eq_some_iff.mp hs
    obtain ⟨j, hj⟩ := Option.isSome_iff_exists.mp (Option.isSome_map ▸ hsome)
    exact ⟨i, j, hi, hj, f, hf, hpointer, hj⟩
  · intro h
    obtain ⟨i, j, hi, hj, f, hf, hpointer, hfirst⟩ := h
    have hname : f.type.name = y := by
      rw [← name_of_firstIndex? hfirst, name_of_firstIndex? hj]
    exact ⟨structs.get i, by rw [hi]; rfl, f, hf, hpointer, hname, by rw [hj]; rfl⟩

theorem firstIndex?_of_contains (h : Contains structs i j) :
    firstIndex? structs (structs.get j).name = some j := by
  cases h with
  | single hij => exact firstIndex?_of_holds hij
  | tail _ hkj => exact firstIndex?_of_holds hkj

theorem containsNamed_of_contains (hi : firstIndex? structs (structs.get i).name = some i)
    (h : Contains structs i j) :
    Relation.TransGen (HoldsNamed structs) (structs.get i).name (structs.get j).name := by
  induction h with
  | single hij => exact .single (holdsNamed_iff.mpr ⟨_, _, hi, firstIndex?_of_holds hij, hij⟩)
  | tail hij hjk ih =>
      have hj := firstIndex?_of_contains hij
      exact ih.tail (holdsNamed_iff.mpr ⟨_, _, hj, firstIndex?_of_holds hjk, hjk⟩)

theorem contains_of_containsNamed (h : Relation.TransGen (HoldsNamed structs) x y) :
    ∃ i j, firstIndex? structs x = some i ∧ firstIndex? structs y = some j ∧
      Contains structs i j := by
  induction h with
  | single hxy =>
      obtain ⟨i, j, hi, hj, hij⟩ := holdsNamed_iff.mp hxy
      exact ⟨i, j, hi, hj, .single hij⟩
  | tail _ hyz ih =>
      obtain ⟨i, j, hi, hj, hij⟩ := ih
      obtain ⟨j', k, hj', hk, hjk⟩ := holdsNamed_iff.mp hyz
      rw [hj] at hj'
      cases hj'
      exact ⟨i, k, hi, hk, hij.tail hjk⟩

theorem exists_contains_self_iff :
    (∃ i, Contains structs i i) ↔ ∃ x, Relation.TransGen (HoldsNamed structs) x x := by
  constructor
  · intro h
    obtain ⟨i, h⟩ := h
    exact ⟨_, containsNamed_of_contains (firstIndex?_of_contains h) h⟩
  · intro h
    obtain ⟨x, h⟩ := h
    obtain ⟨i, j, hi, hj, hij⟩ := contains_of_containsNamed h
    rw [hi] at hj
    cases hj
    exact ⟨i, hij⟩

end Names

/-- Whether there is an order depends only on the first struct of each name. -/
theorem exists_definitionOrder_congr {structs structs' : List Struct}
    (h : ∀ x, structs'.find? (·.name = x) = structs.find? (·.name = x)) :
    (∃ ordered, definitionOrder structs' = .ok ordered) ↔
      ∃ ordered, definitionOrder structs = .ok ordered := by
  have hholds : HoldsNamed structs' = HoldsNamed structs := by
    funext x y
    simp only [HoldsNamed, h]
  rw [exists_definitionOrder_iff, exists_definitionOrder_iff, ← not_exists, ← not_exists,
    exists_contains_self_iff, exists_contains_self_iff, hholds]

end Mis.C
