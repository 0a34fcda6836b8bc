import Mathlib.Data.List.NodupEquivFin
import Mis.Proofs.Program
import Mis.Proofs.StructOrder

/-!
The order of struct definitions as C sees it. A field by value needs the first
struct of its type's name, and that struct comes out earlier; a list that is in
order already comes out as it is. Ordering fails exactly if some struct needs
itself, directly or through others, and names such a struct. The structs that
wait for one another are distinct, so the search is never deeper than the list
is long.
-/
namespace Mis.C

variable {structs : List Struct}

/-- The struct at `j` is the first one named `x`. -/
def IsFirst (structs : List Struct) (x : String) (j : Fin structs.length) : Prop :=
  (structs.get j).name = x ∧ ∀ k < j, (structs.get k).name ≠ x

/-- C has to know the struct at `j` before the one at `i`: a field of `i` holds it by value. -/
def Needs (structs : List Struct) (i j : Fin structs.length) : Prop :=
  ∃ f ∈ (structs.get i).fields, f.type.isPointer = false ∧ IsFirst structs f.type.name j

theorem firstIndex?_eq_some_iff {x : String} {j : Fin structs.length} :
    firstIndex? structs x = some j ↔ IsFirst structs x j := by
  simp only [firstIndex?, List.findFinIdx?_eq_some_iff, IsFirst, decide_eq_true_eq]
  rfl

theorem holds_eq_needs : Holds structs = Needs structs := by
  funext i j
  simp only [holds_iff, Needs, firstIndex?_eq_some_iff]

theorem contains_iff {i j : Fin structs.length} :
    Contains structs i j ↔ Relation.TransGen (Needs structs) i j := by
  rw [Contains, holds_eq_needs]

/-! Positions in an order. -/

theorem IsOrder.idxOf_lt {order : List (Fin structs.length)} {i j : Fin structs.length}
    (h : IsOrder structs order) (hi : i ∈ order) (hij : Holds structs i j) :
    order.idxOf j < order.idxOf i := by
  induction h with
  | nil => cases hi
  | @snoc placed k hplaced hnew hheld ih =>
      rw [List.mem_append, List.mem_singleton] at hi
      obtain hi | rfl := hi
      · have hj := hplaced.mem_of_holds hi hij
        rw [List.idxOf_append_of_mem hi, List.idxOf_append_of_mem hj]
        exact ih hi
      · have hj := hheld j hij
        rw [List.idxOf_append_of_mem hj, List.idxOf_append_of_notMem hnew]
        exact Nat.lt_add_right _ (List.idxOf_lt_length_of_mem hj)

/-- Where each struct of the input stands in the result. -/
theorem exists_position {ordered : List Struct} (h : definitionOrder structs = .ok ordered) :
    ∃ position : Fin structs.length ≃ Fin ordered.length,
      (∀ i, ordered.get (position i) = structs.get i) ∧
      ∀ i j, Holds structs i j → position j < position i := by
  obtain ⟨order, horder, hall, rfl⟩ := definitionOrder_eq_ok h
  let listed := horder.nodup.getEquivOfForallMemList order hall
  refine ⟨listed.symm.trans (finCongr (List.length_map _).symm), ?_, ?_⟩
  · intro i
    have hi : order.get (listed.symm i) = i := listed.apply_symm_apply i
    simp only [Equiv.trans_apply, List.get_eq_getElem, List.getElem_map] at hi ⊢
    exact congrArg structs.get hi
  · intro i j hij
    exact horder.idxOf_lt (hall i) hij

/-! A list that is in order. -/

section Sorted

variable {path placed js : List (Fin structs.length)}

theorem foldlM_place_of_mem (h : ∀ j ∈ js, j ∈ placed) :
    js.foldlM (place structs path) placed = .ok placed := by
  induction js with
  | nil => rfl
  | cons j js ih =>
      have hj : place structs path placed j = .ok placed := by
        rw [place, if_pos (h j List.mem_cons_self)]
      rw [List.foldlM_cons, hj]
      exact ih fun k hk => h k (List.mem_cons_of_mem _ hk)

/-- A struct whose fields are placed comes next. -/
theorem place_of_held {i : Fin structs.length} (hnew : i ∉ placed) (hpath : i ∉ path)
    (hheld : ∀ j ∈ heldIndices structs i, j ∈ placed) :
    place structs path placed i = .ok (placed ++ [i]) := by
  rw [place, if_neg hnew, dif_neg hpath, foldlM_place_of_mem hheld]
  rfl

theorem foldlM_place_of_sorted (hlt : ∀ i ∈ js, ∀ k ∈ placed, k < i)
    (hheld : ∀ i j, Holds structs i j → j < i)
    (hall : ∀ i, i ∈ placed ∨ i ∈ js) (hjs : js.Pairwise (· < ·)) :
    js.foldlM (place structs []) placed = .ok (placed ++ js) := by
  induction js generalizing placed with
  | nil => rw [List.append_nil]; rfl
  | cons i js ih =>
      obtain ⟨hi, hjs⟩ := List.pairwise_cons.mp hjs
      have hnew : i ∉ placed := fun hmem => lt_irrefl i (hlt i List.mem_cons_self i hmem)
      have hplaced : ∀ j ∈ heldIndices structs i, j ∈ placed := by
        intro j hj
        have hji := hheld i j hj
        refine (hall j).resolve_right fun hmem => ?_
        obtain rfl | hmem := List.mem_cons.mp hmem
        · exact lt_irrefl _ hji
        · exact lt_asymm hji (hi j hmem)
      rw [List.foldlM_cons, place_of_held hnew List.not_mem_nil hplaced]
      have hrest := @ih (placed ++ [i]) ?_ ?_ hjs
      · rw [List.append_assoc] at hrest
        exact hrest
      · intro k hk j hj
        rw [List.mem_append, List.mem_singleton] at hj
        obtain hj | rfl := hj
        · exact hlt k (List.mem_cons_of_mem _ hk) j hj
        · exact hi k hk
      · intro k
        have hk := hall k
        simp only [List.mem_append, List.mem_cons, List.not_mem_nil, or_false] at hk ⊢
        tauto

theorem definitionOrder_of_sorted (h : ∀ i j, Holds structs i j → j < i) :
    definitionOrder structs = .ok structs := by
  have horder : (List.finRange structs.length).foldlM (place structs []) [] =
      .ok (List.finRange structs.length) :=
    foldlM_place_of_sorted (by simp) h (fun i => .inr (List.mem_finRange i))
      (List.pairwise_lt_finRange _)
  rw [definitionOrder, horder]
  exact congrArg Except.ok (List.map_get_finRange structs)

end Sorted

/-! How deep the search goes. -/

/-- `place` with at most `depth` calls inside one another. It gives no answer if
these do not suffice. -/
def placeWithin (structs : List Struct) :
    Nat → List (Fin structs.length) → List (Fin structs.length) → Fin structs.length →
      ExceptT (Fin structs.length) Option (List (Fin structs.length))
  | 0, _, _, _ => ExceptT.mk none
  | depth + 1, path, placed, i =>
    if placed.contains i then pure placed
    else if path.contains i then throw i
    else do
      let placed ← (heldIndices structs i).foldlM (placeWithin structs depth (i :: path)) placed
      pure (placed ++ [i])

section Depth

variable {ε σ α : Type}

theorem run_foldlM {f : σ → α → ExceptT ε Option σ} {g : σ → α → Except ε σ}
    (h : ∀ s a, (f s a).run = some (g s a)) (s : σ) (as : List α) :
    (as.foldlM f s).run = some (as.foldlM g s) := by
  induction as generalizing s with
  | nil => rfl
  | cons a as ih =>
      rw [List.foldlM_cons, List.foldlM_cons, ExceptT.run_bind, h s a]
      cases g s a with
      | error e => rfl
      | ok s' => exact ih s'

theorem run_placeWithin {depth : Nat} {path : List (Fin structs.length)}
    (hdepth : offPath structs.length path < depth) (placed : List (Fin structs.length))
    (i : Fin structs.length) :
    (placeWithin structs depth path placed i).run = some (place structs path placed i) := by
  induction depth generalizing path placed i with
  | zero => omega
  | succ depth ih =>
      simp only [placeWithin, List.contains_iff_mem]
      rw [place]
      by_cases hplaced : i ∈ placed
      · rw [if_pos hplaced, if_pos hplaced]
        rfl
      rw [if_neg hplaced, if_neg hplaced]
      by_cases hpath : i ∈ path
      · rw [if_pos hpath, dif_pos hpath]
        rfl
      rw [if_neg hpath, dif_neg hpath, ExceptT.run_bind]
      -- `i` joins the path, so fewer structs are off it
      have hless : offPath structs.length (i :: path) < depth := by
        have := offPath_cons_lt hpath
        omega
      rw [run_foldlM (fun ps j => ih hless ps j)]
      cases (heldIndices structs i).foldlM (place structs (i :: path)) placed with
      | error e => rfl
      | ok placed => rfl

theorem offPath_le (n : Nat) (path : List (Fin n)) : offPath n path ≤ n := by
  have h := List.length_filter_le (fun i => decide (i ∉ path)) (List.finRange n)
  rwa [List.length_finRange] at h

end Depth

end Mis.C

namespace Mis

open C

variable {structs : List C.Struct}

theorem contains_self_of_orderDefinitions {e : GenerateError}
    (h : orderDefinitions structs = .error e) :
    ∃ i, e = .recursiveStruct (structs.get i).name ∧ Contains structs i i := by
  rw [orderDefinitions, definitionOrder] at h
  cases horder : (List.finRange structs.length).foldlM (place structs []) [] with
  | ok order =>
      rw [horder] at h
      cases h
  | error i =>
      rw [horder] at h
      cases h
      obtain ⟨placed, j, _, hplace⟩ := exists_of_foldlM_error horder
      exact ⟨i, rfl, contains_self_of_place (by simp) hplace⟩

/-- Every struct comes out once, behind those it needs, and nothing moves without need. -/
theorem orderDefinitions_sorts (structs : List C.Struct) :
    (∀ ordered, orderDefinitions structs = .ok ordered →
      ∃ position : Fin structs.length ≃ Fin ordered.length,
        (∀ i, ordered.get (position i) = structs.get i) ∧
        ∀ i j, Needs structs i j → position j < position i) ∧
    ((∀ i j, Needs structs i j → j < i) → orderDefinitions structs = .ok structs) := by
  rw [← holds_eq_needs]
  constructor
  · intro ordered h
    exact exists_position (orderDefinitions_eq_ok.mp h)
  · intro h
    exact orderDefinitions_eq_ok.mpr (definitionOrder_of_sorted h)

-- a pointer needs nothing, and of two structs of one name each keeps its place
example :
    orderDefinitions
        [⟨"Line", [⟨"from", ⟨"Point", false⟩⟩, ⟨"next", ⟨"Line", true⟩⟩]⟩,
          ⟨"Point", [⟨"x", ⟨"Int", false⟩⟩]⟩, ⟨"Line", []⟩] =
      .ok [⟨"Point", [⟨"x", ⟨"Int", false⟩⟩]⟩,
          ⟨"Line", [⟨"from", ⟨"Point", false⟩⟩, ⟨"next", ⟨"Line", true⟩⟩]⟩, ⟨"Line", []⟩] := by
  cbv

/-- There is no order exactly if a struct needs itself, and the error names one that does. -/
theorem orderDefinitions_fails_iff (structs : List C.Struct) :
    (∀ path placed i, (placeWithin structs (structs.length + 1) path placed i).run =
      some (place structs path placed i)) ∧
    ((∃ e, orderDefinitions structs = .error e) ↔ ∃ i, Relation.TransGen (Needs structs) i i) ∧
    ∀ e, orderDefinitions structs = .error e →
      ∃ i, e = .recursiveStruct (structs.get i).name ∧ Relation.TransGen (Needs structs) i i := by
  simp only [← contains_iff]
  refine ⟨?_, ⟨?_, ?_⟩, ?_⟩
  · intro path placed i
    exact run_placeWithin (Nat.lt_succ_of_le (offPath_le _ path)) placed i
  · intro h
    obtain ⟨e, h⟩ := h
    obtain ⟨i, _, hself⟩ := contains_self_of_orderDefinitions h
    exact ⟨i, hself⟩
  · intro h
    obtain ⟨i, hself⟩ := h
    cases horder : orderDefinitions structs with
    | error e => exact ⟨e, rfl⟩
    | ok ordered =>
        have hsome := exists_definitionOrder_iff.mp ⟨ordered, orderDefinitions_eq_ok.mp horder⟩
        exact absurd hself (hsome i)
  · intro e h
    exact contains_self_of_orderDefinitions h

example :
    orderDefinitions [⟨"A", [⟨"b", ⟨"B", false⟩⟩]⟩, ⟨"B", [⟨"a", ⟨"A", false⟩⟩]⟩] =
      .error (.recursiveStruct "A") := by
  cbv

end Mis
