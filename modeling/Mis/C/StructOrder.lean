import Mis.C.Program

/-!
An order of struct definitions in which every struct stands after those it holds
by value, as C needs. A struct is placed once those of its fields are; the given
order is kept where it already fits. A struct that holds itself, directly or
through others, has no place.
-/
namespace Mis.C

/-- The struct that a field of type `t` holds by value: the first of that name. -/
def heldIndex? (structs : List Struct) (t : Ty) : Option (Fin structs.length) :=
  structs.findFinIdx? fun s => s.name = t.name && !t.isPointer

/-- The structs that the one at `i` holds by value, in the order of its fields. -/
def heldIndices (structs : List Struct) (i : Fin structs.length) : List (Fin structs.length) :=
  structs[i].fields.filterMap fun f => heldIndex? structs f.type

/-- How many indices are not on `path`: each step along a path leaves fewer. -/
def offPath (n : Nat) (path : List (Fin n)) : Nat :=
  ((List.finRange n).filter (· ∉ path)).length

theorem offPath_cons_lt {n : Nat} {path : List (Fin n)} {i : Fin n} (h : i ∉ path) :
    offPath n (i :: path) < offPath n path := by
  have hsplit : (List.finRange n).filter (· ∉ i :: path) =
      ((List.finRange n).filter (· ∉ path)).filter (· ≠ i) := by
    rw [List.filter_filter]
    congr 1
    funext j
    simp
  rw [offPath, offPath, hsplit, List.length_filter_lt_length_iff_exists]
  exact ⟨i, by simpa using h, by simp⟩

/-- Places the struct at `i` and all it holds behind `placed`. The structs on `path`
are waiting for it; meeting one of them again closes a circle, at that struct. -/
def place (structs : List Struct) (path placed : List (Fin structs.length))
    (i : Fin structs.length) : Except (Fin structs.length) (List (Fin structs.length)) :=
  if i ∈ placed then .ok placed
  else if _h : i ∈ path then .error i
  else do
    let placed ← (heldIndices structs i).foldlM (fun ps j => place structs (i :: path) ps j) placed
    .ok (placed ++ [i])
termination_by offPath structs.length path
decreasing_by exact offPath_cons_lt _h

/-- The structs in an order that C accepts, or one that holds itself. -/
def definitionOrder (structs : List Struct) : Except Struct (List Struct) :=
  match (List.finRange structs.length).foldlM (place structs []) [] with
  | .ok order => .ok (order.map fun i => structs[i])
  | .error i => .error structs[i]

end Mis.C
