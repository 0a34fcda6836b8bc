/-!
Finite tables in which a later entry replaces an earlier one of the same key, so
every key has one entry.
-/
namespace Mis

structure Table (κ α : Type) where
  entries : List (κ × α) := []
deriving Repr

namespace Table

variable {κ α : Type} [DecidableEq κ]

def empty : Table κ α := ⟨[]⟩

def get? (t : Table κ α) (k : κ) : Option α :=
  t.entries.lookup k

def insert (t : Table κ α) (k : κ) (a : α) : Table κ α :=
  ⟨(k, a) :: t.entries.filter (·.1 ≠ k)⟩

def insertAll (t : Table κ α) (as : List (κ × α)) : Table κ α :=
  as.foldl (fun t (k, a) => t.insert k a) t

/-- The number of keys. -/
def size (t : Table κ α) : Nat := t.entries.length

@[simp] theorem get?_empty (k : κ) : (empty : Table κ α).get? k = none := rfl

private theorem lookup_filter_ne (es : List (κ × α)) {k j : κ} (h : j ≠ k) :
    (es.filter (·.1 ≠ k)).lookup j = es.lookup j := by
  induction es with
  | nil => rfl
  | cons e es ih =>
    obtain ⟨i, a⟩ := e
    by_cases hi : i = k
    · have hj : (j == i) = false := by simpa [hi] using h
      rw [List.filter_cons_of_neg (by simpa using hi), List.lookup_cons, hj, ih]
    · rw [List.filter_cons_of_pos (by simpa using hi), List.lookup_cons, List.lookup_cons, ih]

theorem get?_insert (t : Table κ α) (k j : κ) (a : α) :
    (t.insert k a).get? j = if j = k then some a else t.get? j := by
  by_cases h : j = k
  · simp [insert, get?, h]
  · have : (j == k) = false := by simpa using h
    simp only [insert, get?, List.lookup_cons, this, h, if_false]
    exact lookup_filter_ne t.entries h

@[simp] theorem get?_insert_self (t : Table κ α) (k : κ) (a : α) :
    (t.insert k a).get? k = some a := by
  simp [get?_insert]

end Table
end Mis
