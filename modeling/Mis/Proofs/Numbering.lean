import Mathlib.Data.List.Perm.Basic
import Mis.Compile
import Mis.Proofs.Labels
import Mis.Proofs.Walk

/-!
The numbers of nodes. A walk in post-order meets the numbers from the first free
one on, each once and without a gap, so the nodes of a module that was read have
distinct numbers.
-/
namespace Mis

section PostOrder

variable {ι : Type}

mutual

/-- The labels of an expression, its parts before itself. -/
def Expr.postOrder : Expr ι → List ι
  | .literal i _ | .name i _ => [i]
  | .call i callee args => Expr.postOrder callee ++ Expr.postOrderAll args ++ [i]

def Expr.postOrderAll : List (Expr ι) → List ι
  | [] => []
  | e :: es => Expr.postOrder e ++ Expr.postOrderAll es

end

mutual

def Stmt.postOrder : Stmt ι → List ι
  | .declare i _ _ e | .assign i _ e | .call i e | .leave i (some e) => e.postOrder ++ [i]
  | .branch i c yes none => c.postOrder ++ Stmt.postOrderAll yes ++ [i]
  | .branch i c yes (some no) =>
    c.postOrder ++ Stmt.postOrderAll yes ++ Stmt.postOrderAll no ++ [i]
  | .loop i c body => c.postOrder ++ Stmt.postOrderAll body ++ [i]
  | .leave i none => [i]

def Stmt.postOrderAll : List (Stmt ι) → List ι
  | [] => []
  | s :: ss => Stmt.postOrder s ++ Stmt.postOrderAll ss

end

def Decl.postOrder : Decl ι → List ι
  | .function f => Stmt.postOrderAll f.body
  | .struct _ => []
  | .constant c => c.init.postOrder

mutual

theorem Expr.perm_postOrder : ∀ e : Expr ι, e.postOrder.Perm e.ids
  | .literal _ _ | .name _ _ => .refl _
  | .call i callee args => by
      have hparts := (Expr.perm_postOrder callee).append (Expr.perm_postOrderAll args)
      exact (List.perm_append_singleton i _).trans (hparts.cons i)

theorem Expr.perm_postOrderAll : ∀ es : List (Expr ι), (Expr.postOrderAll es).Perm (Expr.idsAll es)
  | [] => .refl _
  | e :: es => (Expr.perm_postOrder e).append (Expr.perm_postOrderAll es)

end

mutual

theorem Stmt.perm_postOrder : ∀ s : Stmt ι, s.postOrder.Perm s.ids
  | .declare _ _ _ e | .assign _ _ e | .call _ e | .leave _ (some e) =>
      e.perm_postOrder.append_right _
  | .branch _ c yes none =>
      (c.perm_postOrder.append (Stmt.perm_postOrderAll yes)).append_right _
  | .branch _ c yes (some no) =>
      ((c.perm_postOrder.append (Stmt.perm_postOrderAll yes)).append
        (Stmt.perm_postOrderAll no)).append_right _
  | .loop _ c body => (c.perm_postOrder.append (Stmt.perm_postOrderAll body)).append_right _
  | .leave _ none => .refl _

theorem Stmt.perm_postOrderAll :
    ∀ ss : List (Stmt ι), (Stmt.postOrderAll ss).Perm (Stmt.idsAll ss)
  | [] => .refl _
  | s :: ss => (Stmt.perm_postOrder s).append (Stmt.perm_postOrderAll ss)

end

theorem Decl.perm_postOrder (d : Decl ι) : d.postOrder.Perm d.ids := by
  cases d with
  | function f => exact Stmt.perm_postOrderAll f.body
  | struct s => exact .refl _
  | constant c => exact c.init.perm_postOrder

end PostOrder

/-- The numbers from `n` up to `n'`, in order. -/
def Counts (ids : List NodeId) (n n' : Nat) : Prop :=
  n ≤ n' ∧ ids = List.range' n (n' - n)

namespace Counts

variable {ids more : List NodeId} {n k n' : Nat}

theorem nil (n : Nat) : Counts [] n n := by
  simp [Counts]

theorem append (h : Counts ids n k) (h' : Counts more k n') : Counts (ids ++ more) n n' := by
  obtain ⟨hle, rfl⟩ := h
  obtain ⟨hle', rfl⟩ := h'
  refine ⟨by omega, ?_⟩
  have hlength : n' - n = (k - n) + (n' - k) := by omega
  have hstart : n + (k - n) = k := by omega
  rw [hlength, ← List.range'_append_1, hstart]

theorem concat (h : Counts ids n k) : Counts (ids ++ [k]) n (k + 1) :=
  h.append (by simp [Counts])

end Counts

section Number

variable {ι : Type}

mutual

theorem Expr.counts_number : ∀ (e : Expr ι) (n : Nat),
    Counts (e.number n).1.postOrder n (e.number n).2
  | .literal _ _, n | .name _ _, n => (Counts.nil n).concat
  | .call _ callee args, n =>
      ((Expr.counts_number callee n).append (Expr.counts_numberAll args _)).concat

theorem Expr.counts_numberAll : ∀ (es : List (Expr ι)) (n : Nat),
    Counts (Expr.postOrderAll (Expr.numberAll es n).1) n (Expr.numberAll es n).2
  | [], n => .nil n
  | e :: es, n => (Expr.counts_number e n).append (Expr.counts_numberAll es _)

end

mutual

theorem Stmt.counts_number : ∀ (s : Stmt ι) (n : Nat),
    Counts (s.number n).1.postOrder n (s.number n).2
  | .declare _ _ _ e, n | .assign _ _ e, n | .call _ e, n | .leave _ (some e), n =>
      (e.counts_number n).concat
  | .branch _ c yes none, n =>
      ((c.counts_number n).append (Stmt.counts_numberAll yes _)).concat
  | .branch _ c yes (some no), n =>
      (((c.counts_number n).append (Stmt.counts_numberAll yes _)).append
        (Stmt.counts_numberAll no _)).concat
  | .loop _ c body, n => ((c.counts_number n).append (Stmt.counts_numberAll body _)).concat
  | .leave _ none, n => (Counts.nil n).concat

theorem Stmt.counts_numberAll : ∀ (ss : List (Stmt ι)) (n : Nat),
    Counts (Stmt.postOrderAll (Stmt.numberAll ss n).1) n (Stmt.numberAll ss n).2
  | [], n => .nil n
  | s :: ss, n => (Stmt.counts_number s n).append (Stmt.counts_numberAll ss _)

end

theorem Decl.counts_number (d : Decl ι) (n : Nat) :
    Counts (d.number n).1.postOrder n (d.number n).2 := by
  cases d with
  | function f => exact Stmt.counts_numberAll f.body n
  | struct s => exact .nil n
  | constant c => exact c.init.counts_number n

theorem Decl.counts_numberAll (ds : List (Decl ι)) (n : Nat) :
    Counts ((Decl.numberAll ds n).1.flatMap Decl.postOrder) n (Decl.numberAll ds n).2 := by
  induction ds generalizing n with
  | nil => exact .nil n
  | cons d ds ih => exact (d.counts_number n).append (ih _)

theorem Module.nodup_ids_number (m : Module ι) : m.number.ids.Nodup := by
  have hcounts := Decl.counts_numberAll m.decls 0
  have hperm : (m.number.decls.flatMap Decl.postOrder).Perm m.number.ids :=
    List.Perm.flatMap_left _ fun d _ => d.perm_postOrder
  rw [← hperm.nodup_iff]
  exact hcounts.2 ▸ List.nodup_range'

end Number

theorem nodup_ids_of_read {source : String} {m : Module NodeId} (h : read source = .ok m) :
    m.ids.Nodup := by
  obtain ⟨tokens, _, h⟩ := bind_eq_ok.mp h
  have hparse := mapError_eq_ok.mp h
  rw [parse_eq] at hparse
  cases hmodule : Read.wholeModule (tokens.map (·.value)) with
  | ok tree =>
      rw [hmodule] at hparse
      cases hparse
      exact tree.nodup_ids_number
  | error f =>
      rw [hmodule] at hparse
      cases hparse

end Mis
