import Mathlib.Algebra.BigOperators.Group.Finset.Basic
import Mathlib.Algebra.Order.BigOperators.Group.Finset

/-!
# Tallies over numbered tasks

The tasks below `n` are somewhere each (`f`), and each place counts for something (`weight`).
`tally_update` says how the sum changes when one task moves.
-/

namespace Vanyline.Lib

variable {α : Type*}

def tally (weight : α → Nat) (n : Nat) (f : Nat → α) : Nat := ∑ i ∈ Finset.range n, weight (f i)

theorem tally_update (weight : α → Nat) {n i : Nat} (hi : i < n) (f : Nat → α) (a : α) :
    tally weight n (Function.update f i a) + weight (f i) = tally weight n f + weight a := by
  have hmem : i ∈ Finset.range n := Finset.mem_range.2 hi
  have hrest : ∑ j ∈ (Finset.range n).erase i, weight (Function.update f i a j) =
      ∑ j ∈ (Finset.range n).erase i, weight (f j) := by
    apply Finset.sum_congr rfl
    intro j hj
    rw [Function.update_of_ne (Finset.ne_of_mem_erase hj)]
  unfold tally
  rw [← Finset.add_sum_erase _ _ hmem, ← Finset.add_sum_erase _ (fun j => weight (f j)) hmem,
    hrest, Function.update_self]
  omega

theorem tally_eq_zero {weight : α → Nat} {n : Nat} {f : Nat → α} (h : ∀ i < n, weight (f i) = 0) :
    tally weight n f = 0 :=
  Finset.sum_eq_zero fun i hi => h i (Finset.mem_range.1 hi)

/-- A set of tasks is no larger than the tally, where each counts for something. -/
theorem card_le_tally {weight : α → Nat} {n : Nat} {f : Nat → α} {tasks : Finset Nat}
    (h : ∀ i ∈ tasks, i < n ∧ 1 ≤ weight (f i)) : tasks.card ≤ tally weight n f := by
  have hsubset : tasks ⊆ Finset.range n := fun i hi => Finset.mem_range.2 (h i hi).1
  calc tasks.card = ∑ _i ∈ tasks, 1 := Finset.card_eq_sum_ones tasks
    _ ≤ ∑ i ∈ tasks, weight (f i) := Finset.sum_le_sum fun i hi => (h i hi).2
    _ ≤ tally weight n f := Finset.sum_le_sum_of_subset hsubset

end Vanyline.Lib
