import Mathlib.Algebra.BigOperators.Group.Finset.Basic
import Mathlib.Algebra.BigOperators.Group.Finset.Piecewise
import Mathlib.Algebra.Order.BigOperators.Group.Finset
import Mathlib.Data.Fintype.Basic

/-!
# The number of elements of a finite family of lists

How it changes when one of the lists does.
-/

variable {ι α : Type*} [Fintype ι]

/-- The number of elements of all lists. -/
def total (f : ι → List α) : ℕ := ∑ i, (f i).length

theorem total_update [DecidableEq ι] (f : ι → List α) (i : ι) (l : List α) :
    total (Function.update f i l) + (f i).length = total f + l.length := by
  have hrest : ∀ g : ι → List α,
      ∑ j, (g j).length = (g i).length + ∑ j ∈ Finset.univ.erase i, (g j).length :=
    fun g => (Finset.add_sum_erase _ _ (Finset.mem_univ i)).symm
  have hsame : ∑ j ∈ Finset.univ.erase i, (Function.update f i l j).length =
      ∑ j ∈ Finset.univ.erase i, (f j).length := by
    refine Finset.sum_congr rfl fun j hj => ?_
    rw [Function.update_of_ne (Finset.ne_of_mem_erase hj)]
  unfold total
  rw [hrest, hrest f, hsame, Function.update_self]
  omega

theorem total_eq_zero_iff {f : ι → List α} : total f = 0 ↔ ∀ i, f i = [] := by
  simp [total]
