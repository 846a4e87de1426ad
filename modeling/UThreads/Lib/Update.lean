import Mathlib.Logic.Function.Basic

/-!
# Updates at one index

What an update of a function at one index leaves alone.
-/

namespace Update

/-- An update at `i` touches neither side of an equivalence that does not hold there. -/
theorem eq_iff {ι β : Type*} [DecidableEq ι] {f : ι → β} {i j : ι} {v w : β} {Q : Prop}
    (h : f j = w ↔ Q) (hold : f i ≠ w) (hnew : v ≠ w) : Function.update f i v j = w ↔ Q := by
  by_cases hj : j = i
  · subst hj
    rw [Function.update_self, ← h]
    exact iff_of_false hnew hold
  · rw [Function.update_of_ne hj, h]

/-- A projection that the update keeps. -/
theorem apply_same {ι α β : Type*} [DecidableEq ι] {f : α → β} {g : ι → α} {i : ι} {x : α}
    (hx : f x = f (g i)) (j : ι) : f (Function.update g i x j) = f (g j) := by
  by_cases hj : j = i
  · subst hj; rw [Function.update_self, hx]
  · rw [Function.update_of_ne hj]

/-- Keys that belong to one index each still do when no index but `c` gets one, and `c` gets none of
the others'. -/
theorem one_index {ι κ : Type*} {P Q : ι → κ → Prop} {c : ι} (h : ∀ i j k, P i k → P j k → i = j)
    (hother : ∀ i k, i ≠ c → Q i k → P i k) (hnew : ∀ i k, i ≠ c → Q c k → ¬P i k) (i j : ι) (k : κ)
    (hi : Q i k) (hj : Q j k) : i = j := by
  by_cases hic : i = c
  · subst hic
    by_contra hne
    exact hnew j k (Ne.symm hne) hi (hother j k (Ne.symm hne) hj)
  · by_cases hjc : j = c
    · subst hjc
      exact absurd (hother i k hic hi) (hnew i k hic hj)
    · exact h i j k (hother i k hic hi) (hother j k hjc hj)

end Update
