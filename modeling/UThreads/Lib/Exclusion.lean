import Mathlib.Logic.Function.Basic
import Mathlib.Tactic.Common
import UThreads.Lib.Update

/-!
# Mutual exclusion

A flag or a lock without an owner, and the threads that are inside the section that it protects.
`Excludes inside flag` says that at most one thread is inside, and that the flag is set while one
is.

* `Excludes.enter`: a thread that finds the flag clear sets it and goes inside.
* `Excludes.leave`: the thread that is inside clears it and goes out.
* `Excludes.frame`: nobody goes in or out.

`Locked holds flags` is the same for a family of locks, of which a thread has one at a time.
-/

variable {T : Type*}

/-- At most one thread is inside, and the flag says whether one is. -/
structure Excludes (inside : T → Prop) (flag : Bool) : Prop where
  one : ∀ ⦃t t'⦄, inside t → inside t' → t = t'
  flag : flag = true ↔ ∃ t, inside t

namespace Excludes

variable {inside inside' : T → Prop} {flag : Bool} {t x : T}

theorem frame (h : Excludes inside flag) (hx : ∀ x, inside' x ↔ inside x) :
    Excludes inside' flag := by
  have he : inside' = inside := funext fun x => propext (hx x)
  rw [he]
  exact h

theorem nobody (h : Excludes inside false) (x : T) : ¬inside x := by
  intro hx
  exact Bool.false_ne_true (h.flag.mpr ⟨x, hx⟩)

theorem enter (h : Excludes inside false) (ht : inside' t)
    (hx : ∀ x, x ≠ t → (inside' x ↔ inside x)) : Excludes inside' true := by
  have honly : ∀ x, inside' x → x = t := by
    intro x hin
    by_contra hne
    exact h.nobody x ((hx x hne).mp hin)
  refine ⟨fun x x' hin hin' => ?_, iff_of_true rfl ⟨t, ht⟩⟩
  rw [honly x hin, honly x' hin']

theorem leave (h : Excludes inside flag) (ht : inside t) (hout : ¬inside' t)
    (hx : ∀ x, x ≠ t → (inside' x ↔ inside x)) : Excludes inside' false := by
  have hnone : ∀ x, ¬inside' x := by
    intro x hin
    have hne : x ≠ t := by
      rintro rfl
      exact hout hin
    exact hne (h.one ((hx x hne).mp hin) ht)
  exact ⟨fun x _ hin => absurd hin (hnone x), iff_of_false Bool.false_ne_true fun ⟨x, hin⟩ =>
    hnone x hin⟩

end Excludes

/-! ## A family of locks -/

/-- `holds t` is the lock that thread `t` has, and `flags k` says whether lock `k` is taken. -/
def Locked {K : Type*} (holds : T → Option K) (flags : K → Bool) : Prop :=
  ∀ k, Excludes (fun t => holds t = some k) (flags k)

namespace Locked

variable {K : Type*} [DecidableEq T] [DecidableEq K] {holds : T → Option K} {flags : K → Bool}
  {t : T} {k : K}

theorem lock (h : Locked holds flags) (ht : holds t = none) (hk : flags k = false) :
    Locked (Function.update holds t (some k)) (Function.update flags k true) := by
  intro j
  by_cases hj : j = k
  · subst hj
    have hfree := h j
    rw [hk] at hfree
    rw [Function.update_self]
    exact hfree.enter (t := t) (Function.update_self ..) fun x hx => by
      rw [Function.update_of_ne hx]
  · rw [Function.update_of_ne hj]
    exact (h j).frame fun x => Update.eq_iff Iff.rfl (by simp [ht]) (by simpa using Ne.symm hj)

theorem unlock (h : Locked holds flags) (ht : holds t = some k) :
    Locked (Function.update holds t none) (Function.update flags k false) := by
  intro j
  by_cases hj : j = k
  · subst hj
    rw [Function.update_self]
    exact (h j).leave (t := t) ht (by simp) fun x hx => by rw [Function.update_of_ne hx]
  · rw [Function.update_of_ne hj]
    exact (h j).frame fun x => Update.eq_iff Iff.rfl (by simpa [ht] using Ne.symm hj) (by simp)

end Locked
