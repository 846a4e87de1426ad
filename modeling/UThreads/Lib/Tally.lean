import Mathlib.Logic.Function.Basic
import Mathlib.Data.List.Nodup
import Mathlib.Tactic.Common

/-!
# Tallies

The number of agents of a list at positions with a property, and how it changes when one of them
moves. The list holds each agent once.
-/

variable {α P : Type*} [DecidableEq α]

/-- The number of agents of `l` whose position satisfies `p`. -/
def tally (p : P → Bool) (l : List α) (pos : α → P) : ℕ := l.countP fun a => p (pos a)

namespace tally

variable {p : P → Bool} {l : List α} {pos : α → P} {a : α} {y : P}

omit [DecidableEq α] in
@[simp] theorem cons : tally p (a :: l) pos = tally p l pos + (p (pos a)).toNat := by
  unfold tally
  rw [List.countP_cons]
  cases p (pos a) <;> rfl

omit [DecidableEq α] in
@[simp] theorem concat : tally p (l ++ [a]) pos = tally p l pos + (p (pos a)).toNat := by
  induction l with
  | nil => simp
  | cons b l ih =>
    rw [List.cons_append, cons, ih, cons]
    omega

theorem update_of_not_mem (ha : a ∉ l) : tally p l (Function.update pos a y) = tally p l pos := by
  induction l with
  | nil => rfl
  | cons b l ih =>
    have hb : b ≠ a := by
      rintro rfl
      exact ha List.mem_cons_self
    rw [cons, cons, ih fun hl => ha (List.mem_cons_of_mem _ hl), Function.update_of_ne hb]

/-- Agent `a` moves to `y`. -/
theorem update (hl : l.Nodup) (ha : a ∈ l) :
    tally p l (Function.update pos a y) + (p (pos a)).toNat = tally p l pos + (p y).toNat := by
  induction l with
  | nil => simp at ha
  | cons b l ih =>
    obtain ⟨hb, hl⟩ := List.nodup_cons.mp hl
    rw [cons, cons]
    rcases List.mem_cons.mp ha with rfl | ha
    · rw [update_of_not_mem hb, Function.update_self]
      omega
    · have hne : b ≠ a := by
        rintro rfl
        exact hb ha
      have hi := ih hl ha
      rw [Function.update_of_ne hne]
      omega

/-- A move between positions that are both counted, or both not. -/
theorem update_same (hp : p y = p (pos a)) : tally p l
    (Function.update pos a y) = tally p l pos := by
  induction l with
  | nil => rfl
  | cons b l ih =>
    rw [cons, cons, ih]
    by_cases hb : b = a
    · rw [hb, Function.update_self, hp]
    · rw [Function.update_of_ne hb]

omit [DecidableEq α] in
theorem pos_of_mem (ha : a ∈ l) (hp : p (pos a) = true) : 0 < tally p l pos :=
  List.countP_pos_iff.mpr ⟨a, ha, hp⟩

omit [DecidableEq α] in
theorem mono {q : P → Bool} (h : ∀ x, p x = true → q x = true) : tally p l pos ≤ tally q l pos :=
  List.countP_mono_left fun a _ => h (pos a)

omit [DecidableEq α] in
theorem congr {q : P → Bool} (h : ∀ a, p (pos a) = q (pos a)) : tally p l pos = tally q l pos := by
  unfold tally
  rw [funext h]

end tally
