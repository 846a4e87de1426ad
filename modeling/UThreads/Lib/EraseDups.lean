import Mathlib.Data.List.Basic
import Mathlib.Logic.Function.Basic

/-!
# First occurrences

`List.eraseDups` keeps the first occurrence of each element. What a partial function gives on the
first occurrences is found one element at a time: an element that has been seen gives nothing more.
-/

variable {α β : Type*} [BEq α] [LawfulBEq α]

theorem eraseDups_filter (p : α → Bool) (l : List α) :
    (l.filter p).eraseDups = l.eraseDups.filter p := by
  -- The recursion of `eraseDups` removes the head from the tail, so the induction is on the length.
  induction hn : l.length using Nat.strongRecOn generalizing l with
  | ind n ih =>
    cases l with
    | nil => rfl
    | cons a l =>
      have hlen : (l.filter fun b => !b == a).length < n := by
        have hle := List.length_filter_le (fun b => !b == a) l
        rw [List.length_cons] at hn
        omega
      have hrest := ih _ hlen _ rfl
      by_cases ha : p a = true
      · rw [List.filter_cons_of_pos ha, List.eraseDups_cons, List.eraseDups_cons,
          List.filter_cons_of_pos ha, ← hrest, List.filter_filter, List.filter_filter]
        simp only [Bool.and_comm]
      · rw [List.filter_cons_of_neg ha, List.eraseDups_cons, List.filter_cons_of_neg ha, ← hrest,
          List.filter_filter]
        congr 1
        refine List.filter_congr fun b _ => ?_
        by_cases hb : b = a
        · simp [hb, ha]
        · simp [hb]

/-- The first occurrences in `x :: l`: `x`, and then those of `l` with `x` giving nothing. -/
theorem filterMap_eraseDups_cons [DecidableEq α] (f : α → Option β) (x : α) (l : List α) :
    (x :: l).eraseDups.filterMap f =
      (f x).toList ++ l.eraseDups.filterMap (Function.update f x none) := by
  have hrest : l.eraseDups.filterMap (Function.update f x none) =
      (l.filter fun b => !b == x).eraseDups.filterMap f := by
    rw [eraseDups_filter, List.filterMap_filter]
    refine List.filterMap_congr fun b _ => ?_
    by_cases hb : b = x
    · simp [hb]
    · simp [hb]
  rw [List.eraseDups_cons, hrest]
  cases hx : f x <;> simp [hx]
