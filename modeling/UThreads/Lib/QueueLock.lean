import UThreads.Lib.Machine

/-!
# A lock with a line

The specification of a fair lock: a holder, and a line of those who wait for it in the order in
which they came. The lock goes to the first in line when it is free, and from its holder when it
leaves (`pass`). `granted` lists the holders so far.

The law of the line (`run_line`): those who were granted the lock, followed by those in line, only
ever grow at the end. So whoever is in line gets the lock after those ahead, and nobody else
(`granted_in_turn`).
-/

structure QueueLock (U : Type*) where
  holder : Option U
  line : List U
  granted : List U

namespace QueueLock

variable {U : Type*}

inductive Action (U : Type*)
  | arrive (u : U)
  /-- the first in line gets the free lock -/
  | grant
  /-- the holder leaves, and nobody is in line -/
  | leave
  /-- the holder leaves, and the first in line gets the lock -/
  | pass

/-- The first in line becomes the holder. -/
def advance (s : QueueLock U) : Option (QueueLock U) :=
  s.line.head?.map fun u => ⟨some u, s.line.tail, s.granted ++ [u]⟩

def step [DecidableEq U] (s : QueueLock U) : Action U → Option (QueueLock U)
  | .arrive u =>
    if s.holder ≠ some u ∧ u ∉ s.line then some { s with line := s.line ++ [u] } else none
  | .grant => if s.holder = none then s.advance else none
  | .leave => if s.holder ≠ none ∧ s.line = [] then some { s with holder := none } else none
  | .pass => if s.holder ≠ none then s.advance else none

def machine (U : Type*) [DecidableEq U] : Machine (QueueLock U) (Action U) where
  init s := s = ⟨none, [], []⟩
  step := step

variable [DecidableEq U] {s t : QueueLock U}

omit [DecidableEq U] in
theorem advance_line (hs : s.advance = some t) :
    t.granted ++ t.line = s.granted ++ s.line ∧ s.granted <+: t.granted := by
  obtain ⟨u, hu, rfl⟩ := Option.map_eq_some_iff.mp hs
  obtain ⟨l, hl⟩ := List.head?_eq_some_iff.mp hu
  rw [hl]
  exact ⟨List.append_assoc .., List.prefix_append ..⟩

theorem step_line {a : Action U} (hs : step s a = some t) :
    s.granted ++ s.line <+: t.granted ++ t.line ∧ s.granted <+: t.granted := by
  cases a with
  | arrive u =>
    simp only [step] at hs
    split_ifs at hs
    cases hs
    rw [← List.append_assoc]
    exact ⟨List.prefix_append .., List.prefix_rfl⟩
  | grant | pass =>
    simp only [step] at hs
    split_ifs at hs
    obtain ⟨hline, hgranted⟩ := advance_line hs
    rw [hline]
    exact ⟨List.prefix_rfl, hgranted⟩
  | leave =>
    simp only [step] at hs
    split_ifs at hs
    cases hs
    exact ⟨List.prefix_rfl, List.prefix_rfl⟩

/-- **The law of the line.** -/
theorem run_line {as : List (Action U)} (hr : (machine U).run s as = some t) :
    s.granted ++ s.line <+: t.granted ++ t.line ∧ s.granted <+: t.granted := by
  induction as generalizing s with
  | nil =>
    cases hr
    exact ⟨List.prefix_rfl, List.prefix_rfl⟩
  | cons a as ih =>
    obtain ⟨s', hs, hr⟩ := Option.bind_eq_some_iff.mp hr
    obtain ⟨hline, hgranted⟩ := step_line hs
    obtain ⟨hline', hgranted'⟩ := ih hr
    exact ⟨hline.trans hline', hgranted.trans hgranted'⟩

/-- Whoever has `i` others ahead in line is the `i`-th to be granted the lock from now on, counted
from 0. -/
theorem granted_in_turn {as : List (Action U)} {i : ℕ} {u : U} (hr : (machine U).run s as = some t)
    (hu : s.line[i]? = some u) (hi : s.granted.length + i < t.granted.length) :
    t.granted[s.granted.length + i]? = some u := by
  obtain ⟨l, hl⟩ := (run_line hr).1
  have hleft : (t.granted ++ t.line)[s.granted.length + i]? = t.granted[s.granted.length + i]? :=
    List.getElem?_append_left hi
  have hlen : i < s.line.length := (List.getElem?_eq_some_iff.mp hu).1
  rw [← hleft, ← hl, List.getElem?_append_left (by rw [List.length_append]; omega),
    List.getElem?_append_right (Nat.le_add_right ..), Nat.add_sub_cancel_left]
  exact hu

end QueueLock
