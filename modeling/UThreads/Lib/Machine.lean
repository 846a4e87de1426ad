import Mathlib.Tactic.Common

/-!
# Machines

A machine has initial states and a partial step function: in a state, an action is either not
enabled (`none`) or leads to one next state. All interleavings of a concurrent system are the
runs of its machine, with the actions chosen freely.

* `ReachableBy c`: the states reached by runs all of whose steps satisfy `c`.
* `Reachable`: the states reached by any run.
* `ReachableBy.invariant`: what holds initially and is kept by every step holds in every state.
* `Reachable.map`: a projection that turns steps into steps maps reachable to reachable states.
* `StuckBy step p`: no action that satisfies `p` is enabled. With a system its part is stuck
  (`StuckBy.part`).
-/

/-- Initial states, and a step for each enabled action. -/
structure Machine (σ α : Type*) where
  init : σ → Prop
  step : σ → α → Option σ

namespace Machine

variable {σ τ α β : Type*}

/-- The states reached by runs whose every step, from the state before it, satisfies `c`. -/
inductive ReachableBy (M : Machine σ α) (c : σ → α → Prop) : σ → Prop
  | init {s : σ} : M.init s → ReachableBy M c s
  | step {s s' : σ} {a : α} : ReachableBy M c s → c s a → M.step s a = some s' →
      ReachableBy M c s'

/-- The states reached by any run. -/
def Reachable (M : Machine σ α) : σ → Prop := M.ReachableBy fun _ _ => True

variable {M : Machine σ α} {N : Machine τ β}

theorem Reachable.of_init {s : σ} (h : M.init s) : M.Reachable s := ReachableBy.init h

theorem Reachable.next {s s' : σ} {a : α} (h : M.Reachable s) (hs : M.step s a = some s') :
    M.Reachable s' :=
  ReachableBy.step h trivial hs

theorem ReachableBy.reachable {c : σ → α → Prop} {s : σ} (h : M.ReachableBy c s) :
    M.Reachable s := by
  induction h with
  | init h => exact Reachable.of_init h
  | step _ _ hs ih => exact ih.next hs

/-- **The invariant rule**, for runs whose steps satisfy `c`. -/
theorem ReachableBy.invariant {c : σ → α → Prop} {I : σ → Prop} (h0 : ∀ s, M.init s → I s)
    (hstep : ∀ s a s', I s → c s a → M.step s a = some s' → I s') {s : σ}
    (h : M.ReachableBy c s) : I s := by
  induction h with
  | init h => exact h0 _ h
  | step _ hc hs ih => exact hstep _ _ _ ih hc hs

/-- **The invariant rule**, for all runs. -/
theorem Reachable.invariant {I : σ → Prop} (h0 : ∀ s, M.init s → I s)
    (hstep : ∀ s a s', I s → M.step s a = some s' → I s') {s : σ} (h : M.Reachable s) : I s :=
  ReachableBy.invariant h0 (fun s a s' hI _ hs => hstep s a s' hI hs) h

/-- A projection under which every step of `M` is a step of `N` or no change. -/
theorem Reachable.map (f : σ → τ) (h0 : ∀ s, M.init s → N.init (f s))
    (hstep : ∀ s a s', M.Reachable s → M.step s a = some s' →
      f s' = f s ∨ ∃ b, N.step (f s) b = some (f s'))
    {s : σ} (h : M.Reachable s) : N.Reachable (f s) := by
  induction h with
  | init h => exact Reachable.of_init (h0 _ h)
  | step h _ hs ih =>
    rcases hstep _ _ _ h hs with heq | ⟨b, hb⟩
    · rw [heq]; exact ih
    · exact ih.next hb

/-! ## Runs -/

/-- Take the actions in order; `none` if one of them is not enabled. -/
def run (M : Machine σ α) : σ → List α → Option σ
  | s, [] => some s
  | s, a :: as => (M.step s a).bind fun s' => M.run s' as

/-- The states of a run from a reachable state are reachable. -/
theorem Reachable.run {s t : σ} {as : List α} (h : M.Reachable s) (hr : M.run s as = some t) :
    M.Reachable t := by
  induction as generalizing s with
  | nil => cases hr; exact h
  | cons a as ih =>
    obtain ⟨s', hs, hr⟩ := Option.bind_eq_some_iff.mp hr
    exact ih (h.next hs) hr

/-- A run that can be evaluated ends in a reachable state. -/
theorem Reachable.get {s : σ} (h : M.Reachable s) (as : List α) (hr : (M.run s as).isSome) :
    M.Reachable ((M.run s as).get hr) :=
  h.run (Option.some_get hr).symm

/-- One action, taken at most `n` times, leads from `s` to `Q`. -/
def Within (M : Machine σ α) (a : α) (n : ℕ) (s : σ) (Q : σ → Prop) : Prop :=
  ∃ m s', m ≤ n ∧ M.run s (List.replicate m a) = some s' ∧ Q s'

theorem Within.now {a : α} {n : ℕ} {s : σ} {Q : σ → Prop} (h : Q s) : M.Within a n s Q :=
  ⟨0, s, Nat.zero_le n, rfl, h⟩

theorem Within.step {a : α} {n : ℕ} {s t : σ} {Q : σ → Prop} (hs : M.step s a = some t)
    (h : M.Within a n t Q) : M.Within a (n + 1) s Q := by
  obtain ⟨m, r, hm, hr, hq⟩ := h
  refine ⟨m + 1, r, Nat.succ_le_succ hm, ?_, hq⟩
  rw [List.replicate_succ, Machine.run, hs]
  exact hr

theorem Within.mono {a : α} {m n : ℕ} {s : σ} {Q : σ → Prop} (h : M.Within a m s Q) (hmn : m ≤ n) :
    M.Within a n s Q := by
  obtain ⟨i, t, hi, hr, hq⟩ := h
  exact ⟨i, t, Nat.le_trans hi hmn, hr, hq⟩

section RunBy

variable (c : σ → α → Prop) [∀ s a, Decidable (c s a)]

/-- Take the actions in order; `none` if one of them is not enabled or does not satisfy `c`. -/
def runBy (M : Machine σ α) : σ → List α → Option σ
  | s, [] => some s
  | s, a :: as => if c s a then (M.step s a).bind fun s' => M.runBy s' as else none

variable {c}

theorem ReachableBy.runBy {s t : σ} {as : List α} (h : M.ReachableBy c s)
    (hr : M.runBy c s as = some t) : M.ReachableBy c t := by
  induction as generalizing s with
  | nil => cases hr; exact h
  | cons a as ih =>
    rw [Machine.runBy] at hr
    split_ifs at hr with hc
    obtain ⟨s', hs, hr⟩ := Option.bind_eq_some_iff.mp hr
    exact ih (.step h hc hs) hr

theorem ReachableBy.get {s : σ} (h : M.ReachableBy c s) (as : List α)
    (hr : (M.runBy c s as).isSome) : M.ReachableBy c ((M.runBy c s as).get hr) :=
  h.runBy (Option.some_get hr).symm

end RunBy

end Machine

/-! ## Stuck states -/

section Stuck

variable {σ τ α β : Type*} {step : σ → α → Option σ} {p : α → Bool} {s : σ}

def StuckBy (step : σ → α → Option σ) (p : α → Bool) (s : σ) : Prop :=
  ∀ a, p a = true → step s a = none

/-- Every step of the part is one of the system. -/
theorem StuckBy.part (h : StuckBy step p s) {stepPart : τ → β → Option τ} {q : β → Bool} {t : τ}
    (lift : β → α) {put : β → τ → σ} (hp : ∀ b, p (lift b) = true)
    (hstep : ∀ b, q b = true → step s (lift b) = (stepPart t b).map (put b)) :
    StuckBy stepPart q t := by
  intro b hb
  have hnone := h (lift b) (hp b)
  rw [hstep b hb] at hnone
  exact Option.map_eq_none_iff.mp hnone

end Stuck
