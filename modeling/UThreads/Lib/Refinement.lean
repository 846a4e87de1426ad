import UThreads.Lib.Machine

/-!
# Refinement

A machine refines another one under an abstraction of its states when every step is a step of the
other machine or leaves the abstraction as it is. Reachable states are then mapped to reachable
states, and runs to runs (`Refines.run`): what the abstract machine guarantees of its runs holds of
the concrete ones.
-/

namespace Machine

variable {σ τ α β : Type*} {M : Machine σ α} {N : Machine τ β} {f : σ → τ}

/-- `M` refines `N` under the abstraction `f`. -/
structure Refines (M : Machine σ α) (N : Machine τ β) (f : σ → τ) : Prop where
  init : ∀ s, M.init s → N.init (f s)
  step : ∀ s a s', M.Reachable s → M.step s a = some s' → f s' = f s ∨ ∃ b,
    N.step (f s) b = some (f s')

theorem Refines.reachable (h : M.Refines N f) {s : σ} (hs : M.Reachable s) : N.Reachable (f s) :=
  hs.map f h.init h.step

/-- A run is abstracted to a run. -/
theorem Refines.run (h : M.Refines N f) {s t : σ} {as : List α} (hs : M.Reachable s)
    (hr : M.run s as = some t) : ∃ bs, N.run (f s) bs = some (f t) := by
  induction as generalizing s with
  | nil =>
    cases hr
    exact ⟨[], rfl⟩
  | cons a as ih =>
    obtain ⟨s', hs', hr⟩ := Option.bind_eq_some_iff.mp hr
    obtain ⟨bs, hbs⟩ := ih (hs.next hs') hr
    rcases h.step s a s' hs hs' with heq | ⟨b, hb⟩
    · rw [heq] at hbs
      exact ⟨bs, hbs⟩
    · refine ⟨b :: bs, ?_⟩
      rw [Machine.run, hb]
      exact hbs

end Machine
