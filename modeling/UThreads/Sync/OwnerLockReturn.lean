import UThreads.Sync.OwnerLockProof
import Mathlib.Data.Fintype.Basic

/-!
# `OwnerLock::release`: the value it returns

`release` reads `counter` for its return value after it has dropped the internal lock. As long as
the caller still owns the lock this is its own depth (`ret_nested`). A release that has given the
lock up reads what the next owner has made of the counter (`release_returns_foreign_depth`), unless
that owner has not got to its `++counter` (`release_returns_depth`).
-/

namespace UThreads.OwnerLock

variable {K U : Type*} [DecidableEq K] [DecidableEq U] {s s' : State K U} {m : Mutex.State K U}
  {k : K} {u : U}

/-- The release of `u` has decremented the counter to 0, and has still to read it. -/
def GaveUp (s : State K U) (u : U) : Prop := s.pos u = .released ∧ s.depth u = 0

/-- The condition on runs: no `++counter` of an `acquire` comes between the `--counter` of a release
that gives the lock up and its `return counter`, and no uThread goes 2^64 acquisitions deep. -/
def Settled (s : State K U) (a : Action K U) : Prop :=
  Shallow s a ∧ ∀ v, a = .incr v → ∀ u, ¬GaveUp s u

omit [DecidableEq K] [DecidableEq U] in
theorem GaveUp.of_eq {v : U} (h : GaveUp s' v) (hp : s'.pos v = s.pos v)
    (hd : s'.depth v = s.depth v) : GaveUp s v :=
  ⟨hp ▸ h.1, hd ▸ h.2⟩

/-- A step of a kThread. -/
theorem gaveUp_run (h : Inv s m) (hz : ∀ v, GaveUp s v → s.counter = 0) (hs : run k s = some s')
    (v : U) (hv : GaveUp s' v) : s'.counter = 0 := by
  unfold run at hs
  cases hr : s.rel k <;> simp only [hr] at hs
  case idle =>
    obtain ⟨b, -, rfl⟩ := Option.map_eq_some_iff.mp hs
    exact hz v hv
  case lock w =>
    split_ifs at hs
    cases hs
    exact hz v hv
  case unlock w =>
    cases hs
    exact hz v hv
  case dec w =>
    obtain ⟨-, hne, hiff⟩ := h.decrements hr
    have hsame : s'.counter = s.counter - 1 ∧ s'.depth = s.depth ∧
        s'.pos = Function.update s.pos w .released := by
      split_ifs at hs <;> cases hs <;> exact ⟨rfl, rfl, rfl⟩
    obtain ⟨hcounter, hdepth, hpos⟩ := hsame
    by_cases hvw : v = w
    · subst hvw
      rw [hcounter, hiff, ← hdepth]
      exact hv.2
    · -- another release has given the lock up, but then there is nothing to decrement
      have hgave : GaveUp s v := hv.of_eq (by simp [hpos, hvw]) (by rw [hdepth])
      exact absurd (hz v hgave) hne

theorem gaveUp_step (h : Inv s m) (hz : ∀ v, GaveUp s v → s.counter = 0) {a : Action K U}
    (ha : Settled s a) (hs : step s a = some s') (v : U) (hv : GaveUp s' v) : s'.counter = 0 := by
  cases a with
  | run k => exact gaveUp_run h hz hs v hv
  | acquire k u | ret u =>
    simp only [step] at hs
    split_ifs at hs
    cases hs
    have hne : v ≠ u := by
      rintro rfl
      simpa [State.setPos] using hv.1
    exact hz v (hv.of_eq (by simp [State.setPos, hne]) rfl)
  | release k u =>
    simp only [step] at hs
    split_ifs at hs
    cases hs
    have hne : v ≠ u := by
      rintro rfl
      simpa [State.setPos, State.setRel] using hv.1
    exact hz v (hv.of_eq (by simp [State.setPos, State.setRel, hne])
      (by simp [State.setPos, State.setRel, hne]))
  | dispatch u =>
    simp only [step] at hs
    split_ifs at hs
    cases hs
    exact hz v hv
  | incr u =>
    simp only [step] at hs
    split_ifs at hs
    cases hs
    have hne : v ≠ u := by
      rintro rfl
      simpa [State.setPos] using hv.1
    refine absurd (hv.of_eq ?_ ?_) (ha.2 u rfl v) <;> simp [State.setPos, State.incr, hne]

theorem reachable_settled (h : (machine K U).ReachableBy Settled s) :
    (∃ m, Inv s m) ∧ ∀ v, GaveUp s v → s.counter = 0 := by
  refine h.invariant (I := fun s => (∃ m, Inv s m) ∧ ∀ v, GaveUp s v → s.counter = 0) ?_ ?_
  · rintro s rfl
    exact ⟨⟨_, inv_initial⟩, fun _ _ => rfl⟩
  · rintro s a s' ⟨⟨m, hI⟩, hz⟩ ha hs
    exact ⟨inv_step hI ha.1 hs, gaveUp_step hI hz ha hs⟩

/-- A release that keeps the lock returns the depth of its caller, in every interleaving. -/
theorem ret_nested (h : Inv s m) (hd : 0 < s.depth u) (hp : s.pos u = .released) :
    s.base.owner = some u ∧ s.counter.toNat = s.depth u := by
  have hown := h.owner_of_within (.inr (.inl hd))
  exact ⟨hown, h.counter_eq_depth hown (by simp [hp])⟩

/-- **`release` returns the caller's own depth**, in runs where no `++counter` comes between the
last `--counter` of a release and its return: one less than the depth at the call, and 0 exactly
when it gave the lock up. -/
theorem release_returns_depth (h : (machine K U).ReachableBy Settled s)
    (hs : step s (.ret u) = some s') :
    (s'.result u).toNat = s.depth u ∧ (s'.result u = 0 ↔ s.base.owner ≠ some u) := by
  obtain ⟨⟨m, hI⟩, hz⟩ := reachable_settled h
  simp only [step] at hs
  split_ifs at hs with hg
  cases hs
  obtain ⟨hpos, hstatus⟩ := hg
  have hresult : Function.update s.result u s.counter u = s.counter := Function.update_self ..
  simp only [State.setPos, hresult]
  by_cases hd : s.depth u = 0
  · have hcounter := hz u ⟨hpos, hd⟩
    have hgiven := hI.given hd (.inr ⟨hpos, by rcases hstatus with hst | hst <;> simp [hst]⟩)
    simp [hcounter, hd, hgiven]
  · obtain ⟨hown, hcounter⟩ := ret_nested hI (Nat.pos_of_ne_zero hd) hpos
    refine ⟨hcounter, fun h0 => ?_, fun hne => absurd hown hne⟩
    rw [h0] at hcounter
    exact absurd hcounter.symm hd

instance [Fintype U] (s : State K U) : (a : Action K U) → Decidable (Settled s a)
  | .incr v =>
    decidable_of_iff (Shallow s (.incr v) ∧ ∀ u, ¬(s.pos u = .released ∧ s.depth u = 0))
      (by simp [Settled, GaveUp])
  | .acquire k u => decidable_of_iff (Shallow s (.acquire k u)) (by simp [Settled])
  | .release k u => decidable_of_iff (Shallow s (.release k u)) (by simp [Settled])
  | .run k => decidable_of_iff (Shallow s (.run k)) (by simp [Settled])
  | .dispatch u => decidable_of_iff (Shallow s (.dispatch u)) (by simp [Settled])
  | .ret u => decidable_of_iff (Shallow s (.ret u)) (by simp [Settled])

/-- uThread `false` acquires the lock and `true` waits for it; `false` gives the lock up, and has
still to read the counter. -/
def handOver : List (Action Bool Bool) :=
  List.flatten [.acquire false false :: List.replicate 4 (.run false), [.incr false],
    .acquire true true :: List.replicate 5 (.run true),
    .release false false :: List.replicate 8 (.run false)]

theorem release_returns_depth_handOver :
    ∃ s s' : State Bool Bool, (machine Bool Bool).ReachableBy Settled s ∧
      step s (.ret false) = some s' ∧ s.base.owner = some true ∧ s'.result false = 0 := by
  have hinit : (machine Bool Bool).ReachableBy Settled initial := .init rfl
  have hrun := hinit.get handOver (by decide +kernel)
  have hown : (((machine Bool Bool).runBy Settled initial handOver).get
    (by decide +kernel)).base.owner =
      some true := by decide +kernel
  have hret : (step (((machine Bool Bool).runBy Settled initial handOver).get (by decide +kernel))
      (.ret false)).isSome := by decide +kernel
  obtain ⟨s', hs⟩ := Option.isSome_iff_exists.mp hret
  refine ⟨_, s', hrun, hs, hown, (release_returns_depth hrun hs).2.mpr ?_⟩
  rw [hown]
  simp

/-- uThread `true` has become the owner and executes `++counter` before `false` reads the counter:
the release of `false` gave the lock up, and returns 1. -/
theorem release_returns_foreign_depth :
    ∃ s s' : State Bool Bool, (machine Bool Bool).ReachableBy Shallow s ∧
      step s (.ret false) = some s' ∧ s.depth false = 0 ∧ s.base.owner = some true ∧
      s'.result false = 1 := by
  have hinit : (machine Bool Bool).ReachableBy Shallow initial := .init rfl
  have hrun := hinit.get (handOver ++ [.dispatch true, .incr true]) (by decide +kernel)
  have hret : ((step (((machine Bool Bool).runBy Shallow initial
      (handOver ++ [.dispatch true, .incr true])).get (by decide +kernel)) (.ret false)).map
        fun s' => s'.result false) = some 1 := by decide +kernel
  obtain ⟨s', hs, hresult⟩ := Option.map_eq_some_iff.mp hret
  exact ⟨_, s', hrun, hs, by decide +kernel, by decide +kernel, hresult⟩

end UThreads.OwnerLock
