import UThreads.Lib.QueueLock
import UThreads.Lib.Refinement
import UThreads.Sync.MutexClient

/-!
# `Mutex` is a lock with a line

**Theorem (`mutex_is_queueLock`).** The mutex refines the specification of a fair lock: the holder
is `owner`, and the line is the blocking queue with the uThread that is on its way into it. Of the
steps of the code, the one that takes the internal lock in `acquire` is an arrival, the three that
write `owner` are the steps of the holder, and all others change nothing that a caller could see.

**Waiting is bounded** (`bounded_waiting`). From the time at which a uThread has taken the internal
lock in `acquire`, the mutex goes to those ahead of it in line, and then to it.

**The mutex does not stall** (`stalls_only_on_owner`). When no kThread is in the code of the mutex
that could go on, the mutex is free and nobody is in a call, or its owner is inside and all others
in a call are parked on the queue.
-/

namespace UThreads.Mutex

variable {K U : Type*} {s s' t : State K U} {k : K} {u : U} {b : Act U}

/-- What a caller can see of the mutex. -/
def State.queueLock (s : State K U) : QueueLock U := ⟨s.owner, s.line, s.grants⟩

/-- A step that writes neither `owner` nor the line. -/
theorem queueLock_eq (ho : s'.owner = s.owner) (hl : s'.line = s.line) (hg : s'.grants = s.grants) :
    s'.queueLock = s.queueLock := by
  rw [State.queueLock, ho, hl, hg]
  rfl

/-- A uThread that is about to take the internal lock in `acquire` is neither the owner nor in
line. -/
theorem Inv.arrives (h : Inv s) (ha : s.act k = .acqLock u) : s.owner ≠ some u ∧ u ∉ s.bq := by
  have hu : s.status u = .acquiring := h.role k u .acquiring (by rw [ha]; rfl)
  refine ⟨?_, h.notMem_bq hu nofun⟩
  intro ho
  obtain ⟨j, hj⟩ := (h.owned u ho).2 hu
  have hjk : j = k := h.role_inj j k u .acquiring .acquiring (by rw [hj]; rfl) (by rw [ha]; rfl)
  rw [hjk, ha] at hj
  cases hj

variable [DecidableEq K]

variable [DecidableEq U]

theorem queueLock_run (h : Inv s) (hs : run false k s = some s') :
    s'.queueLock = s.queueLock ∨ ∃ a, QueueLock.step s.queueLock a = some s'.queueLock := by
  have hview := h.view k
  have hline : ∀ {a}, s.act k = a → a.locked = true → s.line = a.line s.bq := by
    intro a ha hl
    exact State.line_of_lock (h.lock_of ha hl) ha
  unfold run at hs
  cases ha : s.act k with
  | idle => simp [ha] at hs
  | acqLock u =>
    simp only [ha] at hs
    split_ifs at hs with hl
    cases hs
    obtain ⟨ho, hu⟩ := h.arrives ha
    refine .inr ⟨.arrive u, ?_⟩
    have hfree := State.line_of_free hl
    rw [QueueLock.step, if_pos ⟨ho, by rw [State.queueLock, hfree]; exact hu⟩]
    simp only [State.queueLock, line_goto_self, hfree]
    rfl
  | relLock u =>
    simp only [ha] at hs
    split_ifs at hs with hl
    cases hs
    refine .inl (queueLock_eq rfl ?_ rfl)
    rw [line_goto_self rfl, State.line_of_free hl]
    rfl
  | acqSet u =>
    simp only [ha] at hs
    cases hs
    rw [ha] at hview
    have ho : s.queueLock.holder = none := hview
    have hq : s.bq = [] := h.empty hview
    have hl : s.line = [u] := by
      rw [hline ha rfl, hq]
      rfl
    refine .inr ⟨.grant, ?_⟩
    rw [QueueLock.step, if_pos ho, QueueLock.advance]
    simp only [State.queueLock, hl, line_goto_self (s := s.grant u) (h.lock_of ha rfl)]
    simp [State.grant, State.goto, Act.line, hq]
  | relSet u =>
    simp only [ha] at hs
    obtain ⟨w, hw, rfl⟩ := Option.map_eq_some_iff.mp hs
    rw [ha] at hview
    have hl : s.line = s.bq := hline ha rfl
    refine .inr ⟨.pass, ?_⟩
    rw [QueueLock.step, if_pos (by simp [State.queueLock, hview.1]), QueueLock.advance]
    simp only [State.queueLock, hl, hw, line_goto_self (s := s.grant w) (h.lock_of ha rfl)]
    rfl
  | relClear u =>
    simp only [ha] at hs
    cases hs
    rw [ha] at hview
    have hl : s.line = [] := (hline ha rfl).trans hview.2
    refine .inr ⟨.leave, ?_⟩
    rw [QueueLock.step, if_pos ⟨by simp [State.queueLock, hview.1], hl⟩]
    simp only [State.queueLock, hl, line_goto_self (s := { s with owner := none })
      (h.lock_of ha rfl)]
    simp [State.goto, Act.line, hview.2]
  | acqTest u | relTest u =>
    simp only [ha] at hs
    cases hs
    refine .inl (queueLock_eq rfl ?_ rfl)
    rw [line_goto_self (h.lock_of ha rfl), hline ha rfl]
    split_ifs <;> rfl
  | relPop u =>
    simp only [ha] at hs
    obtain ⟨w, hw, rfl⟩ := Option.map_eq_some_iff.mp hs
    refine .inl (queueLock_eq rfl ?_ rfl)
    rw [line_goto_self (s := { s with bq := s.bq.tail }) (h.lock_of ha rfl), hline ha rfl]
    rfl
  | suspend u | parkPush u =>
    simp only [ha] at hs
    cases hs
    refine .inl (queueLock_eq rfl ?_ rfl)
    rw [line_goto_self (by exact h.lock_of ha rfl), hline ha rfl]
    rfl
  | acqUnlock u | parkUnlock u | relUnlock u w | relFree u =>
    simp only [ha] at hs
    cases hs
    refine .inl (queueLock_eq rfl ((line_goto_of_ne ?_).trans ?_) rfl)
    · simp [State.setStatus]
    · rw [hline ha rfl]
      rfl
  | relRead w =>
    simp only [ha] at hs
    cases hs
    exact .inl (queueLock_eq rfl (line_goto_of_ne (h.not_lock_of ha rfl)) rfl)
  | relResume w r =>
    simp only [ha] at hs
    obtain ⟨v, hv, rfl⟩ := Option.map_eq_some_iff.mp hs
    rw [ha] at hview
    obtain ⟨rfl, -, hwait, -⟩ := hview
    obtain rfl := Option.some.inj hv
    rw [State.resume_of_waiting hwait]
    exact .inl (queueLock_eq rfl (line_goto_of_ne (h.not_lock_of ha rfl)) rfl)

theorem queueLock_refines : (machine K U).Refines (QueueLock.machine U) State.queueLock := by
  constructor
  · rintro s rfl
    rfl
  · intro s a s' hr hs
    have hinv := inv_reachable hr
    cases a with
    | run k => exact queueLock_run hinv hs
    | acquire k u | release k u =>
      simp only [machine, step] at hs
      split_ifs at hs with hg
      cases hs
      exact .inl (queueLock_eq rfl (line_goto_of_ne (hinv.not_lock_of hg.1 rfl)) rfl)
    | dispatch u =>
      simp only [machine, step] at hs
      split_ifs at hs
      cases hs
      exact .inl (queueLock_eq rfl rfl rfl)

/-! ## No step left -/

/-- A kThread under the internal lock can go on. -/
theorem Inv.run_of_locked (h : Inv s) (hl : (s.act k).locked = true) : run false k s ≠ none := by
  have hview := h.view k
  unfold run
  cases ha : s.act k <;> rw [ha] at hl hview
  case relSet | relPop =>
    obtain ⟨w, l, hw⟩ := List.exists_cons_of_ne_nil hview.2
    simp [hw]
  case idle | acqLock | relLock | relRead | relResume => cases hl
  all_goals exact Option.some_ne_none _

/-- When no kThread can go on, the internal lock is free and no kThread is in the code of the
mutex. -/
theorem Inv.idle_of_stuck (h : Inv s) (hrun : ∀ k, run false k s = none) :
    s.lock = none ∧ ∀ k, s.act k = .idle := by
  have hlock : s.lock = none := by
    cases hl : s.lock with
    | none => rfl
    | some k => exact absurd (hrun k) (h.run_of_locked ((h.locked k).mpr hl))
  refine ⟨hlock, ?_⟩
  intro k
  have hk := hrun k
  have hview := h.view k
  by_cases hl : (s.act k).locked = true
  · exact absurd hk (h.run_of_locked hl)
  · unfold run at hk
    cases ha : s.act k <;> rw [ha] at hl hview
    case acqLock | relLock | relRead => simp [ha, hlock] at hk
    case relResume => simp [ha, hview.1] at hk
    all_goals exact absurd rfl hl

/-- Where the uThreads are when nothing can go on. -/
structure Stuck (s : State K U) : Prop where
  act : ∀ k, s.act k = .idle
  status : ∀ u, s.status u = .out ∨ s.status u = .inside ∨ s.status u = .waiting ∧ u ∈ s.bq
  owner : ∀ w, s.owner = some w → s.status w = .inside

theorem stuck_of_none (h : (machine K U).Reachable s) (hrun : ∀ k, step s (.run k) = none)
    (hready : ∀ u, step s (.dispatch u) = none) : Stuck s := by
  have hinv := inv_reachable h
  obtain ⟨-, hidle⟩ := hinv.idle_of_stuck hrun
  have hstatus : ∀ u, s.status u = .out ∨ s.status u = .inside ∨ s.status u = .waiting ∧
      u ∈ s.bq := by
    intro u
    have hbusy := busy_reachable h u
    have hdispatch := hready u
    cases hu : s.status u with
    | out => exact .inl rfl
    | inside => exact .inr (.inl rfl)
    | acquiring | releasing =>
      rw [hu] at hbusy
      obtain ⟨k, hk⟩ := hbusy rfl
      rw [hidle k] at hk
      cases hk
    | ready => simp [step, hu] at hdispatch
    | waiting =>
      rcases hinv.waits u hu with hq | ⟨k, hk⟩ | ⟨k, hk⟩
      · exact .inr (.inr ⟨rfl, hq⟩)
      · rw [hidle k] at hk
        cases hk
      · rw [hidle k] at hk
        cases hk
  refine ⟨hidle, hstatus, ?_⟩
  intro w ho
  rcases hstatus w with hw | hw | ⟨hw, -⟩
  · exact absurd hw (hinv.owned w ho).1
  · exact hw
  · obtain ⟨k, hk⟩ := passing_of_waiting h ho hw
    rw [hidle k] at hk
    cases hk

/-- Then somebody is inside whenever somebody waits. -/
theorem Stuck.inside_of_waiting (h : Stuck s) (hs : (machine K U).Reachable s)
    (hu : s.status u = .waiting) : ∃ w, s.status w = .inside := by
  have hq : u ∈ s.bq := by
    rcases h.status u with hx | hx | ⟨-, hq⟩
    · rw [hu] at hx
      cases hx
    · rw [hu] at hx
      cases hx
    · exact hq
  cases ho : s.owner with
  | none =>
    rw [(inv_reachable hs).empty ho] at hq
    exact absurd hq List.not_mem_nil
  | some w => exact ⟨w, h.owner w ho⟩

/-! ## Results -/

/-- **The mutex is a lock with a line**: its states and runs are states and runs of the
specification, and whoever is inside is the holder. -/
theorem mutex_is_queueLock (h : (machine K U).Reachable s) :
    (QueueLock.machine U).Reachable s.queueLock ∧
      (∀ as t, (machine K U).run s as = some t → ∃ bs,
        (QueueLock.machine U).run s.queueLock bs = some t.queueLock) ∧
      ∀ u, s.status u = .inside → s.queueLock.holder = some u := by
  refine ⟨queueLock_refines.reachable h, fun as t hr => queueLock_refines.run h hr, fun u hu => ?_⟩
  exact (inv_reachable h).owns u (.inl hu)

/-- uThread `0` is inside, and `1` and `2` have parked, on kThreads `0`, `1` and `2`. -/
def twoParked : List (Action ℕ ℕ) :=
  [.acquire 0 0] ++ List.replicate 4 (.run 0) ++ [.acquire 1 1] ++ List.replicate 5 (.run 1) ++
    [.acquire 2 2] ++ List.replicate 5 (.run 2)

theorem mutex_is_queueLock_twoParked :
    ∃ s : State ℕ ℕ, (machine ℕ ℕ).Reachable s ∧ s.queueLock.line = [1, 2] ∧
      (QueueLock.machine ℕ).Reachable s.queueLock := by
  have hinit : (machine ℕ ℕ).Reachable initial := .of_init rfl
  have hr := hinit.get twoParked (by decide +kernel)
  exact ⟨_, hr, by decide +kernel, (mutex_is_queueLock hr).1⟩

/-- **Waiting is bounded.** A uThread with `i` others ahead of it in line gets the mutex after
these, and after nobody else. -/
theorem bounded_waiting {as : List (Action K U)} {i : ℕ} (h : (machine K U).Reachable s)
    (hu : s.line[i]? = some u) (hr : (machine K U).run s as = some t)
    (hi : s.grants.length + i < t.grants.length) : t.grants[s.grants.length + i]? = some u := by
  obtain ⟨bs, hbs⟩ := queueLock_refines.run h hr
  exact QueueLock.granted_in_turn hbs hu hi

/-- uThreads `0` and `1` release the mutex. -/
def twoReleases : List (Action ℕ ℕ) :=
  [.release 0 0] ++ List.replicate 7 (.run 0) ++ [.dispatch 1, .release 1 1] ++
  List.replicate 7 (.run 1)

theorem bounded_waiting_twoReleases :
    ∃ s t : State ℕ ℕ, (machine ℕ ℕ).Reachable s ∧ (machine ℕ ℕ).run s twoReleases = some t ∧
      s.line[1]? = some 2 ∧ t.grants = [0, 1, 2] ∧ t.grants[s.grants.length + 1]? = some 2 := by
  have hinit : (machine ℕ ℕ).Reachable initial := .of_init rfl
  have hr := hinit.get twoParked (by decide +kernel)
  exact ⟨_, ((machine ℕ ℕ).run _ twoReleases).get (by decide +kernel), hr, (Option.some_get _).symm,
    by decide +kernel, by decide +kernel,
    bounded_waiting hr (by decide +kernel) (Option.some_get _).symm (by decide +kernel)⟩

/-- **The mutex does not stall.** When no kThread can go on with the code of the mutex and no
uThread is ready, the mutex is free and not in use, or its owner is inside and all others that are
in a call are parked. -/
theorem stalls_only_on_owner (h : (machine K U).Reachable s) (hrun : ∀ k, step s (.run k) = none)
    (hready : ∀ u, step s (.dispatch u) = none) :
    s.lock = none ∧ (∀ k, s.act k = .idle) ∧
      (s.owner = none ∧ (∀ u, s.status u = .out) ∨
        ∃ w, s.owner = some w ∧ s.status w = .inside ∧
          ∀ u, u ≠ w → s.status u = .out ∨ s.status u = .waiting ∧ u ∈ s.bq) := by
  have hinv := inv_reachable h
  obtain ⟨hlock, hidle⟩ := hinv.idle_of_stuck hrun
  have hstuck := stuck_of_none h hrun hready
  refine ⟨hlock, hidle, ?_⟩
  cases ho : s.owner with
  | none =>
    refine .inl ⟨rfl, ?_⟩
    intro u
    rcases hstuck.status u with hu | hu | ⟨-, hq⟩
    · exact hu
    · exact absurd (ho.symm.trans (hinv.owns u (.inl hu))) (by simp)
    · rw [hinv.empty ho] at hq
      exact absurd hq List.not_mem_nil
  | some w =>
    have hinside := hstuck.owner w ho
    refine .inr ⟨w, rfl, hinside, ?_⟩
    intro u huw
    rcases hstuck.status u with hu | hu | hu
    · exact .inl hu
    · exact absurd (inside_inj h hu hinside) huw
    · exact .inr hu

/-- uThread `false` is inside, and `true` has parked. -/
def oneParked : List (Action Bool Bool) :=
  [.acquire false false] ++ List.replicate 4 (.run false) ++ [.acquire true true] ++
  List.replicate 5 (.run true)

theorem stalls_only_on_owner_oneParked :
    ∃ s : State Bool Bool, (machine Bool Bool).Reachable s ∧ s.bq = [true] ∧ s.lock = none ∧ ∀ k,
    s.act k = .idle := by
  have hinit : (machine Bool Bool).Reachable initial := .of_init rfl
  have hr := hinit.get oneParked (by decide +kernel)
  have hrun : ∀ k, (step (((machine Bool Bool).run initial oneParked).get (by decide +kernel))
      (.run k)).isNone := by
    decide +kernel
  have hready : ∀ u,
      (step (((machine Bool Bool).run initial oneParked).get (by decide +kernel))
        (.dispatch u)).isNone := by
    decide +kernel
  have hstall := stalls_only_on_owner hr (fun k => Option.isNone_iff_eq_none.mp (hrun k))
    (fun u => Option.isNone_iff_eq_none.mp (hready u))
  exact ⟨_, hr, by decide +kernel, hstall.1, hstall.2.1⟩

end UThreads.Mutex
