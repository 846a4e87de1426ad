import UThreads.Sync.UThreadPoolProof

/-!
# `uThreadPool`: queued tasks and idle workers

`idleuThreads` is read without the mutex and decremented only by the worker that takes the task. Two
submissions may so count on one idle worker, and the second task waits for the first to finish. The
worker decrements `idleuThreads` before it pops the task, so that for a moment one task may
outnumber the idle workers, too.

* **`tasks_outnumber_idle`**: the runs in which this happens.
* **`tasks_within_idle`**: when each submission waits until the task queued before it is taken, and
  finds no worker idle or at least two (`Spaced`), the tasks queued do not outnumber the idle
  workers, and a task that is queued has an idle worker that is awake, or is about to be woken.
-/

namespace UThreads.UThreadPool

open BlockingQueue (Waits)

/-- uThread `0` queues a task, and its signal finds nobody. -/
def queuedAgain : List (Action ℕ ℕ ℕ) :=
  List.flatten [[.execute 0 9, .run 0 0, .run 0 0], takes 0, List.replicate 3 (.run 0 0),
    [.cv (.queue (.run 0 0)), .cv (.run 0 0), .cv (.queue (.run 0 0))],
    List.replicate 4 (.cv (.queue (.mutex 0))), [.cv (.queue (.run 0 0)), .cv (.run 0 0), .run 0 0]]

/-- **Two tasks are queued for one idle worker**: the second one is submitted before the worker has
woken up. The worker then runs the first, and the second has nobody to run it. And a worker that
takes the only task has decremented `idleuThreads` while the task is still queued. -/
theorem tasks_outnumber_idle :
    (∃ s : State ℕ ℕ ℕ, (machine ℕ ℕ ℕ).Reachable s ∧ s.cv.queue.mutex.owner = none ∧
      s.taskList = [⟨1, 8⟩, ⟨2, 9⟩] ∧ s.idleuThreads = 1) ∧
    (∃ s : State ℕ ℕ ℕ, (machine ℕ ℕ ℕ).Reachable s ∧ s.cv.queue.mutex.owner = none ∧
      s.taskList = [⟨2, 9⟩] ∧ s.idleuThreads = 0 ∧ s.workers = [1] ∧
      s.pos 1 = .work (.running ⟨1, 8⟩) ∧ s.pos 0 = .user) ∧
    ∃ s : State ℕ ℕ ℕ, (machine ℕ ℕ ℕ).Reachable s ∧ s.taskList = [⟨1, 8⟩] ∧ s.idleuThreads = 0 ∧
      s.pos 1 = .work .take := by
  have hinit : (machine ℕ ℕ ℕ).Reachable initial := .of_init rfl
  refine ⟨⟨_, hinit.get (parked ++ queued ++ queuedAgain) (by decide +kernel), ?_⟩,
    ⟨_, hinit.get (parked ++ queued ++ queuedAgain ++ serves) (by decide +kernel), ?_⟩,
    ⟨_, hinit.get (parked ++ queued ++ serves.take 11) (by decide +kernel), ?_⟩⟩ <;> decide +kernel

variable {K U F : Type*} [DecidableEq K] [DecidableEq U]

/-- At `if (idleuThreads.load() == 0)`. -/
def Pos.deciding : Pos F → Bool
  | .submit _ (.load _) => true
  | _ => false

/-- At `idleuThreads++`. -/
def Pos.counting : Pos F → Bool
  | .work .incr => true
  | _ => false

/-- `uThreadExecute` reads `idleuThreads` only when the task queued before has been taken, no other
submitter is about to queue one, and exactly one idle worker is not what it finds; and
`idleuThreads++` does not overflow. -/
def Spaced (s : State K U F) : Action K U F → Prop
  | .run _ u =>
    ((s.pos u).deciding = true → s.taskList = [] ∧ s.pending = 0 ∧ s.idleuThreads ≠ 1) ∧
    ((s.pos u).counting = true → s.idleuThreads.toNat + 1 < 2 ^ 32)
  | .execute _ _ | .create _ _ | .cv _ => True

instance [DecidableEq F] (s : State K U F) : (a : Action K U F) → Decidable (Spaced s a)
  | .run _ _ => inferInstanceAs (Decidable (_ ∧ _))
  | .execute _ _ | .create _ _ | .cv _ => inferInstanceAs (Decidable True)

/-- Past the decision to queue the task, which is not queued yet. -/
def Pos.toQueue : Pos F → Bool
  | .submit _ (.acquire _) | .submit _ (.acquiring _) | .submit _ (.push _) => true
  | _ => false

/-- Between `idleuThreads++` and the `pop`. -/
def Pos.serving : Pos F → Bool
  | .work .take => true
  | x => x.idle

/-- `pending` counts the submitters that are to queue a task. -/
def Counted (s : State K U F) : Prop :=
  ∃ l : List U, l.Nodup ∧ l.length = s.pending ∧ ∀ u, u ∈ l ↔ (s.pos u).toQueue = true

/-- There is at most one task that is queued or about to be, and two workers to serve it. -/
structure Within (s : State K U F) : Prop where
  counted : Counted s
  bound : s.idleWorkers < 2 ^ 32
  one : s.taskList.length + s.pending ≤ 1
  enough : s.taskList.length + s.pending ≠ 0 → 2 ≤ tally Pos.serving s.workers s.pos

section Steps

variable {s s' : State K U F} {k : K} {u : U}

omit [DecidableEq U] in
theorem Pos.serving_of_idle (x : Pos F) (h : x.idle = true) : x.serving = true := by
  unfold Pos.serving
  split
  · rfl
  · exact h

omit [DecidableEq K] in
/-- `u` moves, and is to queue a task after it as before. -/
theorem Counted.goto (h : Counted s) {x y : Pos F} (hx : s.pos u = x)
    (hpos : s'.pos = Function.update s.pos u y) (hy : y.toQueue = x.toQueue)
    (hpending : s'.pending = s.pending) : Counted s' := by
  subst hx
  obtain ⟨l, hnodup, hlength, hmem⟩ := h
  refine ⟨l, hnodup, hlength.trans hpending.symm, fun v => ?_⟩
  rw [hmem v, hpos]
  by_cases hv : v = u
  · rw [hv, Function.update_self, hy]
  · rw [Function.update_of_ne hv]

omit [DecidableEq K] in
/-- `u` decides to queue its task. -/
theorem Counted.enter (h : Counted s) {y : Pos F} (hx : (s.pos u).toQueue = false)
    (hpos : s'.pos = Function.update s.pos u y) (hy : y.toQueue = true)
    (hpending : s'.pending = s.pending + 1) : Counted s' := by
  obtain ⟨l, hnodup, hlength, hmem⟩ := h
  have hu : u ∉ l := by
    rw [hmem u, hx]
    simp
  refine ⟨u :: l, List.nodup_cons.mpr ⟨hu, hnodup⟩, by simp [hlength, hpending], fun v => ?_⟩
  rw [List.mem_cons, hmem v, hpos]
  by_cases hv : v = u
  · simp [hv, hy]
  · simp [hv]

omit [DecidableEq K] in
/-- `u` queues its task. -/
theorem Counted.leave (h : Counted s) {y : Pos F} (hx : (s.pos u).toQueue = true)
    (hpos : s'.pos = Function.update s.pos u y) (hy : y.toQueue = false)
    (hpending : s'.pending = s.pending - 1) : 0 < s.pending ∧ Counted s' := by
  obtain ⟨l, hnodup, hlength, hmem⟩ := h
  have hu : u ∈ l := (hmem u).mpr hx
  refine ⟨hlength ▸ List.length_pos_of_mem hu, l.erase u, hnodup.erase u, ?_, fun v => ?_⟩
  · rw [List.length_erase_of_mem hu, hlength, hpending]
  · rw [hnodup.mem_erase_iff, hmem v, hpos]
    by_cases hv : v = u
    · simp [hv, hy]
    · simp [hv]

omit [DecidableEq K] in
/-- `u` moves, and counts the same before and after it. -/
theorem Within.goto (h : Within s) {x y : Pos F} (hx : s.pos u = x)
    (hpos : s'.pos = Function.update s.pos u y) (hq : y.toQueue = x.toQueue) (hi : y.idle = x.idle)
    (hv : y.serving = x.serving) (hpending : s'.pending = s.pending)
    (hlist : s'.taskList = s.taskList) (hworkers : s'.workers = s.workers) : Within s' := by
  subst hx
  refine ⟨h.counted.goto rfl hpos hq hpending, ?_, ?_, ?_⟩
  · unfold State.idleWorkers
    rw [hworkers, hpos, tally.update_same hi]
    exact h.bound
  · rw [hlist, hpending]
    exact h.one
  · rw [hlist, hpending, hworkers, hpos, tally.update_same hv]
    exact h.enough

theorem within_create (hI : Inv s) (h : Within s) {w : U} {b : Option (Task F)} {t : Task F}
    (hu : s.pos u = .submit b (.create t)) (hw : s.pos w = .user) :
    Within (({ s with workers := s.workers ++ [w] }.goto w (.work (.created t))).goto u
      (.submit b .total)) := by
  have hne : u ≠ w := by
    rintro rfl
    simp [hw] at hu
  have hnew : w ∉ s.workers := by
    rw [hI.workers w, hw]
    simp [Pos.worker]
  have hcreated : Within ({ s with workers := s.workers ++ [w] }.goto w (.work (.created t))) := by
    refine ⟨h.counted.goto hw rfl rfl rfl, ?_, h.one, fun hne => ?_⟩
    · show tally Pos.idle (s.workers ++ [w]) (Function.update s.pos w (.work (.created t))) < _
      rw [tally.concat, tally.update_of_not_mem hnew, Function.update_self]
      exact h.bound
    · show 2 ≤ tally Pos.serving (s.workers ++ [w]) (Function.update s.pos w (.work (.created t)))
      rw [tally.concat, tally.update_of_not_mem hnew, Function.update_self]
      exact h.enough hne
  have hu' : ({ s with workers := s.workers ++ [w] }.goto w (.work (.created t))).pos u =
      .submit b (.create t) := (Function.update_of_ne hne ..).trans hu
  exact hcreated.goto hu' rfl rfl rfl rfl rfl rfl rfl

theorem within_step (hI : Inv s) (h : Within s) {a : Action K U F} (hc : Spaced s a)
    (hs : Step s a s') : Within s' := by
  have hmem : ∀ {w x}, s.pos w = .work x → w ∈ s.workers := by
    intro w x hx
    rw [hI.workers w, hx]
    rfl
  have hexact : s.idleuThreads.toNat = s.idleWorkers :=
    hI.idle_toNat.trans (Nat.mod_eq_of_lt h.bound)
  cases hs with
  | @execute u f b hx =>
    exact h.goto hx rfl (by cases b <;> rfl) (by cases b <;> rfl) (by cases b <;> rfl) rfl rfl rfl
  | spawn hx _ => exact h.goto hx rfl rfl rfl rfl rfl rfl rfl
  | begin hx | finish hx | start hx _ | found hx _ => exact h.goto hx rfl rfl rfl rfl rfl rfl rfl
  | @queue k u b t hx hidle =>
    obtain ⟨hempty, hnone, hsingle⟩ := hc.1 (by rw [hx]; rfl)
    refine ⟨h.counted.enter (u := u) (by rw [hx]; rfl) rfl rfl rfl, ?_, ?_, fun _ => ?_⟩
    · show tally Pos.idle s.workers (Function.update s.pos u _) < _
      rw [tally.update_same (by rw [hx]; rfl)]
      exact h.bound
    · show s.taskList.length + (s.pending + 1) ≤ 1
      simp [hempty, hnone]
    · show 2 ≤ tally Pos.serving s.workers (Function.update s.pos u _)
      rw [tally.update_same (by rw [hx]; rfl)]
      have hle : s.idleWorkers ≤ tally Pos.serving s.workers s.pos := tally.mono Pos.serving_of_idle
      have h0 : s.idleuThreads.toNat ≠ 0 := fun h0 => hidle (BitVec.eq_of_toNat_eq h0)
      have h1 : s.idleuThreads.toNat ≠ 1 := fun h1 => hsingle (BitVec.eq_of_toNat_eq h1)
      omega
  | create hu hw => exact within_create hI h hu hw
  | @total k u b hx =>
    exact h.goto hx rfl (by cases b <;> rfl) (by cases b <;> rfl) (by cases b <;> rfl) rfl rfl rfl
  | @push k u b t hx =>
    have hleave : 0 < s.pending ∧ Counted ({ s with
        taskList := s.taskList ++ [t], pending := s.pending - 1 }.goto u (.submit b .signal)) :=
      h.counted.leave (u := u) (by rw [hx]; rfl) rfl rfl rfl
    obtain ⟨hpos, hcounted⟩ := hleave
    have hone := h.one
    refine ⟨hcounted, ?_, ?_, fun _ => ?_⟩
    · show tally Pos.idle s.workers (Function.update s.pos u _) < _
      rw [tally.update_same (by rw [hx]; rfl)]
      exact h.bound
    · show (s.taskList ++ [t]).length + (s.pending - 1) ≤ 1
      rw [List.length_append, List.length_singleton]
      omega
    · show 2 ≤ tally Pos.serving s.workers (Function.update s.pos u _)
      rw [tally.update_same (by rw [hx]; rfl)]
      exact h.enough (by omega)
  | @incr k u hx =>
    have hlt := hc.2 (by rw [hx]; rfl)
    have hidle : tally Pos.idle s.workers (Function.update s.pos u (.work .acquire)) + _ = _ :=
      tally.update hI.nodup (hmem hx)
    have hserving : tally Pos.serving s.workers (Function.update s.pos u (.work .acquire)) + _ =
      _ := tally.update hI.nodup (hmem hx)
    simp only [hx, Pos.idle, Pos.serving, Bool.toNat_false, Bool.toNat_true] at hidle hserving
    refine ⟨h.counted.goto hx rfl rfl rfl, ?_, h.one, fun hne => ?_⟩
    · show tally Pos.idle s.workers (Function.update s.pos u _) < _
      rw [hexact] at hlt
      unfold State.idleWorkers at hlt
      omega
    · show 2 ≤ tally Pos.serving s.workers (Function.update s.pos u _)
      have henough := h.enough hne
      omega
  | @decr k u hx =>
    have hidle : tally Pos.idle s.workers (Function.update s.pos u (.work .take)) + _ = _ :=
      tally.update hI.nodup (hmem hx)
    simp only [hx, Pos.idle, Bool.toNat_false, Bool.toNat_true] at hidle
    refine ⟨h.counted.goto hx rfl rfl rfl, ?_, h.one, fun hne => ?_⟩
    · show tally Pos.idle s.workers (Function.update s.pos u _) < _
      have hbound := h.bound
      unfold State.idleWorkers at hbound
      omega
    · show 2 ≤ tally Pos.serving s.workers (Function.update s.pos u _)
      rw [tally.update_same (by rw [hx]; rfl)]
      exact h.enough hne
  | @take k u t ts hx hts =>
    -- It was the only task.
    have hone := h.one
    rw [hts, List.length_cons] at hone
    refine ⟨h.counted.goto hx rfl rfl rfl, ?_, ?_, fun hne => ?_⟩
    · show tally Pos.idle s.workers (Function.update s.pos u _) < _
      rw [tally.update_same (by rw [hx]; rfl)]
      exact h.bound
    · show ts.length + s.pending ≤ 1
      omega
    · replace hne : ts.length + s.pending ≠ 0 := hne
      omega
  | call hx hcall _ => cases hcall <;> exact h.goto hx rfl rfl rfl rfl rfl rfl rfl
  | ret hx hr _ =>
    cases hr with
    | @signal b =>
      exact h.goto hx rfl (by cases b <;> rfl) (by cases b <;> rfl) (by cases b <;> rfl) rfl rfl rfl
    | submit | acquire | wait => exact h.goto hx rfl rfl rfl rfl rfl rfl rfl
  | cv _ _ => exact ⟨h.counted, h.bound, h.one, h.enough⟩

/-- A worker that is to serve a task is until it has taken the only one. -/
theorem serving_step (h : Within s) {a : Action K U F} (hs : Step s a s') {w : U}
    (hw : (s.pos w).serving = true) (hne : s'.taskList ≠ []) : (s'.pos w).serving = true := by
  have hgoto : ∀ {v : U} {x y : Pos F}, s.pos v = x → (x.serving = true → y.serving = true) →
      (Function.update s.pos v y w).serving = true := by
    rintro v x y rfl hxy
    by_cases hv : w = v
    · rw [hv, Function.update_self]
      exact hxy (hv ▸ hw)
    · rw [Function.update_of_ne hv]
      exact hw
  cases hs with
  | @execute u f b hx => exact hgoto hx (by cases b <;> rintro ⟨⟩)
  | spawn hx _ | queue hx _ | total hx | push hx | begin hx | finish hx | start hx _ =>
    exact hgoto hx (by rintro ⟨⟩)
  | incr hx | found hx _ | decr hx => exact hgoto hx fun _ => rfl
  | @create u v b t hu hv =>
    have hvw : w ≠ v := by
      rintro rfl
      rw [hv] at hw
      cases hw
    have huw : w ≠ u := by
      rintro rfl
      rw [hu] at hw
      cases hw
    simpa [State.goto, hvw, huw] using hw
  | @take k u t ts hx hts =>
    have hone := h.one
    rw [hts, List.length_cons] at hone
    exact absurd (List.eq_nil_of_length_eq_zero (show ts.length = 0 by omega)) hne
  | call hx hc _ => cases hc <;> exact hgoto hx (by first | exact fun _ => rfl | rintro ⟨⟩)
  | ret hx hr _ => cases hr <;> exact hgoto hx (by first | exact fun _ => rfl | rintro ⟨⟩)
  | cv => exact hw

theorem within_reachable (h : (machine K U F).ReachableBy Spaced s) :
    Within s ∧ Served Pos.serving s := by
  refine (Machine.ReachableBy.invariant (I := fun s => Inv s ∧ Within s ∧ Served Pos.serving s)
    ?_ ?_ h).2
  · rintro s rfl
    refine ⟨inv_reachable (.of_init rfl), ⟨⟨[], List.nodup_nil, rfl, ?_⟩, ?_, Nat.zero_le _, ?_⟩,
      ?_⟩
    · simp [initial, Pos.toQueue]
    · simp [State.idleWorkers, initial, tally]
    · simp [initial]
    · simp [Served, initial]
  · rintro s a s' ⟨hI, hW, hS⟩ hc hs
    have hst := step_cases hs
    refine ⟨inv_step hI hst, within_step hI hW hc hst,
      served_step hI hS rfl (fun u _ hne => ?_) (fun w _ => serving_step hW hst) hst⟩
    have htwo := hW.enough fun hz => hne (List.eq_nil_of_length_eq_zero (by omega))
    exact List.countP_pos_iff.mp (Nat.lt_of_lt_of_le Nat.zero_lt_two htwo)

/-- The tasks in `taskList` do not outnumber the idle workers, and do not wait for one that runs:
with a task queued, its submitter is about to signal, or a worker that runs no task is on its way to
`taskList`. With the mutex unowned, that worker is idle and not parked. -/
structure WithinIdle (s : State K U F) : Prop where
  idle : s.idleuThreads.toNat = s.idleWorkers
  within : s.taskList.length ≤ s.idleuThreads.toNat
  served : s.taskList ≠ [] → (∃ u, Signalling s u) ∨
    ∃ w ∈ s.workers, (s.pos w).serving = true ∧ ¬Waits s.cv.queue w
  awake : s.cv.queue.mutex.owner = none → s.taskList ≠ [] →
    ∃ w ∈ s.workers, (s.pos w).idle = true ∧ w ∉ s.cv.queue.bq

omit [DecidableEq U] in
theorem Pos.serving_eq_idle {x : Pos F} (h : x ≠ .work .take) : x.serving = x.idle := by
  unfold Pos.serving
  split
  · exact absurd rfl h
  · rfl

/-- With one worker before its `pop`, one more is to serve than is idle. -/
theorem Inv.serving_of_take (hI : Inv s) (hu : s.pos u = .work .take) :
    tally Pos.serving s.workers s.pos = s.idleWorkers + 1 := by
  have hmem : u ∈ s.workers := by
    rw [hI.workers u, hu]
    rfl
  have hother : ∀ v, v ≠ u → s.pos v ≠ .work .take := by
    intro v hv hx
    have hv' : (s.pos v).taking = true := by rw [hx]; rfl
    have hu' : (s.pos u).taking = true := by rw [hu]; rfl
    exact hv (hI.queue.holds_inj (hI.holds_of_taking hv') (hI.holds_of_taking hu'))
  -- Count `u` as if it had not decremented `idleuThreads` yet.
  have hserving : tally Pos.serving s.workers (Function.update s.pos u (.work .decr)) =
      tally Pos.serving s.workers s.pos := tally.update_same (by rw [hu]; rfl)
  have hidle : tally Pos.idle s.workers (Function.update s.pos u (.work .decr)) + _ = _ :=
    tally.update hI.nodup hmem
  simp only [hu, Pos.idle, Bool.toNat_false, Bool.toNat_true] at hidle
  have hsame : tally Pos.serving s.workers (Function.update s.pos u (.work .decr)) =
      tally Pos.idle s.workers (Function.update s.pos u (.work .decr)) := by
    refine tally.congr fun v => Pos.serving_eq_idle ?_
    by_cases hv : v = u
    · simp [hv]
    · simp [hv, hother v hv]
  rw [← hserving, hsame]
  exact hidle

/-- **Queued tasks do not outnumber the idle workers**, and none of them has to wait for another
task to finish, in every run in which a task is submitted only when the one queued before has been
taken, and is queued only with two idle workers. -/
theorem tasks_within_idle (h : (machine K U F).ReachableBy Spaced s) : WithinIdle s := by
  have hI := inv_reachable h.reachable
  obtain ⟨hW, hS⟩ := within_reachable h
  have hone := hW.one
  have henough := hW.enough
  have hexact : s.idleuThreads.toNat = s.idleWorkers :=
    hI.idle_toNat.trans (Nat.mod_eq_of_lt hW.bound)
  refine ⟨hexact, ?_, hS, fun ho hne => ?_⟩
  · by_cases htake : ∃ w, s.pos w = .work .take
    · obtain ⟨w, hw⟩ := htake
      have hserving := hI.serving_of_take hw
      omega
    · have hserving : tally Pos.serving s.workers s.pos = s.idleWorkers :=
        tally.congr fun v => Pos.serving_eq_idle fun hv => htake ⟨v, hv⟩
      omega
  · rcases hS hne with ⟨u, hu⟩ | ⟨w, hw, hserving, hnot⟩
    · exact absurd hu (hI.not_signalling_of_unowned ho)
    · refine ⟨w, hw, ?_, fun hmem => hnot (.inr hmem)⟩
      rw [← Pos.serving_eq_idle]
      · exact hserving
      · intro htake
        have howner := hI.queue.owner (hI.holds_of_taking (u := w) (by rw [htake]; rfl))
        rw [howner] at ho
        cases ho

/-- uThread `0` has two workers created, which run their tasks, and queues a third task. -/
def twoIdle : List (Action ℕ ℕ ℕ) :=
  List.flatten [[.execute 0 6, .run 0 0, .create 0 1, .run 0 0, .execute 0 7, .run 0 0, .create 0 2,
    .run 0 0], List.replicate 3 (.run 1 1), List.replicate 3 (.run 2 2),
    [.execute 0 8, .run 0 0, .run 0 0], takes 0, List.replicate 2 (.run 0 0)]

theorem tasks_within_idle_twoIdle :
    ∃ s : State ℕ ℕ ℕ, (machine ℕ ℕ ℕ).ReachableBy Spaced s ∧ s.taskList = [⟨2, 8⟩] ∧
      s.idleuThreads = 2 ∧ WithinIdle s := by
  have hinit : (machine ℕ ℕ ℕ).ReachableBy Spaced initial := .init rfl
  have hr := hinit.get twoIdle (by decide +kernel)
  exact ⟨_, hr, by decide +kernel, by decide +kernel, tasks_within_idle hr⟩

end Steps

end UThreads.UThreadPool
