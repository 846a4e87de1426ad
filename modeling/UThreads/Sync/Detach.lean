import UThreads.Sync.JoinProof

/-!
# `detach` and `terminate`

Instead of joining a joinable uThread, another uThread detaches it. `detach` writes `jState`, takes
`joinMtx`, signals the target if that is waiting on `joinWait`, and releases `joinMtx`. The target
comes to `terminate` at any time. It reads `jState` without the mutex, and `signal` has released the
mutex already when `detach` releases it.

**The agents.** `target` is the uThread with its members, as in `join`, and its steps in `terminate`
are those of `Join.run`. The uThread that calls `detach` takes the place of the joiner in `joinMtx`
and `joinWait`; `pc` is its position.

**Releases by others.** The machine of `joinWait` has calls of `release` for the owner only. With
assertions disabled, `Mutex::release` runs for any caller: `releaseUnowned`.

* **`detach_unsafe`**: the second release, an access to a terminated target, a target left waiting.
* **`detach_safe`**: none of them happens if `detach` is over before the target reads `jState`.
-/

namespace UThreads.Detach

open Join (Party)

/-- The position of the uThread that calls `detach`. -/
inductive Pc
  | start
  /-- `jState = DETACHED` -/
  | mark
  /-- `joinMtx.acquire()`, the call -/
  | call
  /-- in `joinMtx.acquire()` -/
  | acquire
  /-- `if (!joinWait.empty())` -/
  | empty
  /-- in `joinWait.signal(joinMtx)` -/
  | signal
  /-- `joinMtx.release()`, the call -/
  | release
  /-- in `joinMtx.release()` -/
  | leave
  | done
  deriving DecidableEq

structure State (K : Type*) where
  target : Join.State K
  pc : Pc

variable {K : Type*} [DecidableEq K]

def initial : State K where
  target := Join.initial
  pc := .start

namespace State

variable (s : State K)

/-- `joinMtx` -/
def joinMtx : Mutex.State K Party := s.target.joinWait.queue.mutex

/-- A call on `joinMtx` or `joinWait`, after which `detach` is at `x`. -/
def onJoinWait (a : ConditionVariable.Action K Party) (x : Pc) : Option (State K) :=
  (ConditionVariable.step s.target.joinWait a).map fun c =>
    { s with target := { s.target with joinWait := c }, pc := x }

/-- `joinMtx.release()` on kThread `k` by a uThread that does not own `joinMtx`. -/
def releaseUnowned (k : K) : Option (State K) :=
  if s.joinMtx.act k = .idle then
    some { s with
      target := { s.target with
        joinWait := { s.target.joinWait with
          queue := { s.target.joinWait.queue with
            mutex := (s.joinMtx.setStatus .joiner .releasing).goto k (.relLock .joiner) } } }
      pc := .leave }
  else none

end State

/-- The next step of `detach`, on kThread `k`. -/
def run (k : K) (s : State K) : Option (State K) :=
  match s.pc with
  | .start | .done => none
  | .mark => some { s with target := { s.target with jState := .detached }, pc := .call }
  | .call => s.onJoinWait (.acquire k .joiner) .acquire
  | .acquire => if s.target.joinWait.pc .joiner = .own then some { s with pc := .empty } else none
  | .empty =>
    if s.target.joinWait.empty then some { s with pc := .release }
    else s.onJoinWait (.signal .joiner) .signal
  | .signal => if s.target.joinWait.pc .joiner = .out then some { s with pc := .release } else none
  | .release =>
    if s.target.joinWait.pc .joiner = .own then s.onJoinWait (.release .joiner) .leave
    else s.releaseUnowned k
  | .leave =>
    if s.target.joinWait.pc .joiner = .out ∧ s.joinMtx.status .joiner = .out then
      some { s with pc := .done }
    else none

inductive Action (K : Type*)
  /-- `detach` is called. -/
  | detach
  /-- A step of `detach`, on kThread `k`. -/
  | run (k : K)
  /-- The function of the target returns. -/
  | terminate
  /-- A step of the target, on kThread `k`. -/
  | target (k : K)
  /-- A step inside `joinMtx` or `joinWait`. -/
  | joinWait (a : ConditionVariable.Action K Party)
  /-- A step inside `afterJoin`. -/
  | afterJoin (a : Semaphore.Action K Party)

def step (s : State K) : Action K → Option (State K)
  | .detach => if s.pc = .start then some { s with pc := .mark } else none
  | .run k => run k s
  | .terminate => (Join.step s.target (.start .target)).map fun t => { s with target := t }
  | .target k => (Join.step s.target (.run k .target)).map fun t => { s with target := t }
  | .joinWait a => (Join.step s.target (.joinWait a)).map fun t => { s with target := t }
  | .afterJoin a => (Join.step s.target (.afterJoin a)).map fun t => { s with target := t }

def machine (K : Type*) [DecidableEq K] : Machine (State K) (Action K) where
  init := fun s => s = initial
  step := step

/-! ## What can go wrong -/

/-- The target has read that it is not detached, and has still to wait on `joinWait` or is waiting
on it, with nobody having signalled it. -/
def Waiting (s : State K) : Prop :=
  s.target.pc .target = .acquire ∨ s.target.pc .target = .empty ∨
    s.target.pc .target = .wait ∧
      (s.target.joinWait.queue.pc .target = .suspend ∨
        s.target.joinWait.queue.pc .target = .hookPush ∨ .target ∈ s.target.joinWait.queue.bq)

structure Safe (s : State K) : Prop where
  /-- `Mutex::release` is called by the owner. -/
  owned : ∀ k p, s.joinMtx.act k = .relLock p → s.joinMtx.owner = some p
  /-- `detach` is not in progress when the target is `TERMINATED`. -/
  alive : s.target.pc .target = .done → s.pc = .start ∨ s.pc = .done
  /-- When `detach` has returned, the target is not left waiting. -/
  woken : s.pc = .done → ¬Waiting s

/-- Party `p` takes `joinMtx` on kThread `k`. -/
def takes (k : ℕ) (p : Party) : List (Action ℕ) :=
  List.replicate 4 (.joinWait (.queue (.mutex k))) ++
    [.joinWait (.queue (.run k p)), .joinWait (.run k p)]

/-- The target comes to wait on `joinWait`; `detach` finds it there and signals it. -/
def signalled : List (Action ℕ) :=
  List.flatten [[.terminate, .target 0], takes 0 .target, [.target 0, .target 0],
    List.replicate 3 (.joinWait (.queue (.run 0 .target))),
    List.replicate 4 (.joinWait (.queue (.mutex 0))),
    [.detach, .run 1, .run 1], takes 1 .joiner, [.run 1, .run 1],
    List.replicate 4 (.joinWait (.queue (.run 1 .joiner))),
    List.replicate 4 (.joinWait (.queue (.mutex 1))),
    List.replicate 2 (.joinWait (.queue (.run 1 .joiner))),
    [.joinWait (.run 1 .joiner), .run 1, .run 1]]

/-- The target terminates right after `detach` has written `jState`. -/
def terminated : List (Action ℕ) := [.detach, .run 1, .terminate, .target 0]

/-- The target has read `jState`; `detach` finds nobody waiting and returns, and the target
waits. -/
def left : List (Action ℕ) :=
  List.flatten [[.terminate, .target 0, .detach, .run 1, .run 1], takes 1 .joiner,
    [.run 1, .run 1, .run 1, .joinWait (.queue (.run 1 .joiner))],
    List.replicate 4 (.joinWait (.queue (.mutex 1))),
    [.joinWait (.queue (.run 1 .joiner)), .joinWait (.run 1 .joiner), .run 1], takes 0 .target,
    [.target 0, .target 0], List.replicate 3 (.joinWait (.queue (.run 0 .target)))]

/-- **`detach` is not safe against `terminate`.** It releases `joinMtx` a second time, without
owning it; it is still to take `joinMtx` when the target has terminated; it returns, and the target
waits on `joinWait`. -/
theorem detach_unsafe :
    (∃ s : State ℕ, (machine ℕ).Reachable s ∧ s.joinMtx.act 1 = .relLock .joiner ∧
      s.joinMtx.owner = none) ∧
    (∃ s : State ℕ, (machine ℕ).Reachable s ∧ s.target.pc .target = .done ∧ s.pc = .call) ∧
    ∃ s : State ℕ, (machine ℕ).Reachable s ∧ s.pc = .done ∧ s.target.pc .target = .wait ∧
      .target ∈ s.target.joinWait.queue.bq := by
  have hinit : (machine ℕ).Reachable initial := .of_init rfl
  refine ⟨⟨_, hinit.get signalled (by decide +kernel), ?_⟩,
    ⟨_, hinit.get terminated (by decide +kernel), ?_⟩, ⟨_, hinit.get left (by decide +kernel), ?_⟩⟩
  · decide +kernel
  · decide +kernel
  · decide +kernel

/-! ## When it is safe -/

/-- The target has not read `jState`. -/
def Early (s : State K) : Prop := s.target.pc .target = .start ∨ s.target.pc .target = .test

/-- `detach` is called before the target reads `jState`, and the target does not read it before
`detach` returns. -/
def InOrder (s : State K) : Action K → Prop
  | .detach => Early s
  | .target _ => s.target.pc .target = .test → s.pc = .start ∨ s.pc = .done
  | _ => True

/-- The positions of `detach` in `joinWait`: the uThread never comes to signal. -/
def Pc.Fits : Pc → ConditionVariable.Pc → Prop
  | .acquire, x => x = .acquire ∨ x = .own
  | .empty, x | .release, x => x = .own
  | .leave, x => x = .release ∨ x = .out
  | .signal, _ => False
  | _, x => x = .out

structure Inv (s : State K) : Prop where
  joinWait : (ConditionVariable.machine K Party).Reachable s.target.joinWait
  fits : s.pc.Fits (s.target.joinWait.pc .joiner)
  early : s.pc ≠ .start → Early s ∨ s.pc = .done ∧ s.target.pc .target = .done
  outside : Early s → s.target.joinWait.pc .target = .out
  marked : s.pc ≠ .start → s.pc ≠ .mark → s.target.jState = .detached

section Steps

variable {s s' : State K} {c c' : ConditionVariable.State K Party} {k : K}

/-- A step inside `joinWait` for a uThread that is in no `wait` and in no `signal`. -/
theorem Pc.Fits.internal {x : Pc} {p : Party} {a : ConditionVariable.Action K Party}
    (ha : a.internal = true) (hs : ConditionVariable.step c a = some c') (h : x.Fits (c.pc p)) :
    x.Fits (c'.pc p) := by
  cases ConditionVariable.step_cases hs with
  | queue => exact h
  | @ret k q y z w hr hq =>
    show x.Fits (Function.update c.pc q z p)
    by_cases hp : p = q
    · subst hp
      rw [hq] at h
      rw [Function.update_self]
      cases hr <;> cases x <;> simp_all [Pc.Fits]
    · rw [Function.update_of_ne hp]
      exact h
  | @call a q b y z w q' hc hq =>
    show x.Fits (Function.update c.pc q z p)
    by_cases hp : p = q
    · subst hp
      rw [hq] at h
      rw [Function.update_self]
      cases hc <;> cases x <;> simp_all [Pc.Fits, ConditionVariable.Action.internal]
    · rw [Function.update_of_ne hp]
      exact h

/-- `detach` finds nobody on `joinWait`. -/
theorem Inv.empty (h : Inv s) (hp : s.pc = .empty) : s.target.joinWait.empty = true := by
  have hI := ConditionVariable.inv_reachable h.joinWait
  have hB := BlockingQueue.inv_reachable hI.queue
  have hearly : Early s := (h.early (by simp [hp])).resolve_right (by simp [hp])
  have hown : s.target.joinWait.pc .joiner = .own := by
    have hf := h.fits
    rwa [hp] at hf
  have hpc : ∀ p, (s.target.joinWait.queue.pc p).queued = false := by
    intro p
    have hag := hI.agrees p
    cases p with
    | joiner =>
      rw [hown] at hag
      cases hq : s.target.joinWait.queue.pc .joiner <;> rw [hq] at hag <;> first | rfl | cases hag
    | target =>
      rw [h.outside hearly] at hag
      cases hq : s.target.joinWait.queue.pc .target <;> rw [hq] at hag <;> first | rfl | cases hag
  refine List.isEmpty_iff.mpr (List.eq_nil_iff_forall_not_mem.mpr fun p hmem => ?_)
  have hq := hB.queued p hmem
  simp [hpc p] at hq

/-- `detach` goes on to `x`, with `joinWait` at `c`. -/
theorem Inv.move (h : Inv s) {x : Pc} (hreach : (ConditionVariable.machine K Party).Reachable c)
    (hx : x.Fits (c.pc .joiner)) (htarget : c.pc .target = s.target.joinWait.pc .target)
    (hp : s.pc ≠ .start ∧ s.pc ≠ .mark ∧ s.pc ≠ .done) :
    Inv { s with target := { s.target with joinWait := c }, pc := x } where
  joinWait := hreach
  fits := hx
  early := fun _ => .inl ((h.early hp.1).resolve_right fun he => hp.2.2 he.1)
  outside := fun he => htarget.trans (h.outside he)
  marked := fun _ _ => h.marked hp.1 hp.2.1

theorem inv_run (h : Inv s) (hs : run k s = some s') : Inv s' := by
  have hfits := h.fits
  have hgo : ∀ x : Pc, x.Fits (s.target.joinWait.pc .joiner) →
      s.pc ≠ .start ∧ s.pc ≠ .mark ∧ s.pc ≠ .done → Inv { s with pc := x } :=
    fun x hx hp => h.move h.joinWait hx rfl hp
  unfold run at hs
  cases hp : s.pc <;> rw [hp] at hfits hgo <;> simp only [hp] at hs
  case start | done => cases hs
  case mark =>
    obtain rfl := Option.some.inj hs
    have hearly := (h.early (by simp [hp])).resolve_right (by simp [hp])
    exact ⟨h.joinWait, hfits, fun _ => .inl hearly, h.outside, fun _ _ => rfl⟩
  case call =>
    obtain ⟨c, hc, rfl⟩ := Option.map_eq_some_iff.mp hs
    have hpc : c.pc = Function.update s.target.joinWait.pc .joiner .acquire := by
      cases ConditionVariable.step_cases hc with
      | call hcall => cases hcall; rfl
    refine h.move (ConditionVariable.reachable_step h.joinWait hc) ?_ ?_ (by simp [hp])
    · simp [hpc, Pc.Fits]
    · simp [hpc]
  case acquire =>
    split_ifs at hs with hown
    obtain rfl := Option.some.inj hs
    exact hgo .empty hown (by simp)
  case empty =>
    rw [if_pos (h.empty hp)] at hs
    obtain rfl := Option.some.inj hs
    exact hgo .release hfits (by simp)
  case signal => exact hfits.elim
  case release =>
    have hown : s.target.joinWait.pc .joiner = .own := hfits
    rw [if_pos hown] at hs
    obtain ⟨c, hc, rfl⟩ := Option.map_eq_some_iff.mp hs
    have hpc : c.pc = Function.update s.target.joinWait.pc .joiner .release := by
      cases ConditionVariable.step_cases hc with
      | call hcall => cases hcall; rfl
    refine h.move (ConditionVariable.reachable_step h.joinWait hc) ?_ ?_ (by simp [hp])
    · simp [hpc, Pc.Fits]
    · simp [hpc]
  case leave =>
    split_ifs at hs with hout
    obtain rfl := Option.some.inj hs
    exact hgo .done hout.1 (by simp)

/-- The target goes from `t` to `t'` in `terminate`: it is past the test of `jState`, and leaves the
other uThread where it is in `joinWait`. -/
structure Passes (t t' : Join.State K) : Prop where
  joinWait : (ConditionVariable.machine K Party).Reachable t'.joinWait
  joiner : t'.joinWait.pc .joiner = t.joinWait.pc .joiner
  past : t'.pc .target ≠ .start ∧ t'.pc .target ≠ .test

theorem target_step {t t' : Join.State K} (hs : Join.run k .target t = some t')
    (hreach : (ConditionVariable.machine K Party).Reachable t.joinWait) : Passes t t' := by
  -- The calls on `joinWait`.
  have hcall : ∀ {u : Join.State K} {a : ConditionVariable.Action K Party} {x : Join.Pc},
      u.joinWait = t.joinWait → u.onJoinWait a .target x = some t' → x ≠ .start ∧ x ≠ .test →
      a = .acquire k .target ∨ a = .wait .target ∨ a = .signal .target ∨ a = .release .target →
      Passes t t' := by
    intro u a x hu hx hpast ha
    obtain ⟨c, hc, rfl⟩ := Option.map_eq_some_iff.mp hx
    rw [hu] at hc
    refine ⟨ConditionVariable.reachable_step hreach hc, ?_, ?_⟩
    · rcases ha with rfl | rfl | rfl | rfl <;> cases ConditionVariable.step_cases hc with
      | call h => cases h; simp [Join.State.goto, ConditionVariable.State.goto]
    · simpa [Join.State.goto] using hpast
  -- The steps that leave `joinWait`.
  have hgo : ∀ {u : Join.State K} {x : Join.Pc}, u.joinWait = t.joinWait →
      u.goto .target x = t' → x ≠ .start ∧ x ≠ .test → Passes t t' := by
    rintro u x hu rfl hpast
    refine ⟨?_, ?_, ?_⟩
    · show (ConditionVariable.machine K Party).Reachable u.joinWait
      rwa [hu]
    · show u.joinWait.pc .joiner = _
      rw [hu]
    · simpa [Join.State.goto] using hpast
  unfold Join.run at hs
  cases hx : t.pc .target <;> simp only [hx] at hs
  case start | done | refused => cases hs
  case test =>
    split_ifs at hs
    · exact hgo rfl (Option.some.inj hs) (by simp)
    · exact hcall rfl hs (by simp) (by simp)
  case mark => exact hcall (u := { t with jState := .joining }) rfl hs (by simp) (by simp)
  case acquire =>
    split_ifs at hs
    exact hgo rfl (Option.some.inj hs) (by simp)
  case empty =>
    split_ifs at hs
    · exact hcall (u := { t with first := some .target }) rfl hs (by simp) (by simp)
    · exact hcall rfl hs (by simp) (by simp)
  case wait => exact hcall rfl hs (by simp) (by simp)
  case release =>
    split_ifs at hs with _ hcaller
    · cases hcaller
    · exact hgo rfl (Option.some.inj hs) (by simp)
  case signal =>
    split_ifs at hs with _ hcaller
    · cases hcaller
    · obtain ⟨c, -, he⟩ := Option.map_eq_some_iff.mp hs
      exact hgo (u := { t with afterJoin := c }) rfl he (by simp)
  case afterV | afterP =>
    split_ifs at hs
    exact hgo rfl (Option.some.inj hs) (by simp)

theorem inv_target (h : Inv s) {t : Join.State K}
    (hc : s.target.pc .target = .test → s.pc = .start ∨ s.pc = .done)
    (hs : Join.run k .target s.target = some t) : Inv { s with target := t } := by
  obtain ⟨hreach, hjoiner, hpast⟩ := target_step hs h.joinWait
  have hlate : ¬Early { s with target := t } := by
    rintro (he | he)
    · exact hpast.1 he
    · exact hpast.2 he
  have hfits : s.pc.Fits (t.joinWait.pc .joiner) := by
    rw [hjoiner]
    exact h.fits
  by_cases hp : s.pc = .start
  · exact ⟨hreach, hfits, fun hn => absurd hp hn, fun he => absurd he hlate, fun hn => absurd hp hn⟩
  -- `detach` has returned, and the target reads that it is detached.
  have hstep : s.target.pc .target ≠ .start ∧ s.target.pc .target ≠ .done := by
    unfold Join.run at hs
    refine ⟨fun hx => ?_, fun hx => ?_⟩ <;> simp [hx] at hs
  have htest : s.target.pc .target = .test := by
    rcases h.early hp with (he | he) | he
    · exact absurd he hstep.1
    · exact he
    · exact absurd he.2 hstep.2
  have hdone : s.pc = .done := (hc htest).resolve_left hp
  have hj : s.target.jState = .detached := h.marked hp (by simp [hdone])
  unfold Join.run at hs
  simp only [htest, hj] at hs
  obtain rfl := Option.some.inj hs
  refine ⟨hreach, hfits, fun _ => .inr ⟨hdone, ?_⟩, fun he => absurd he hlate, fun _ _ => hj⟩
  simp [Join.State.goto]

theorem inv_step (h : Inv s) {a : Action K} (hc : InOrder s a) (hs : step s a = some s') :
    Inv s' := by
  cases a with
  | detach =>
    simp only [step] at hs
    split_ifs at hs with hp
    obtain rfl := Option.some.inj hs
    have hfits := h.fits
    rw [hp] at hfits
    exact ⟨h.joinWait, hfits, fun _ => .inl hc, h.outside, by simp⟩
  | run k => exact inv_run h hs
  | terminate =>
    obtain ⟨t, ht, rfl⟩ := Option.map_eq_some_iff.mp hs
    simp only [Join.step] at ht
    split_ifs at ht with hx
    obtain rfl := Option.some.inj ht
    have hearly : Early { s with target := s.target.goto .target .test } := by
      simp [Early, Join.State.goto]
    exact ⟨h.joinWait, h.fits, fun _ => .inl hearly, fun _ => h.outside (.inl hx), h.marked⟩
  | target k =>
    obtain ⟨t, ht, rfl⟩ := Option.map_eq_some_iff.mp hs
    exact inv_target h hc ht
  | joinWait a =>
    obtain ⟨t, ht, rfl⟩ := Option.map_eq_some_iff.mp hs
    simp only [Join.step] at ht
    split_ifs at ht with ha
    obtain ⟨c, hc', rfl⟩ := Option.map_eq_some_iff.mp ht
    have hout : ∀ he : Early s, c.pc .target = .out := fun he =>
      Pc.Fits.internal (x := .start) ha hc' (h.outside he)
    exact ⟨ConditionVariable.reachable_step h.joinWait hc', h.fits.internal ha hc', h.early, hout,
      h.marked⟩
  | afterJoin a =>
    obtain ⟨t, ht, rfl⟩ := Option.map_eq_some_iff.mp hs
    simp only [Join.step] at ht
    split_ifs at ht
    obtain ⟨c, -, rfl⟩ := Option.map_eq_some_iff.mp ht
    exact ⟨h.joinWait, h.fits, h.early, h.outside, h.marked⟩

theorem inv_reachable (h : (machine K).ReachableBy InOrder s) : Inv s := by
  refine Machine.ReachableBy.invariant (I := Inv) ?_ (fun _ _ _ hI hc hs => inv_step hI hc hs) h
  rintro s rfl
  exact ⟨.of_init rfl, rfl, fun hn => absurd rfl hn, fun _ => rfl, fun hn => absurd rfl hn⟩

/-- **`detach` is safe** in every run in which it is over before the target reads `jState`. -/
theorem detach_safe (h : (machine K).ReachableBy InOrder s) : Safe s := by
  have hI := inv_reachable h
  have hB := BlockingQueue.inv_reachable (ConditionVariable.inv_reachable hI.joinWait).queue
  refine ⟨fun k p hk => ?_, fun hdone => ?_, fun hdone hwait => ?_⟩
  · have hview := (Mutex.inv_reachable hB.mutex).view k
    rw [show s.target.joinWait.queue.mutex.act k = .relLock p from hk] at hview
    exact hview
  · by_cases hp : s.pc = .start
    · exact .inl hp
    · rcases hI.early hp with (he | he) | he
      · simp [hdone] at he
      · simp [hdone] at he
      · exact .inr he.1
  · have hpast : s.target.pc .target = .start ∨ s.target.pc .target = .test ∨
        s.target.pc .target = .done := by
      rcases hI.early (by simp [hdone]) with (he | he) | he
      · exact .inl he
      · exact .inr (.inl he)
      · exact .inr (.inr he.2)
    rcases hpast with he | he | he <;> simp [Waiting, he] at hwait

instance (s : State K) : (a : Action K) → Decidable (InOrder s a)
  | .detach => inferInstanceAs (Decidable (_ ∨ _))
  | .target _ => inferInstanceAs (Decidable (_ → _))
  | .run _ | .terminate | .joinWait _ | .afterJoin _ => inferInstanceAs (Decidable True)

/-- `detach` runs to its end, and then the target terminates. -/
def detachedFirst : List (Action ℕ) :=
  List.flatten [[.detach, .run 1, .run 1], takes 1 .joiner,
    [.run 1, .run 1, .run 1, .joinWait (.queue (.run 1 .joiner))],
    List.replicate 4 (.joinWait (.queue (.mutex 1))),
    [.joinWait (.queue (.run 1 .joiner)), .joinWait (.run 1 .joiner), .run 1, .terminate,
      .target 0]]

theorem detach_safe_detachedFirst :
    ∃ s : State ℕ, (machine ℕ).ReachableBy InOrder s ∧ s.pc = .done ∧ s.target.pc .target = .done ∧
      Safe s := by
  have hinit : (machine ℕ).ReachableBy InOrder initial := .init rfl
  have hr := hinit.get detachedFirst (by decide +kernel)
  exact ⟨_, hr, by decide +kernel, by decide +kernel, detach_safe hr⟩

end Steps

end UThreads.Detach
