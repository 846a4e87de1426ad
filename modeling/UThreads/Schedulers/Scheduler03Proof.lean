import Mathlib.Data.Fintype.Option
import UThreads.Lib.Exclusion
import UThreads.Schedulers.Scheduler03

/-!
# `Scheduler_03`: uThreads are delivered, and no wake-up is lost

The invariant has four parts.

* `Queued`: the queues are lists, and the run queue has what was pushed and not yet popped.
* `Tasks`: a uThread that is being scheduled is on no queue, and `bulkCounter` is the length of the
  bulk queue, except between the transfer and `bulkCounter = 0`.
* `Locks`: at most one thread is in the sections of a mutex.
* `Awake`: a kThread that is about to sleep has an empty queue, since nobody pushes while it has the
  mutex; a kThread that sleeps has an empty queue, or a producer has still to notify it.

**FIFO** (`runQueue_fifo`). In every reachable state the queues are lists without a common uThread,
the uThreads that a kThread has popped and those on its run queue are those that were pushed, in
order, `front` is never called on an empty queue, and at most one thread is between the lock and the
unlock of a mutex.

**No lost wake-up** (`no_lost_notification`). A kThread that sleeps in `cv.wait` has an empty run
queue, unless a producer has pushed and has not yet notified it.

**`__Pop` takes the oldest** (`pop_returns_oldest`). If there is work and nobody else has the mutex,
the kThread alone has the oldest uThread in at most three steps, and then the mutex to release.
-/

namespace UThreads.Scheduler03

open QueueStore (Rep Clean)

variable {K U P : Type*} [DecidableEq K] [DecidableEq U] [DecidableEq P]

/-! ## What a position says -/

/-- The uThread that is to be put on the run queue. -/
def Schedule.ut : Schedule K U → Option U
  | .lock _ (.one ut) | .push _ (.one ut) => some ut
  | _ => none

/-- The scheduler whose mutex the thread has. -/
def Schedule.locked : Schedule K U → Option K
  | .push kt _ | .notify kt _ | .unlock kt _ => some kt
  | _ => none

/-- The scheduler whose kThread is to be notified. -/
def Schedule.notifies : Schedule K U → Option K
  | .notify kt _ => some kt
  | _ => none

/-- In `bulkPush`. -/
def Schedule.bulk : Schedule K U → Bool
  | .lock _ .bulk | .push _ .bulk | .notify _ .bulk | .unlock _ .bulk | .zero _ => true
  | _ => false

/-- The bulk queue of kThread `k` has the uThreads `l`, and `bulkCounter` is `n`. -/
def Schedule.Counted (k : K) (l : List U) (n : ℕ) : Schedule K U → Prop
  | .lock kt .bulk | .push kt .bulk => n = l.length ∧ (kt = k → l ≠ [])
  | .notify kt .bulk | .unlock kt .bulk | .zero kt => if kt = k then l = [] else n = l.length
  | _ => n = l.length

/-- The kThread has the mutex of its scheduler. -/
def Consumer.locked : Consumer U → Bool
  | .tryEmpty _ | .tryPop _ | .tryUnlock _ _ | .empty | .wait | .pop | .unlock _ => true
  | _ => false

/-- At `runQueue.front()`. -/
def Consumer.pops : Consumer U → Bool
  | .tryPop _ | .pop => true
  | _ => false

omit [DecidableEq K] [DecidableEq U] in
theorem notifies_locked {x : Schedule K U} {k : K} (h : x.notifies = some k) :
    x.locked = some k := by
  cases x with
  | notify kt task => exact h
  | _ => simp [Schedule.notifies] at h

/-! ## The invariant -/

structure Queued (s : State K U P) (lists : Queue K → List U) : Prop where
  clean : Clean s.store lists
  fifo : ∀ k, s.popped k ++ lists (.runQueue k) = s.pushed k
  bulk : ∀ k, s.bulk k = lists (.bulkQueue k)
  place : ∀ u i, u ∈ lists i → s.place u = .queued

structure Tasks (s : State K U P) (lists : Queue K → List U) : Prop where
  scheduling : ∀ t u, (s.producer t).ut = some u → s.place u = .scheduling t
  counted : ∀ k, (s.producer none).Counted k (lists (.bulkQueue k)) (s.bulkCounter k)
  /-- Only the poller pushes bulk queues. -/
  poller : ∀ p, (s.producer (some p)).bulk = false

/-- The scheduler whose mutex a kThread has, or a thread in `schedule`. -/
def State.holds (s : State K U P) : K ⊕ Option P → Option K
  | .inl k => if (s.consumer k).locked = true then some k else none
  | .inr t => (s.producer t).locked

def Locks (s : State K U P) : Prop := Locked s.holds s.mtx

structure Awake (s : State K U P) (lists : Queue K → List U) : Prop where
  wait : ∀ k, s.consumer k = .wait → lists (.runQueue k) = []
  waiting : ∀ k, s.consumer k = .waiting →
    lists (.runQueue k) = [] ∨ ∃ t, (s.producer t).notifies = some k
  front : ∀ k, (s.consumer k).pops = true → lists (.runQueue k) ≠ []

structure Inv (s : State K U P) (lists : Queue K → List U) : Prop where
  queued : Queued s lists
  tasks : Tasks s lists
  locks : Locks s
  awake : Awake s lists

variable {s s' : State K U P} {lists : Queue K → List U} {k kt : K} {t : Option P} {u : U}
  {x : Schedule K U} {c : Consumer U}

/-! ## The mutex -/

omit [DecidableEq U] in
theorem holds_advance : (s.advance t x).holds = Function.update s.holds (.inr t) x.locked := by
  funext y
  cases y with
  | inl k => rw [Function.update_of_ne (by simp)]; rfl
  | inr t' => by_cases ht : t' = t <;> simp [State.holds, State.advance, ht]

omit [DecidableEq U] in
theorem holds_goto :
    (s.goto k c).holds = Function.update s.holds (.inl k)
    (if c.locked = true then some k else none) := by
  funext y
  cases y with
  | inl j => by_cases hj : j = k <;> simp [State.holds, State.goto, hj]
  | inr t => simp [State.holds, State.goto]

omit [DecidableEq K] [DecidableEq U] [DecidableEq P] in
theorem Locks.congr (h : Locks s) (hm : s'.mtx = s.mtx) (hp : s'.producer = s.producer)
    (hc : s'.consumer = s.consumer) : Locks s' := by
  have hholds : s'.holds = s.holds := by
    funext y
    cases y <;> simp [State.holds, hp, hc]
  rw [Locks, hholds, hm]
  exact h

omit [DecidableEq U] in
theorem Locks.advance (h : Locks s) (hx : x.locked = (s.producer t).locked) :
    Locks (s.advance t x) := by
  rw [Locks, holds_advance, hx]
  exact (Function.update_eq_self (.inr t) s.holds).symm ▸ h

omit [DecidableEq U] in
theorem Locks.lock (h : Locks s) (hfree : s.mtx kt = false) (hold : (s.producer t).locked = none)
    (hx : x.locked = some kt) : Locks ((s.setMtx kt true).advance t x) := by
  rw [Locks, holds_advance, hx]
  exact Locked.lock h hold hfree

omit [DecidableEq U] in
theorem Locks.unlock (h : Locks s) (hold : (s.producer t).locked = some kt) (hx : x.locked = none) :
    Locks ((s.setMtx kt false).advance t x) := by
  rw [Locks, holds_advance, hx]
  exact Locked.unlock h hold

omit [DecidableEq U] in
theorem Locks.goto (h : Locks s) (hc : c.locked = (s.consumer k).locked) : Locks (s.goto k c) := by
  rw [Locks, holds_goto, hc]
  exact (Function.update_eq_self (.inl k) s.holds).symm ▸ h

omit [DecidableEq U] in
theorem Locks.consumerLock (h : Locks s) (hfree : s.mtx k = false)
    (hold : (s.consumer k).locked = false)
    (hc : c.locked = true) : Locks ((s.setMtx k true).goto k c) := by
  rw [Locks, holds_goto, if_pos hc]
  exact Locked.lock h (by simp [State.holds, State.setMtx, hold]) hfree

omit [DecidableEq U] in
theorem Locks.consumerUnlock (h : Locks s) (hold : (s.consumer k).locked = true)
    (hc : c.locked = false) : Locks ((s.setMtx k false).goto k c) := by
  rw [Locks, holds_goto, if_neg (by simp [hc])]
  exact Locked.unlock h (if_pos hold)

omit [DecidableEq K] [DecidableEq U] [DecidableEq P] in
/-- While a producer has the mutex, the kThread has not. -/
theorem Locks.alone (h : Locks s) (ht : (s.producer t).locked = some k) :
    (s.consumer k).locked = false := by
  by_contra hc
  have hin : s.holds (.inl k) = some k := if_pos (by simpa using hc)
  cases (h k).one hin (show s.holds (.inr t) = some k from ht)

/-! ## The tasks -/

omit [DecidableEq U] [DecidableEq P] in
theorem Tasks.congr (h : Tasks s lists) (hp : s'.producer = s.producer)
    (hplace : s'.place = s.place) (hb : s'.bulkCounter = s.bulkCounter) : Tasks s' lists := by
  refine ⟨?_, ?_, ?_⟩
  · rw [hp, hplace]
    exact h.scheduling
  · rw [hp, hb]
    exact h.counted
  · rw [hp]
    exact h.poller

omit [DecidableEq U] in
/-- Thread `t` comes to `x`. -/
theorem Tasks.step {lists' : Queue K → List U} (h : Tasks s lists)
    (hp : s'.producer = Function.update s.producer t x)
    (hut : ∀ u, x.ut = some u → s'.place u = .scheduling t)
    (hplace : ∀ t' u, t' ≠ t → s.place u = .scheduling t' → s'.place u = .scheduling t')
    (hcounted : ∀ k, (s'.producer none).Counted k (lists' (.bulkQueue k)) (s'.bulkCounter k))
    (hbulk : t ≠ none → x.bulk = false) : Tasks s' lists' := by
  refine ⟨fun t' u hu => ?_, hcounted, fun p => ?_⟩
  · rw [hp] at hu
    by_cases ht : t' = t
    · subst ht
      exact hut u (by simpa using hu)
    · exact hplace t' u ht (h.scheduling t' u (by simpa [ht] using hu))
  · rw [hp]
    by_cases ht : some p = t
    · subst ht
      simpa using hbulk (Option.some_ne_none p)
    · simpa [ht] using h.poller p

omit [DecidableEq U] in
/-- A step that leaves the task of the thread alone, and is not a transfer. -/
theorem Tasks.advance (h : Tasks s lists) (hut : x.ut = (s.producer t).ut ∨ x.ut = none)
    (hcounted : ∀ k l n, (s.producer t).Counted k l n → x.Counted k l n)
    (hbulk : (s.producer t).bulk = false → x.bulk = false) : Tasks (s.advance t x) lists := by
  refine h.step rfl (fun u hu => ?_) (fun _ _ _ hu => hu) (fun k => ?_) fun ht => ?_
  · rcases hut with he | he
    · exact h.scheduling t u (he ▸ hu)
    · rw [he] at hu
      cases hu
  · by_cases ht : none = t
    · subst ht
      simpa [State.advance] using hcounted k _ _ (h.counted k)
    · simpa [State.advance, ht] using h.counted k
  · obtain ⟨p, rfl⟩ := Option.ne_none_iff_exists'.mp ht
    exact hbulk (h.poller p)

omit [DecidableEq U] [DecidableEq P] in
/-- Only the poller is in `bulkPush`. -/
theorem Tasks.eq_none (h : Tasks s lists) (ht : (s.producer t).bulk = true) : t = none := by
  by_contra hne
  obtain ⟨p, rfl⟩ := Option.ne_none_iff_exists'.mp hne
  rw [h.poller p] at ht
  cases ht

/-! ## The queues -/

omit [DecidableEq K] [DecidableEq U] [DecidableEq P] in
theorem Queued.notMem (h : Queued s lists) (hu : s.place u ≠ .queued) (i : Queue K) : u ∉ lists i :=
  fun hi => hu (h.place u i hi)

omit [DecidableEq P] in
/-- The uThread `u` is put at the end of queue `i`. -/
theorem Queued.place_push (h : Queued s lists) {i j : Queue K} {v : U}
    (hv : v ∈ Function.update lists i (lists i ++ [u]) j) :
    Function.update s.place u Place.queued v = Place.queued := by
  by_cases hvu : v = u
  · simp [hvu]
  · have hj : v ∈ lists j := by
      by_cases hj : j = i
      · subst hj
        simpa [hvu] using hv
      · simpa [hj] using hv
    simpa [hvu] using h.place v j hj

omit [DecidableEq P] in
/-- `runQueue.push(*ut)` -/
theorem Queued.push_one (h : Queued s lists) (kt : K) (hu : s.place u ≠ .queued) :
    ∃ s', push kt (.one u) s = some s' ∧ s'.consumer = s.consumer ∧ s'.mtx = s.mtx ∧
      s'.producer = s.producer ∧
      s'.bulkCounter = s.bulkCounter ∧ s'.place = Function.update s.place u .queued ∧
      Queued s' (Function.update lists (.runQueue kt) (lists (.runQueue kt) ++ [u])) := by
  obtain ⟨store, hpush, hclean⟩ := h.clean.push (i := .runQueue kt) (h.notMem hu)
  rw [push, hpush]
  refine ⟨_, rfl, rfl, rfl, rfl, rfl, rfl, hclean, fun k => ?_, fun k => ?_,
    fun v i hv => h.place_push hv⟩
  · by_cases hk : k = kt
    · subst hk
      simp [← h.fifo]
    · simpa [hk] using h.fifo k
  · simpa using h.bulk k

omit [DecidableEq P] in
/-- `runQueue.transferAllFrom(queue)` -/
theorem Queued.push_bulk (h : Queued s lists) (hne : lists (.bulkQueue kt) ≠ []) :
    ∃ s', push kt .bulk s = some s' ∧ s'.consumer = s.consumer ∧ s'.mtx = s.mtx ∧
      s'.producer = s.producer ∧ s'.bulkCounter = s.bulkCounter ∧ s'.place = s.place ∧
      Queued s' (Function.update (Function.update lists (.bulkQueue kt) []) (.runQueue kt)
        (lists (.runQueue kt) ++ lists (.bulkQueue kt))) := by
  obtain ⟨store, htransfer, hclean⟩ := h.clean.transferAllFrom (i := .runQueue kt) (by simp) hne
  rw [push, htransfer]
  refine ⟨_, rfl, rfl, rfl, rfl, rfl, rfl, hclean, fun k => ?_, fun k => ?_, fun v i hv => ?_⟩
  · by_cases hk : k = kt
    · subst hk
      simp [← h.fifo, h.bulk]
    · simpa [hk] using h.fifo k
  · by_cases hk : k = kt
    · simp [hk]
    · simpa [hk] using h.bulk k
  · by_cases hi : i = .runQueue kt
    · subst hi
      rw [Function.update_self, List.mem_append] at hv
      exact hv.elim (h.place v _) (h.place v _)
    · by_cases hb : i = .bulkQueue kt
      · subst hb
        simp at hv
      · exact h.place v i (by simpa [hi, hb] using hv)

omit [DecidableEq P] in
/-- `runQueue.front()` and `runQueue.pop()` -/
theorem Queued.pop {f : U → Consumer U} (h : Queued s lists) (hne : lists (.runQueue k) ≠ []) :
    ∃ ut s' l, pop k f s = some s' ∧ lists (.runQueue k) = ut :: l ∧ s'.mtx = s.mtx ∧
      s'.producer = s.producer ∧ s'.bulkCounter = s.bulkCounter ∧
      s'.consumer = Function.update s.consumer k (f ut) ∧
      s'.place = Function.update s.place ut .free ∧
      Queued s' (Function.update lists (.runQueue k) l) := by
  obtain ⟨ut, l, hl⟩ := List.exists_cons_of_ne_nil hne
  obtain ⟨store, hpop, hclean⟩ := h.clean.pop hl
  rw [Scheduler03.pop, hpop]
  refine ⟨ut, _, l, rfl, hl, rfl, rfl, rfl, rfl, rfl, hclean, fun j => ?_, fun j => ?_,
    fun v i hv => ?_⟩
  · by_cases hj : j = k
    · subst hj
      simp [State.goto, ← h.fifo, hl]
    · simpa [State.goto, hj] using h.fifo j
  · simpa [State.goto] using h.bulk j
  · have hv' : v ∈ lists i := by
      by_cases hi : i = .runQueue k
      · subst hi
        rw [Function.update_self] at hv
        exact hl ▸ List.mem_cons_of_mem ut hv
      · simpa [hi] using hv
    have hvu : v ≠ ut := by
      rintro rfl
      exact h.clean.rep.detached_free (l := [v]) hl List.mem_cons_self i hv
    simpa [State.goto, hvu] using h.place v i hv'

/-! ## Sleep and wake-up -/

omit [DecidableEq K] [DecidableEq U] in
theorem Awake.advance (h : Awake s lists)
    (hx : ∀ k, (s.producer t).notifies = some k → x.notifies = some k) :
    Awake (s.advance t x) lists where
  wait := h.wait
  waiting k hk := by
    refine (h.waiting k hk).imp_right fun ⟨t', ht'⟩ => ⟨t', ?_⟩
    by_cases he : t' = t
    · subst he
      simpa [State.advance] using hx k ht'
    · simpa [State.advance, he] using ht'
  front := h.front

omit [DecidableEq U] [DecidableEq P] in
theorem Awake.setMtx {b : Bool} (h : Awake s lists) : Awake (s.setMtx k b) lists :=
  ⟨h.wait, h.waiting, h.front⟩

omit [DecidableEq U] [DecidableEq P] in
theorem Awake.goto (h : Awake s lists) (hc : c = .wait ∨ c = .waiting → lists (.runQueue k) = [])
    (hpops : c.pops = true → lists (.runQueue k) ≠ []) : Awake (s.goto k c) lists where
  wait j hj := by
    by_cases he : j = k
    · subst he
      exact hc (.inl (by simpa [State.goto] using hj))
    · exact h.wait j (by simpa [State.goto, he] using hj)
  waiting j hj := by
    by_cases he : j = k
    · subst he
      exact .inl (hc (.inr (by simpa [State.goto] using hj)))
    · exact h.waiting j (by simpa [State.goto, he] using hj)
  front j hj := by
    by_cases he : j = k
    · subst he
      exact hpops (by simpa [State.goto] using hj)
    · exact h.front j (by simpa [State.goto, he] using hj)

omit [DecidableEq U] in
/-- Only run queue `kt` grows, its kThread is not about to sleep, and it will be notified. -/
theorem Awake.push {lists' : Queue K → List U} (h : Awake s lists)
    (hcons : s'.consumer = s.consumer)
    (hother : ∀ k, k ≠ kt → lists' (.runQueue k) = lists (.runQueue k))
    (hgrow : lists' (.runQueue kt) ≠ [])
    (hwait : s.consumer kt ≠ .wait) (hprod : s'.producer = s.producer)
    (ht : (s.producer t).notifies = none)
    (hx : x.notifies = some kt) : Awake (s'.advance t x) lists' where
  wait k hk := by
    have hk' : s.consumer k = .wait := hcons ▸ hk
    have hne : k ≠ kt := by
      rintro rfl
      exact hwait hk'
    rw [hother k hne]
    exact h.wait k hk'
  waiting k hk := by
    by_cases hne : k = kt
    · exact .inr ⟨t, by simpa [State.advance, hne] using hx⟩
    · rw [hother k hne]
      refine (h.waiting k (hcons ▸ hk)).imp_right fun ⟨t', ht'⟩ => ⟨t', ?_⟩
      have he : t' ≠ t := by
        rintro rfl
        simp [ht] at ht'
      simpa [State.advance, he, hprod] using ht'
  front k hk := by
    by_cases hne : k = kt
    · exact hne ▸ hgrow
    · rw [hother k hne]
      exact h.front k (hcons ▸ hk)

/-- After `cv.notify_one()` the kThread does not sleep. -/
theorem Awake.notify {task : Task U} (h : Awake s lists) (ht : s.producer t = .notify kt task) :
    Awake ((notify kt s).advance t (.unlock kt task)) lists := by
  have hn : Awake (Scheduler03.notify kt s) lists := by
    unfold Scheduler03.notify
    split
    · exact h.goto (by simp) (by simp [Consumer.pops])
    · exact h
  have hprod : (Scheduler03.notify kt s).producer = s.producer := by
    unfold Scheduler03.notify
    split <;> rfl
  refine ⟨hn.wait, fun k hk => ?_, hn.front⟩
  refine (hn.waiting k hk).imp_right fun ⟨t', ht'⟩ => ⟨t', ?_⟩
  have he : t' ≠ t := by
    rintro rfl
    rw [hprod, ht] at ht'
    obtain rfl : kt = k := by simpa [Schedule.notifies] using ht'
    simp only [State.advance, Scheduler03.notify] at hk
    split at hk
    · simp [State.goto] at hk
    · contradiction
  simpa [State.advance, he] using ht'

/-! ## The steps of the producers -/

omit [DecidableEq U] in
theorem Inv.lock {task : Task U} (h : Inv s lists) (ht : s.producer t = .lock kt task)
    (hfree : s.mtx kt = false) : Inv ((s.setMtx kt true).advance t (.push kt task)) lists := by
  have htasks : Tasks (s.setMtx kt true) lists := h.tasks.congr rfl rfl rfl
  refine ⟨⟨h.queued.1, h.queued.2, h.queued.3, h.queued.4⟩, htasks.advance ?_ ?_ ?_,
    h.locks.lock hfree (by rw [ht]; rfl) rfl, h.awake.setMtx.advance ?_⟩
  all_goals
    cases task <;> simp [State.setMtx, ht, Schedule.ut, Schedule.Counted, Schedule.bulk,
      Schedule.notifies]

theorem Inv.push {task : Task U} (h : Inv s lists) (ht : s.producer t = .push kt task) :
    ∃ s' lists', push kt task s = some s' ∧ Inv (s'.advance t (.notify kt task)) lists' := by
  have hwait : s.consumer kt ≠ .wait := by
    intro hw
    have hfree := h.locks.alone (k := kt) (t := t) (by rw [ht]; rfl)
    simp [hw, Consumer.locked] at hfree
  have hlocks : ∀ {s' : State K U P}, s'.mtx = s.mtx → s'.producer = s.producer →
      s'.consumer = s.consumer → Locks (s'.advance t (.notify kt task)) := by
    intro s' hm hp hc
    refine (h.locks.congr hm hp hc).advance ?_
    rw [hp, ht]
    rfl
  cases task with
  | one u =>
    have hu : s.place u = .scheduling t := h.tasks.scheduling t u (by rw [ht]; rfl)
    obtain ⟨s', hpush, hcons, hmtx, hprod, hcount, hplace, hqueued⟩ :=
      h.queued.push_one (u := u) kt (by simp [hu])
    refine ⟨s', _, hpush, ⟨hqueued.1, hqueued.2, hqueued.3, hqueued.4⟩,
      h.tasks.step (by rw [← hprod]; rfl) (by simp [Schedule.ut]) (fun t' v ht' hv => ?_)
        (fun k => ?_) fun _ => rfl, hlocks hmtx hprod hcons,
      h.awake.push hcons (fun k hk => ?_) ?_ hwait hprod (by rw [ht]; rfl) rfl⟩
    · have hvu : v ≠ u := by
        rintro rfl
        exact ht' (by simpa [hu] using hv.symm)
      simpa [State.advance, hplace, hvu] using hv
    · have hc := h.tasks.counted k
      by_cases ht' : none = t
      · subst ht'
        rw [ht] at hc
        simpa [State.advance, Schedule.Counted, hcount] using hc
      · simpa [State.advance, ht', hprod, hcount] using hc
    · simp [hk]
    · simp
  | bulk =>
    obtain rfl := h.tasks.eq_none (t := t) (by rw [ht]; rfl)
    have hc : ∀ k, s.bulkCounter k = (lists (.bulkQueue k)).length ∧
        (kt = k → lists (.bulkQueue k) ≠ []) := by
      intro k
      have hk := h.tasks.counted k
      rwa [ht] at hk
    obtain ⟨s', hpush, hcons, hmtx, hprod, hcount, hplace, hqueued⟩ :=
      h.queued.push_bulk ((hc kt).2 rfl)
    refine ⟨s', _, hpush, ⟨hqueued.1, hqueued.2, hqueued.3, hqueued.4⟩,
      h.tasks.step (by rw [← hprod]; rfl) (by simp [Schedule.ut])
        (fun t' v _ hv => by rw [← hv, ← hplace]; rfl) (fun k => ?_) (absurd rfl),
      hlocks hmtx hprod hcons, h.awake.push hcons (fun k hk => ?_) ?_ hwait hprod
        (by rw [ht]; rfl) rfl⟩
    · by_cases hk : kt = k
      · simp [State.advance, Schedule.Counted, hk]
      · simpa [State.advance, Schedule.Counted, hk, Ne.symm hk, hcount] using (hc k).1
    · simp [hk]
    · simp [(hc kt).2 rfl]

theorem Inv.notify {task : Task U} (h : Inv s lists) (ht : s.producer t = .notify kt task) :
    Inv ((notify kt s).advance t (.unlock kt task)) lists := by
  have hsame : Queued (Scheduler03.notify kt s) lists ∧ Tasks (Scheduler03.notify kt s) lists ∧
      Locks (Scheduler03.notify kt s) ∧ (Scheduler03.notify kt s).producer = s.producer := by
    unfold Scheduler03.notify
    split
    case isTrue hw =>
      exact ⟨⟨h.queued.1, h.queued.2, h.queued.3, h.queued.4⟩, h.tasks.congr rfl rfl rfl,
        h.locks.goto (by rw [hw]; rfl), rfl⟩
    case isFalse => exact ⟨h.queued, h.tasks, h.locks, rfl⟩
  obtain ⟨hqueued, htasks, hlocks, hprod⟩ := hsame
  refine ⟨⟨hqueued.1, hqueued.2, hqueued.3, hqueued.4⟩, htasks.advance ?_ ?_ ?_, hlocks.advance ?_,
    h.awake.notify ht⟩
  all_goals rw [hprod, ht]
  all_goals cases task <;> simp [Schedule.ut, Schedule.Counted, Schedule.bulk, Schedule.locked]

theorem Inv.unlock {task : Task U} (h : Inv s lists) (ht : s.producer t = .unlock kt task) :
    Inv ((s.setMtx kt false).advance t (if task = .bulk then .zero kt else .idle)) lists := by
  have htasks : Tasks (s.setMtx kt false) lists := h.tasks.congr rfl rfl rfl
  refine ⟨⟨h.queued.1, h.queued.2, h.queued.3, h.queued.4⟩, htasks.advance ?_ ?_ ?_,
    h.locks.unlock (by rw [ht]; rfl) ?_, h.awake.setMtx.advance ?_⟩
  all_goals
    cases task <;> simp [State.setMtx, ht, Schedule.ut, Schedule.Counted, Schedule.bulk,
      Schedule.notifies, Schedule.locked]

omit [DecidableEq U] in
/-- `bulkCounter = 0`; the bulk queue has been transferred, or it was empty. -/
theorem Inv.zero (h : Inv s lists) (ht : s.producer t = .zero kt) :
    Inv { s.advance t .idle with bulkCounter := Function.update s.bulkCounter kt 0 } lists := by
  obtain rfl := h.tasks.eq_none (t := t) (by rw [ht]; rfl)
  have hlocks : Locks (s.advance none .idle) := h.locks.advance (by rw [ht]; rfl)
  have hawake : Awake (s.advance none .idle) lists :=
    h.awake.advance (by simp [ht, Schedule.notifies])
  refine ⟨⟨h.queued.1, h.queued.2, h.queued.3, h.queued.4⟩,
    h.tasks.step (t := none) (x := .idle) rfl nofun (fun _ _ _ hu => hu) (fun k => ?_) (absurd rfl),
    hlocks.congr rfl rfl rfl, hawake.wait, hawake.waiting, hawake.front⟩
  have hk := h.tasks.counted k
  rw [ht] at hk
  by_cases hkt : kt = k
  · subst hkt
    have hnil : lists (.bulkQueue kt) = [] := by simpa [Schedule.Counted] using hk
    simp [State.advance, Schedule.Counted, hnil]
  · simpa [State.advance, Schedule.Counted, hkt, Ne.symm hkt] using hk

theorem Inv.scheduleStep (h : Inv s lists) (hstep : scheduleStep t s = some s') :
    ∃ lists', Inv s' lists' := by
  unfold Scheduler03.scheduleStep at hstep
  cases ht : s.producer t <;> simp only [ht] at hstep
  case idle => cases hstep
  case lock kt task =>
    split at hstep
    case isTrue hfree =>
      cases hstep
      exact ⟨lists, h.lock ht hfree⟩
    case isFalse => cases hstep
  case push kt task =>
    obtain ⟨s₁, lists', hpush, hinv⟩ := h.push ht
    rw [hpush] at hstep
    cases hstep
    exact ⟨lists', hinv⟩
  case notify kt task =>
    cases hstep
    exact ⟨lists, h.notify ht⟩
  case unlock kt task =>
    cases hstep
    exact ⟨lists, h.unlock ht⟩
  case zero kt =>
    cases hstep
    exact ⟨lists, h.zero ht⟩

/-- `schedule(ut)` -/
theorem Inv.schedule {p : P} (h : Inv s lists) (hstep : schedule p u kt s = some s') :
    Inv s' lists := by
  unfold Scheduler03.schedule at hstep
  split at hstep
  case isFalse => cases hstep
  case isTrue hpre =>
  obtain ⟨hidle, hfree⟩ := hpre
  cases hstep
  have hlocks : Locks (s.advance (some p) (.lock kt (.one u))) :=
    h.locks.advance (by rw [hidle]; rfl)
  have hawake : Awake (s.advance (some p) (.lock kt (.one u))) lists :=
    h.awake.advance (by simp [hidle, Schedule.notifies])
  have hother : ∀ {v y}, s.place v = y → y ≠ .free →
      Function.update s.place u (.scheduling (some p)) v = y := by
    rintro v y rfl hy
    have hvu : v ≠ u := fun he => hy (he ▸ hfree)
    simp [hvu]
  refine ⟨⟨h.queued.clean, h.queued.fifo, h.queued.bulk,
    fun v i hv => hother (h.queued.place v i hv) (by simp)⟩,
    h.tasks.step (t := some p) (x := .lock kt (.one u)) rfl (fun v hv => ?_)
      (fun t v _ hv => hother hv (by simp)) (fun k => ?_) fun _ => rfl,
    hlocks.congr rfl rfl rfl, hawake.wait, hawake.waiting, hawake.front⟩
  · obtain rfl : u = v := by simpa [Schedule.ut] using hv
    simp
  · simpa [State.advance] using h.tasks.counted k

/-- `prepareBulkPush(ut)` -/
theorem Inv.prepareBulkPush (h : Inv s lists) (hstep : prepareBulkPush u kt s = some s') :
    ∃ lists', Inv s' lists' := by
  unfold Scheduler03.prepareBulkPush at hstep
  split at hstep
  case isFalse => cases hstep
  case isTrue hpre =>
  obtain ⟨hidle, hfree⟩ := hpre
  obtain ⟨store, hpush, hclean⟩ :=
    h.queued.clean.push (i := .bulkQueue kt) (h.queued.notMem (u := u) (by simp [hfree]))
  rw [hpush] at hstep
  cases hstep
  refine ⟨_, ⟨hclean, fun k => ?_, fun k => ?_, fun v i hv => h.queued.place_push hv⟩,
    ⟨fun t v hv => ?_, fun k => ?_, h.tasks.poller⟩, h.locks.congr rfl rfl rfl, fun k hk => ?_,
    fun k hk => ?_,
    fun k hk => ?_⟩
  · simpa using h.queued.fifo k
  · by_cases hk : k = kt
    · simp [hk, h.queued.bulk]
    · simpa [hk] using h.queued.bulk k
  · have hv' := h.tasks.scheduling t v hv
    have hvu : v ≠ u := by
      rintro rfl
      simp [hfree] at hv'
    simpa [hvu] using hv'
  · have hc := h.tasks.counted k
    rw [hidle] at hc ⊢
    by_cases hk : k = kt
    · subst hk
      simpa [Schedule.Counted] using hc
    · simpa [Schedule.Counted, hk] using hc
  · simpa using h.awake.wait k hk
  · simpa using h.awake.waiting k hk
  · simpa using h.awake.front k hk

/-- `bulkPush(cluster)` -/
theorem Inv.bulkPush (h : Inv s lists) (hstep : bulkPush kt s = some s') : Inv s' lists := by
  unfold Scheduler03.bulkPush at hstep
  split at hstep
  case isFalse => cases hstep
  case isTrue hidle =>
  cases hstep
  have hcount : ∀ k, s.bulkCounter k = (lists (.bulkQueue k)).length := by
    intro k
    have hk := h.tasks.counted k
    rwa [hidle] at hk
  have hstart : ∀ x : Schedule K U, x.ut = none → x.locked = none → x.notifies = none →
      (∀ k, x.Counted k (lists (.bulkQueue k)) (s.bulkCounter k)) →
      Inv (s.advance none x) lists := by
    intro x hut hlocked hnotifies hx
    refine ⟨⟨h.queued.1, h.queued.2, h.queued.3, h.queued.4⟩,
      h.tasks.step rfl (by simp [hut]) (fun _ _ _ hu => hu) (fun k => ?_) (absurd rfl),
      h.locks.advance (by rw [hidle, hlocked]; rfl),
      h.awake.advance (by simp [hidle, Schedule.notifies])⟩
    simpa [State.advance] using hx k
  split
  case isTrue hpos =>
    refine hstart _ rfl rfl rfl fun k => ⟨hcount k, ?_⟩
    rintro rfl
    rw [hcount] at hpos
    exact List.ne_nil_of_length_pos hpos
  case isFalse hzero =>
    refine hstart _ rfl rfl rfl fun k => ?_
    show if kt = k then lists (.bulkQueue k) = [] else s.bulkCounter k =
      (lists (.bulkQueue k)).length
    split
    case isTrue he =>
      subst he
      rw [← List.length_eq_zero_iff, ← hcount]
      omega
    case isFalse => exact hcount k

omit [DecidableEq U] [DecidableEq P] in
theorem Inv.setSem {v : ℕ} (h : Inv s lists) : Inv { s with ioSem := v } lists :=
  ⟨⟨h.queued.1, h.queued.2, h.queued.3, h.queued.4⟩, h.tasks.congr rfl rfl rfl,
    h.locks.congr rfl rfl rfl, ⟨h.awake.wait, h.awake.waiting, h.awake.front⟩⟩

/-! ## The steps of the kThreads -/

omit [DecidableEq U] [DecidableEq P] in
theorem isEmpty_iff (h : Inv s lists) : s.isEmpty k = true ↔ lists (.runQueue k) = [] := by
  rw [State.isEmpty, Option.isNone_iff_eq_none]
  exact (h.queued.clean.rep.holds (.runQueue k)).head_none_iff

omit [DecidableEq U] in
/-- A step of the kThread that moves nothing, with or without the mutex. -/
theorem Inv.goto (h : Inv s lists) (hlocked : c.locked = (s.consumer k).locked)
    (hc : c = .wait ∨ c = .waiting → lists (.runQueue k) = [])
    (hpops : c.pops = true → lists (.runQueue k) ≠ []) : Inv (s.goto k c) lists :=
  ⟨⟨h.queued.1, h.queued.2, h.queued.3, h.queued.4⟩, h.tasks.congr rfl rfl rfl,
    h.locks.goto hlocked, h.awake.goto hc hpops⟩

omit [DecidableEq U] in
theorem Inv.consumerLock (h : Inv s lists) (hfree : s.mtx k = false)
    (hold : (s.consumer k).locked = false)
    (hlocked : c.locked = true) (hc : ¬(c = .wait ∨ c = .waiting)) (hpops : c.pops = false) :
    Inv ((s.setMtx k true).goto k c) lists :=
  ⟨⟨h.queued.1, h.queued.2, h.queued.3, h.queued.4⟩, h.tasks.congr rfl rfl rfl,
    h.locks.consumerLock hfree hold hlocked,
    h.awake.setMtx.goto (absurd · hc) fun hp => absurd (hp.symm.trans hpops)
      Bool.false_ne_true.symm⟩

omit [DecidableEq U] in
theorem Inv.consumerUnlock (h : Inv s lists) (hold : (s.consumer k).locked = true)
    (hlocked : c.locked = false)
    (hc : c = .wait ∨ c = .waiting → lists (.runQueue k) = []) (hpops : c.pops = false) :
    Inv ((s.setMtx k false).goto k c) lists :=
  ⟨⟨h.queued.1, h.queued.2, h.queued.3, h.queued.4⟩, h.tasks.congr rfl rfl rfl,
    h.locks.consumerUnlock hold hlocked,
    h.awake.setMtx.goto hc fun hp => absurd (hp.symm.trans hpops) Bool.false_ne_true.symm⟩

theorem Inv.pop {f : U → Consumer U} (h : Inv s lists) (hpops : (s.consumer k).pops = true)
    (hold : (s.consumer k).locked = true)
    (hf : ∀ ut, (f ut).locked = true ∧ (f ut).pops = false ∧ f ut ≠ .wait) :
    ∃ s' lists', pop k f s = some s' ∧ Inv s' lists' := by
  obtain ⟨ut, s', l, hpop, hl, hmtx, hprod, hcount, hcons, hplace, hqueued⟩ :=
    h.queued.pop (f := f) (h.awake.front k hpops)
  obtain ⟨hlocked, hnpops, hnwait⟩ := hf ut
  have hnwaiting : f ut ≠ .waiting := by
    intro he
    rw [he] at hlocked
    cases hlocked
  have hlocks : Locks (s.goto k (f ut)) := h.locks.goto (hlocked.trans hold.symm)
  have htasks : Tasks s' (Function.update lists (.runQueue k) l) := by
    refine ⟨fun t v hv => ?_, fun j => ?_, by rw [hprod]; exact h.tasks.poller⟩
    · have hv' := h.tasks.scheduling t v (by rwa [hprod] at hv)
      have hvu : v ≠ ut := by
        rintro rfl
        simp [h.queued.place v (.runQueue k) (by simp [hl])] at hv'
      simpa [hplace, hvu] using hv'
    · simpa [hprod, hcount] using h.tasks.counted j
  refine ⟨s', _, hpop, hqueued, htasks, hlocks.congr hmtx hprod hcons, fun j hj => ?_,
    fun j hj => ?_, fun j hj => ?_⟩
  all_goals
    rw [hcons] at hj
    by_cases he : j = k
    · subst he
      simp [hnwait, hnwaiting, hnpops] at hj
  · simpa [he] using h.awake.wait j (by simpa [he] using hj)
  · simpa [he, hprod] using h.awake.waiting j (by simpa [he] using hj)
  · simpa [he] using h.awake.front j (by simpa [he] using hj)

omit [DecidableEq U] in
theorem afterTryPop_spec (yield : Bool) (ut : Option U) : (afterTryPop yield ut).locked = false ∧
    ¬(afterTryPop yield ut = .wait ∨ afterTryPop yield ut = .waiting) ∧
    (afterTryPop yield ut).pops = false := by
  cases ut <;> cases yield <;> simp [afterTryPop, Consumer.locked, Consumer.pops]

theorem Inv.consumerStep {ok : Bool} (h : Inv s lists) (hstep : consumerStep k ok s = some s') :
    ∃ lists', Inv s' lists' := by
  unfold Scheduler03.consumerStep at hstep
  cases hc : s.consumer k with
  | running => simp [hc] at hstep
  | mainUT => simp [hc] at hstep
  | waiting => simp [hc] at hstep
  | tryLock yield =>
    rw [hc] at hstep
    cases hstep
    obtain ⟨hlocked, hwait, hpops⟩ := afterTryPop_spec yield (none : Option U)
    split
    case isTrue hfree => exact ⟨lists, h.consumerLock hfree.1 (by rw [hc]; rfl) rfl (by simp) rfl⟩
    case isFalse =>
      exact ⟨lists, h.goto (by rw [hc, hlocked]; rfl) (absurd · hwait) (by simp [hpops])⟩
  | tryEmpty yield =>
    rw [hc] at hstep
    cases hstep
    split
    case isTrue => exact ⟨lists, h.goto (by rw [hc]; rfl) (by simp) (by simp [Consumer.pops])⟩
    case isFalse hne =>
      exact ⟨lists, h.goto (by rw [hc]; rfl) (by simp) fun _ hnil => hne ((isEmpty_iff h).mpr hnil)⟩
  | tryPop yield =>
    obtain ⟨s₁, lists', hpop, hinv⟩ := h.pop (k := k) (f := fun ut => .tryUnlock yield (some ut))
      (by rw [hc]; rfl) (by rw [hc]; rfl) fun ut => ⟨rfl, rfl, by simp⟩
    simp only [hc, hpop, Option.some.injEq] at hstep
    exact ⟨lists', hstep ▸ hinv⟩
  | tryUnlock yield ut =>
    rw [hc] at hstep
    cases hstep
    obtain ⟨hlocked, hwait, hpops⟩ := afterTryPop_spec yield ut
    exact ⟨lists, h.consumerUnlock (by rw [hc]; rfl) hlocked (absurd · hwait) hpops⟩
  | lock | relock =>
    simp only [hc, Option.ite_none_right_eq_some, Option.some.injEq] at hstep
    exact ⟨lists, hstep.2 ▸ h.consumerLock hstep.1 (by rw [hc]; rfl) rfl (by simp) rfl⟩
  | empty =>
    rw [hc] at hstep
    cases hstep
    split
    case isTrue hnil =>
      exact ⟨lists, h.goto (by rw [hc]; rfl) (fun _ => (isEmpty_iff h).mp hnil)
        (by simp [Consumer.pops])⟩
    case isFalse hne =>
      exact ⟨lists, h.goto (by rw [hc]; rfl) (by simp) fun _ hnil => hne ((isEmpty_iff h).mpr hnil)⟩
  | wait =>
    rw [hc] at hstep
    cases hstep
    exact ⟨lists, h.consumerUnlock (by rw [hc]; rfl) rfl (fun _ => h.awake.wait k hc) rfl⟩
  | pop =>
    obtain ⟨s₁, lists', hpop, hinv⟩ := h.pop (k := k) (f := .unlock) (by rw [hc]; rfl)
      (by rw [hc]; rfl)
      fun ut => ⟨rfl, rfl, by simp⟩
    simp only [hc, hpop, Option.some.injEq] at hstep
    exact ⟨lists', hstep ▸ hinv⟩
  | unlock ut =>
    rw [hc] at hstep
    cases hstep
    exact ⟨lists, h.consumerUnlock (by rw [hc]; rfl) rfl (by simp) rfl⟩
  | leave ut =>
    rw [hc] at hstep
    cases hstep
    split
    · exact ⟨lists, (h.goto (c := .running) (by rw [hc]; rfl) (by simp)
        (by simp [Consumer.pops])).setSem⟩
    · exact ⟨lists, h⟩

/-! ## Every run -/

theorem inv_initial (h : (machine K U P).init s) : Inv s fun _ => [] := by
  obtain ⟨start, hstart, rfl⟩ := h
  have houtside : ∀ k y, (initial start : State K U P).holds y ≠ some k := by
    intro k y
    cases y with
    | inl j => rcases hstart j with hj | hj <;> simp [State.holds, initial, hj, Consumer.locked]
    | inr t => simp [State.holds, initial, Schedule.locked]
  refine ⟨⟨QueueStore.clean_initial, fun _ => rfl, fun _ => rfl, fun u i hu => ?_⟩,
    ⟨fun t u hu => ?_, fun _ => rfl, fun _ => rfl⟩,
    fun k => ⟨fun y _ hy => absurd hy (houtside k y), ?_⟩,
    fun k hk => rfl, fun k hk => .inl rfl, fun k hk => ?_⟩
  · simp at hu
  · simp [initial, Schedule.ut] at hu
  · exact iff_of_false Bool.false_ne_true fun ⟨y, hy⟩ => houtside k y hy
  · rcases hstart k with hs | hs <;> simp [initial, hs, Consumer.pops] at hk

theorem inv_step {a : Action K U P} (h : Inv s lists) (hstep : step s a = some s') :
    ∃ lists', Inv s' lists' := by
  cases a with
  | schedule p ut kt => exact ⟨lists, h.schedule hstep⟩
  | prepareBulkPush ut kt => exact h.prepareBulkPush hstep
  | bulkPush kt => exact ⟨lists, h.bulkPush hstep⟩
  | producer t => exact h.scheduleStep hstep
  | nonBlockingSwitch k yield =>
    obtain ⟨hc, rfl⟩ := Option.ite_none_right_eq_some.mp hstep |>.imp_right Option.some.inj
    exact ⟨lists, h.goto (by rw [hc]; rfl) (by simp) (by simp [Consumer.pops])⟩
  | blockingSwitch k =>
    obtain ⟨hc, rfl⟩ := Option.ite_none_right_eq_some.mp hstep |>.imp_right Option.some.inj
    exact ⟨lists, (h.goto (c := .lock) (by rw [hc]; rfl) (by simp)
      (by simp [Consumer.pops])).setSem⟩
  | consumer k ok => exact h.consumerStep hstep
  | spurious k =>
    obtain ⟨hc, rfl⟩ := Option.ite_none_right_eq_some.mp hstep |>.imp_right Option.some.inj
    exact ⟨lists, h.goto (by rw [hc]; rfl) (by simp) (by simp [Consumer.pops])⟩
  | io v =>
    cases hstep
    exact ⟨lists, h.setSem⟩

theorem inv_reachable (h : (machine K U P).Reachable s) : ∃ lists, Inv s lists := by
  refine h.invariant (I := fun s => ∃ lists, Inv s lists) (fun s h0 => ⟨_, inv_initial h0⟩) ?_
  rintro s a s' ⟨lists, hinv⟩ hstep
  exact inv_step hinv hstep

/-! ## `__Pop` alone -/

/-- In `__Pop`. -/
def Consumer.inPop : Consumer U → Bool
  | .lock | .empty | .wait | .waiting | .relock | .pop => true
  | _ => false

/-- `__Pop` has taken `u`. -/
def Popped (s : State K U P) (k : K) (u : U) (s' : State K U P) : Prop :=
  s'.consumer k = .unlock u ∧ s'.popped k = s.popped k ++ [u]

variable {l : List U}

/-- `ut = runQueue.front(); runQueue.pop()` -/
theorem Inv.pop_takes (h : Inv s lists) (hc : s.consumer k = .pop)
    (hl : lists (.runQueue k) = u :: l) :
    (machine K U P).Within (.consumer k true) 1 s (Popped s k u) := by
  obtain ⟨store, hpop, -⟩ := h.queued.clean.pop hl
  refine .step (t := { s.goto k (.unlock u) with
    store := store
    place := Function.update s.place u .free
    popped := Function.update s.popped k (s.popped k ++ [u]) }) ?_ (.now ?_)
  · simp [machine, step, Scheduler03.consumerStep, hc, Scheduler03.pop, hpop]
  · simp [Popped, State.goto]

/-- `while (runQueue.empty())` ends. -/
theorem Inv.empty_takes (h : Inv s lists) (hc : s.consumer k = .empty)
    (hl : lists (.runQueue k) = u :: l) :
    (machine K U P).Within (.consumer k true) 2 s (Popped s k u) := by
  have hne : ¬s.isEmpty k = true := by simp [isEmpty_iff h, hl]
  have hinv : Inv (s.goto k .pop) lists := h.goto (by rw [hc]; rfl) (by simp) (by simp [hl])
  refine .step (t := s.goto k .pop) ?_ (hinv.pop_takes (by simp [State.goto]) hl)
  simp [machine, step, Scheduler03.consumerStep, hc, hne]

/-- The kThread gets the mutex. -/
theorem Inv.lock_takes (h : Inv s lists) (hc : s.consumer k = .lock ∨ s.consumer k = .relock)
    (hmtx : ∀ t, (s.producer t).locked ≠ some k) (hl : lists (.runQueue k) = u :: l) :
    (machine K U P).Within (.consumer k true) 3 s (Popped s k u) := by
  have hfree : s.mtx k = false := by
    by_contra hm
    obtain ⟨y, hy⟩ := (h.locks k).flag.mp (by simpa using hm)
    cases y with
    | inl j =>
      obtain ⟨hj, rfl⟩ : (s.consumer j).locked = true ∧ j = k := by simpa [State.holds] using hy
      rcases hc with hc | hc <;> simp [hc, Consumer.locked] at hj
    | inr t => exact hmtx t hy
  have hinv : Inv ((s.setMtx k true).goto k .empty) lists :=
    h.consumerLock hfree (by rcases hc with hc | hc <;> rw [hc] <;> rfl) rfl (by simp) rfl
  refine .step (t := (s.setMtx k true).goto k .empty) ?_
    (hinv.empty_takes (by simp [State.goto]) hl)
  rcases hc with hc | hc <;> simp [machine, step, Scheduler03.consumerStep, hc, hfree]

/-! ## Main results -/

/-- `Scheduler_03` delivers uThreads in the order in which they are pushed. -/
theorem runQueue_fifo (h : (machine K U P).Reachable s) :
    ∃ lists, Rep s.store lists ∧ (∀ k, s.popped k ++ lists (.runQueue k) = s.pushed k) ∧
      (∀ k, s.bulk k = lists (.bulkQueue k)) ∧
      (s.producer none = .idle → ∀ k, s.bulkCounter k = (s.bulk k).length) ∧
      (∀ k ok, (s.consumer k).pops = true → (consumerStep k ok s).isSome) ∧
      (∀ t kt task, s.producer t = .push kt task → (push kt task s).isSome) ∧
      ∀ k y y', s.holds y = some k → s.holds y' = some k → y = y' := by
  obtain ⟨lists, hinv⟩ := inv_reachable h
  refine ⟨lists, hinv.queued.clean.rep, hinv.queued.fifo, hinv.queued.bulk, fun hidle k => ?_,
    fun k ok hk => ?_,
    fun t kt task ht => ?_, fun k y y' hy hy' => (hinv.locks k).one hy hy'⟩
  · rw [hinv.queued.bulk]
    have hk := hinv.tasks.counted k
    rwa [hidle] at hk
  · have hne := hinv.awake.front k hk
    unfold consumerStep
    cases hc : s.consumer k with
    | tryPop yield =>
      obtain ⟨ut, s', l, hpop, -⟩ := hinv.queued.pop (f := fun ut => .tryUnlock yield (some ut)) hne
      simp [hpop]
    | pop =>
      obtain ⟨ut, s', l, hpop, -⟩ := hinv.queued.pop (f := .unlock) hne
      simp [hpop]
    | _ => simp [hc, Consumer.pops] at hk
  · obtain ⟨s', lists', hpush, -⟩ := hinv.push ht
    simp [hpush]

/-- The kThread sleeps when a producer schedules uThread `1`; uThread `2` comes from the poller. -/
def sleepThenWork : List (Action Unit (Fin 4) Unit) :=
  List.flatten [[.blockingSwitch ()], List.replicate 3 (.consumer () true),
    [.schedule () 1 (), .prepareBulkPush 2 ()], List.replicate 2 (.producer (some ()))]

theorem runQueue_fifo_sleepThenWork :
    ∃ s, (machine Unit (Fin 4) Unit).Reachable s ∧ s.pushed () = [1] ∧ s.bulk () = [2] ∧
      ∃ lists, Rep s.store lists ∧ ∀ k, s.popped k ++ lists (.runQueue k) = s.pushed k := by
  have hinit : (machine Unit (Fin 4) Unit).Reachable (initial fun _ => .mainUT) :=
    .of_init ⟨_, fun _ => .inl rfl, rfl⟩
  have hr := hinit.get sleepThenWork (by decide +kernel)
  obtain ⟨lists, hrep, hfifo, -⟩ := runQueue_fifo hr
  exact ⟨_, hr, by decide +kernel, by decide +kernel, lists, hrep, hfifo⟩

/-- A kThread does not sleep while there is work, unless a notification is still to come. -/
theorem no_lost_notification (h : (machine K U P).Reachable s) (hk : s.consumer k = .waiting) :
    s.pushed k = s.popped k ∨ ∃ t, (s.producer t).notifies = some k := by
  obtain ⟨lists, hinv⟩ := inv_reachable h
  refine (hinv.awake.waiting k hk).imp_left fun hnil => ?_
  rw [← hinv.queued.fifo k, hnil, List.append_nil]

theorem no_lost_notification_sleepThenWork :
    ∃ s, (machine Unit (Fin 4) Unit).Reachable s ∧ s.consumer () = .waiting ∧
      (s.pushed () = s.popped () ∨ ∃ t, (s.producer t).notifies = some ()) := by
  have hinit : (machine Unit (Fin 4) Unit).Reachable (initial fun _ => .mainUT) :=
    .of_init ⟨_, fun _ => .inl rfl, rfl⟩
  have hr := hinit.get sleepThenWork (by decide +kernel)
  exact ⟨_, hr, by decide +kernel, no_lost_notification hr (by decide +kernel)⟩

/-- `__Pop` takes the oldest uThread, and has the mutex still to release. -/
theorem pop_returns_oldest (h : (machine K U P).Reachable s) (hpop : (s.consumer k).inPop = true)
    (hwork : s.pushed k = s.popped k ++ u :: l) (hmtx : ∀ t, (s.producer t).locked ≠ some k) :
    (machine K U P).Within (.consumer k true) 3 s fun s' =>
      s'.consumer k = .unlock u ∧ s'.popped k = s.popped k ++ [u] := by
  obtain ⟨lists, hinv⟩ := inv_reachable h
  have hl : lists (.runQueue k) = u :: l := by
    have hfifo := hinv.queued.fifo k
    rwa [hwork, List.append_cancel_left_eq] at hfifo
  cases hc : s.consumer k with
  | lock => exact hinv.lock_takes (.inl hc) hmtx hl
  | relock => exact hinv.lock_takes (.inr hc) hmtx hl
  | empty => exact (hinv.empty_takes hc hl).mono (by omega)
  | pop => exact (hinv.pop_takes hc hl).mono (by omega)
  | wait =>
    -- It sleeps only if it has found the queue empty.
    simp [hinv.awake.wait k hc] at hl
  | waiting =>
    -- The producer that has still to notify it has the mutex.
    rcases hinv.awake.waiting k hc with hnil | ⟨t, ht⟩
    · simp [hnil] at hl
    · exact absurd (notifies_locked ht) (hmtx t)
  | _ => simp [hc, Consumer.inPop] at hpop

/-- The poller pushes its bulk queue after the producer, and the kThread is awake. -/
def bulkThenAwake : List (Action Unit (Fin 4) Unit) :=
  List.flatten [sleepThenWork, List.replicate 2 (.producer (some ())), [.bulkPush ()],
    List.replicate 5 (.producer none)]

theorem pop_returns_oldest_bulkThenAwake :
    ∃ s, (machine Unit (Fin 4) Unit).Reachable s ∧ s.consumer () = .relock ∧ s.pushed () = [1, 2] ∧
      (machine Unit (Fin 4) Unit).Within (.consumer () true) 3 s fun s' =>
        s'.consumer () = .unlock 1 ∧ s'.popped () = s.popped () ++ [1] := by
  have hinit : (machine Unit (Fin 4) Unit).Reachable (initial fun _ => .mainUT) :=
    .of_init ⟨_, fun _ => .inl rfl, rfl⟩
  have hr := hinit.get bulkThenAwake (by decide +kernel)
  exact ⟨_, hr, by decide +kernel, by decide +kernel,
    pop_returns_oldest (l := [2]) hr (by decide +kernel) (by decide +kernel)
      (by decide +kernel)⟩

end UThreads.Scheduler03
