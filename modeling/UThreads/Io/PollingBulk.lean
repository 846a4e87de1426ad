import UThreads.Io.Polling
import UThreads.Lib.Exclusion
import UThreads.Lib.Total

/-!
# `IOHandler`: the flag and the bulk queues

**`Guard`**: one thread at most is in a poll. With `NPOLLNONBLOCKING` it is the poller thread.

**`Bulk`**: what the position of that thread says about the bulk queues and the counters
(`Counted`); they are empty and zero while nobody polls. There is one lemma for each step of the
thread that polls.
-/

namespace UThreads.Polling

open IOHandler (Dir Slot)
open Poll (Event Wait)

variable {D U K T : Type*} [DecidableEq D] [DecidableEq U] [DecidableEq K] [DecidableEq T]
  {cfg : Config K} {s s' : State D U K T} {t t' : Option T} {x : Poller D U K} {u v : U} {k : K}

/-! ## One poller at a time -/

/-- The thread is in a poll. -/
def Poller.inside : Poller D U K → Bool
  | .out | .testAndSet => false
  | _ => true

def Guard (cfg : Config K) (s : State D U K T) : Prop :=
  if cfg.nonblocking = true then Excludes (fun t => (s.poller t).inside = true) s.isPolling
  else ∀ t, s.poller (some t) = .out

omit [DecidableEq D] [DecidableEq U] [DecidableEq K] [DecidableEq T] in
theorem Guard.alone (h : Guard cfg s) (ht : (s.poller t).inside = true)
    (ht' : (s.poller t').inside = true) : t = t' := by
  unfold Guard at h
  split at h
  · exact h.one ht ht'
  · -- Only the poller thread polls.
    have hnone : ∀ r, (s.poller r).inside = true → r = none := by
      intro r hr
      cases r with
      | none => rfl
      | some r =>
        rw [h r] at hr
        cases hr
    rw [hnone t ht, hnone t' ht']

omit [DecidableEq D] [DecidableEq U] [DecidableEq K] [DecidableEq T] in
theorem Guard.congr (h : Guard cfg s) (hp : s'.poller = s.poller)
    (hf : s'.isPolling = s.isPolling) : Guard cfg s' := by
  unfold Guard at h ⊢
  rw [hp, hf]
  exact h

omit [DecidableEq D] [DecidableEq U] [DecidableEq K] in
/-- Thread `t` goes on, and stays where it is with respect to the flag. -/
theorem Guard.advance (h : Guard cfg s) (hold : s.poller t ≠ .out)
    (hp : s'.poller = Function.update s.poller t x)
    (hf : s'.isPolling = s.isPolling) (hx : x.inside = (s.poller t).inside) : Guard cfg s' := by
  unfold Guard at h ⊢
  split
  case isTrue hnb =>
    rw [if_pos hnb] at h
    rw [hf, hp]
    refine h.frame fun r => ?_
    by_cases hr : r = t
    · subst hr
      rw [Function.update_self, hx]
    · rw [Function.update_of_ne hr]
  case isFalse hnb =>
    rw [if_neg hnb] at h
    intro r
    have hr : some r ≠ t := by
      rintro rfl
      exact hold (h r)
    rw [hp, Function.update_of_ne hr]
    exact h r

omit [DecidableEq D] [DecidableEq U] [DecidableEq K] in
/-- `isPolling.test_and_set()` returns false. -/
theorem Guard.enter (h : Guard cfg s) (hnb : cfg.nonblocking = true) (hfree : s.isPolling = false)
    (hp : s'.poller = Function.update s.poller t x) (hf : s'.isPolling = true)
    (hx : x.inside = true) : Guard cfg s' := by
  unfold Guard at h ⊢
  rw [if_pos hnb] at h ⊢
  rw [hfree] at h
  rw [hf, hp]
  refine h.enter (t := t) (by simpa using hx) fun r hr => ?_
  rw [Function.update_of_ne hr]

omit [DecidableEq D] [DecidableEq U] [DecidableEq K] in
/-- `isPolling.clear()` -/
theorem Guard.leave (h : Guard cfg s) (hold : (s.poller t).inside = true)
    (hp : s'.poller = Function.update s.poller t .out)
    (hf : cfg.nonblocking = true → s'.isPolling = false) : Guard cfg s' := by
  unfold Guard at h ⊢
  split
  case isTrue hnb =>
    rw [if_pos hnb] at h
    rw [hf hnb, hp]
    refine h.leave (t := t) hold (by simp [Poller.inside]) fun r hr => ?_
    rw [Function.update_of_ne hr]
  case isFalse hnb =>
    rw [if_neg hnb] at h
    intro r
    rw [hp]
    by_cases hr : some r = t
    · rw [hr, Function.update_self]
    · rw [Function.update_of_ne hr]
      exact h r


/-! ## The bulk queues -/

/-- The bulk queue whose counter is still to be incremented. -/
def Poller.bump : Poller D U K → Option K
  | .unblock _ _ (.bump k) _ => some k
  | _ => none

/-- The bulk queue that has been emptied, and whose counter is still to be cleared. -/
def Poller.stale : Poller D U K → Option K
  | .zero k _ => some k
  | _ => none

/-- The uThreads that have been handed on and are not in `unblockCounter` yet. -/
def Poller.owed : Poller D U K → ℕ
  | .unblock _ _ (.bump _) _ | .unblock _ _ (.ret true) _ | .count _ => 1
  | _ => 0

/-- By the position of the poller, there is nothing on bulk queue `k`. -/
def Poller.clean (k : K) : Poller D U K → Bool
  | .reset | .wait | .clear _ => true
  | .flush ks => decide (k ∉ ks)
  | .schedule k' ks => decide (k ≠ k' ∧ k ∉ ks)
  | .zero k' ks => decide (k = k' ∨ k ∉ ks)
  | _ => false

variable [Fintype K]

/-- What the position of the thread that polls says about the bulk queues and the counters. -/
structure Counted (x : Poller D U K) (s : State D U K T) : Prop where
  queue : ∀ k, x.stale ≠ some k →
    s.bulkCounter k + (if x.bump = some k then 1 else 0) = (s.bulkQueue k).length
  empty : ∀ k, x.clean k = true → s.bulkQueue k = []
  sum : x ≠ .reset → s.unblockCounter + x.owed = total s.bulkQueue + s.delivered
  fresh : x = .wait → s.unblockCounter = 0
  nonempty : ∀ k ks, x = .schedule k ks → s.bulkQueue k ≠ []
  result : ∀ r, x = .clear r → r = -1 ∧ s.delivered = 0 ∨ r = s.delivered

structure Bulk (cfg : Config K) (s : State D U K T) : Prop where
  inside : ∀ t, (s.poller t).inside = true → Counted (s.poller t) s
  outside : (∀ t, (s.poller t).inside = false) → ∀ k, s.bulkQueue k = [] ∧ s.bulkCounter k = 0
  unused : cfg.bulkPush = false → ∀ k, s.bulkQueue k = []

/-- The bulk queues and the counters are as they were. -/
structure SameBulk (s s' : State D U K T) : Prop where
  queue : s'.bulkQueue = s.bulkQueue
  counter : s'.bulkCounter = s.bulkCounter
  unblocks : s'.unblockCounter = s.unblockCounter
  delivered : s'.delivered = s.delivered

omit [DecidableEq D] [DecidableEq U] [DecidableEq T] in
theorem Counted.congr (h : Counted x s) (hs : SameBulk s s') : Counted x s' := by
  obtain ⟨hq, hc, hu, hd⟩ := hs
  refine ⟨?_, ?_, ?_, ?_, ?_, ?_⟩
  · rw [hc, hq]; exact h.queue
  · rw [hq]; exact h.empty
  · rw [hu, hq, hd]; exact h.sum
  · rw [hu]; exact h.fresh
  · rw [hq]; exact h.nonempty
  · rw [hd]; exact h.result

omit [DecidableEq D] [DecidableEq U] [DecidableEq T] in
theorem Bulk.congr (h : Bulk cfg s) (hp : s'.poller = s.poller) (hs : SameBulk s s') :
    Bulk cfg s' := by
  refine ⟨?_, ?_, ?_⟩
  · rw [hp]
    exact fun t ht => (h.inside t ht).congr hs
  · rw [hp, hs.queue, hs.counter]
    exact h.outside
  · rw [hs.queue]
    exact h.unused

omit [DecidableEq D] [DecidableEq U] in
/-- The one thread that polls takes a step. -/
theorem bulk_step (hg : Guard cfg s) (ht : (s.poller t).inside = true)
    (hp : s'.poller = Function.update s.poller t x) (hin : x.inside = true → Counted x s')
    (hout : x.inside = false → ∀ k, s'.bulkQueue k = [] ∧ s'.bulkCounter k = 0)
    (hunused : cfg.bulkPush = false → ∀ k, s'.bulkQueue k = []) : Bulk cfg s' := by
  refine ⟨fun r hr => ?_, fun hall => ?_, hunused⟩
  · rw [hp] at hr ⊢
    by_cases hrt : r = t
    · subst hrt
      rw [Function.update_self] at hr ⊢
      exact hin hr
    · rw [Function.update_of_ne hrt] at hr
      exact absurd (hg.alone hr ht) hrt
  · have hx := hall t
    rw [hp, Function.update_self] at hx
    exact hout hx

omit [DecidableEq D] [DecidableEq U] in
/-- A thread outside the poll takes a step and stays outside. -/
theorem Bulk.step_outside (h : Bulk cfg s) (ht : (s.poller t).inside = false)
    (hp : s'.poller = Function.update s.poller t x) (hx : x.inside = false) (hs : SameBulk s s') :
    Bulk cfg s' := by
  refine ⟨fun r hr => ?_, fun hall => ?_, by rw [hs.queue]; exact h.unused⟩
  · rw [hp] at hr ⊢
    have hrt : r ≠ t := by
      rintro rfl
      rw [Function.update_self, hx] at hr
      cases hr
    rw [Function.update_of_ne hrt] at hr ⊢
    exact (h.inside r hr).congr hs
  · rw [hs.queue, hs.counter]
    refine h.outside fun r => ?_
    by_cases hrt : r = t
    · exact hrt ▸ ht
    · have hr := hall r
      rwa [hp, Function.update_of_ne hrt] at hr

/-! ### The steps of the thread that polls -/

variable {x' : Poller D U K}

omit [DecidableEq D] [DecidableEq U] [DecidableEq T] in
/-- A step that moves nothing. -/
theorem Counted.goto (h : Counted x s) (hs : SameBulk s s') (hstale : x.stale = none)
    (hbump : x'.bump = x.bump) (howed : x'.owed = x.owed) (hreset : x ≠ .reset) (hwait : x' ≠ .wait)
    (hempty : ∀ k, x'.clean k = true → s.bulkQueue k = [])
    (hnonempty : ∀ k ks, x' = .schedule k ks → s.bulkQueue k ≠ [])
    (hresult : ∀ r, x' = .clear r → r = -1 ∧ s.delivered = 0 ∨ r = s.delivered) :
    Counted x' s' := by
  refine Counted.congr ⟨fun k _ => ?_, hempty, fun _ => ?_, fun he => absurd he hwait, hnonempty,
    hresult⟩ hs
  · rw [hbump]
    exact h.queue k (by simp [hstale])
  · rw [howed]
    exact h.sum hreset

/-- In the loop of `_Poll`: nothing is said about single bulk queues. -/
def Poller.collecting : Poller D U K → Bool
  | .next _ | .unblock _ _ _ _ | .count _ => true
  | _ => false

omit [DecidableEq D] [DecidableEq U] [DecidableEq T] in
/-- A step in the loop that moves nothing. -/
theorem Counted.collect (h : Counted x s) (hs : SameBulk s s')
    (hx : x.collecting = true ∨ x = .wait)
    (hx' : x'.collecting = true) (hbump : x'.bump = x.bump) (howed : x'.owed = x.owed) :
    Counted x' s' := by
  refine h.goto hs ?_ hbump howed ?_ ?_ (fun k hk => ?_) (fun k ks he => ?_) fun r he => ?_
  · rcases hx with hx | rfl
    · cases x <;> first | rfl | cases hx
    · rfl
  · rintro rfl
    rcases hx with hx | hx <;> cases hx
  · rintro rfl
    cases hx'
  · cases x' <;> simp [Poller.clean, Poller.collecting] at hx' hk
  · rw [he] at hx'
    cases hx'
  · rw [he] at hx'
    cases hx'

omit [DecidableEq D] [DecidableEq U] [DecidableEq T] in
/-- `_Poll` has returned: `bulkPush()`, or the end. -/
theorem Counted.afterPoll (h : Counted x s) (hall : ∀ k, k ∈ cfg.kThreads)
    (hunused : cfg.bulkPush = false → ∀ k, s.bulkQueue k = []) (hstale : x.stale = none)
    (hbump : x.bump = none)
    (howed : x.owed = 0) (hreset : x ≠ .reset) (hs : SameBulk s s') :
    Counted (afterPoll cfg s) s' := by
  have htotal := h.sum hreset
  rw [howed, Nat.add_zero] at htotal
  unfold Polling.afterPoll
  split
  case isTrue =>
    refine h.goto hs hstale hbump.symm howed.symm hreset (by simp) (fun k hk => ?_)
      (by simp) (by simp)
    simp [Poller.clean, hall k] at hk
  case isFalse hn =>
    have hempty : ∀ k, s.bulkQueue k = [] := by
      by_cases hb : cfg.bulkPush = true
      · -- Nothing was unblocked, so nothing is on a bulk queue.
        refine total_eq_zero_iff.mp ?_
        have hz : ¬0 < s.unblockCounter := fun hpos => hn ⟨hb, hpos⟩
        omega
      · exact hunused (by simpa using hb)
    refine h.goto hs hstale hbump.symm howed.symm hreset (by simp) (fun k _ => hempty k)
      (by simp) fun r hr => ?_
    have hz : total s.bulkQueue = 0 := total_eq_zero_iff.mpr hempty
    obtain rfl : (s.unblockCounter : Int) = r := by simpa using hr
    exact .inr (by rw [htotal, hz, Nat.zero_add])

omit [DecidableEq D] [DecidableEq U] [DecidableEq T] in
/-- `unblockCounter = 0` -/
theorem Counted.reset (h : Counted .reset s) : Counted .wait
    { s with unblockCounter := 0, delivered := 0 } := by
  refine ⟨h.queue, h.empty, fun _ => ?_, fun _ => rfl, by simp, by simp⟩
  have hz : total s.bulkQueue = 0 := total_eq_zero_iff.mpr fun k => h.empty k rfl
  simp [Poller.owed, hz]

omit [DecidableEq D] [DecidableEq T] in
/-- `bulkQueue.push(*ut)` -/
theorem Counted.pushBulk {d : D} {utp : Dir} {todo : List (D × Dir)}
    (h : Counted (.unblock d utp (.wake u) todo) s) :
    Counted (.unblock d utp (.bump (s.homekThread u)) todo) (s.pushBulk u) := by
  refine ⟨fun k _ => ?_, fun k hk => ?_, fun _ => ?_, by simp, by simp, by simp⟩
  · have hq := h.queue k (by simp [Poller.stale])
    simp only [Poller.bump, reduceCtorEq, if_false, Nat.add_zero] at hq
    by_cases hk : s.homekThread u = k
    · subst hk
      simp [Poller.bump, State.pushBulk, State.goto, hq]
    · simp [Poller.bump, State.pushBulk, State.goto, hk, Ne.symm hk, hq]
  · cases hk
  · have ht := h.sum (by simp)
    have hu := total_update s.bulkQueue (s.homekThread u) (s.bulkQueue (s.homekThread u) ++ [u])
    rw [List.length_append, List.length_singleton] at hu
    simp only [Poller.owed, State.pushBulk, State.goto] at ht ⊢
    omega

omit [DecidableEq D] [DecidableEq T] in
/-- `old->resume()` -/
theorem Counted.resume {d : D} {utp : Dir} {todo : List (D × Dir)}
    (h : Counted (.unblock d utp (.wake u) todo) s) :
    Counted (.unblock d utp (.ret true) todo) { s.resume u with delivered := s.delivered + 1 } := by
  refine ⟨h.queue, fun k hk => ?_, fun _ => ?_, by simp, by simp, by simp⟩
  · cases hk
  · have ht := h.sum (by simp)
    simp only [Poller.owed, State.resume, State.goto] at ht ⊢
    omega

omit [DecidableEq D] [DecidableEq U] [DecidableEq T] in
/-- `bulkCounter++` -/
theorem Counted.bump {d : D} {utp : Dir} {todo : List (D × Dir)}
    (h : Counted (.unblock d utp (.bump k) todo) s) : Counted (.unblock d utp (.ret true) todo)
      { s with bulkCounter := Function.update s.bulkCounter k (s.bulkCounter k + 1) } := by
  refine ⟨fun j _ => ?_, fun k hk => ?_, fun _ => h.sum (by simp), by simp, by simp, by simp⟩
  · have hq := h.queue j (by simp [Poller.stale])
    by_cases hj : k = j
    · subst hj
      simpa [Poller.bump] using hq
    · simpa [Poller.bump, hj, Ne.symm hj] using hq
  · cases hk

omit [DecidableEq D] [DecidableEq U] [DecidableEq T] in
/-- `unblockCounter++` -/
theorem Counted.count {todo : List (D × Dir)} (h : Counted (.count todo) s) :
    Counted (.next todo) { s with unblockCounter := s.unblockCounter + 1 } := by
  refine ⟨h.queue, fun k hk => ?_, fun _ => ?_, by simp, by simp, by simp⟩
  · cases hk
  · exact h.sum (by simp)

omit [DecidableEq D] [DecidableEq T] in
/-- `schedule(bulkQueue, bulkCounter)` -/
theorem Counted.schedule {ks : List K} (h : Counted (.schedule k ks) s) :
    Counted (.zero k ks) (s.schedule k) := by
  refine ⟨fun j hj => ?_, fun j hj => ?_, fun _ => ?_, by simp, by simp, by simp⟩
  · have hne : k ≠ j := fun he => hj (by rw [he]; rfl)
    simpa [Poller.bump, State.schedule, hne, Ne.symm hne] using h.queue j (by simp [Poller.stale])
  · by_cases hjk : j = k
    · simp [State.schedule, hjk]
    · have hks : j ∉ ks := by simpa [Poller.clean, hjk] using hj
      simpa [State.schedule, hjk] using h.empty j (by simp [Poller.clean, hjk, hks])
  · have ht := h.sum (by simp)
    have hu := total_update s.bulkQueue k []
    rw [List.length_nil] at hu
    simp only [Poller.owed, State.schedule] at ht ⊢
    omega

omit [DecidableEq D] [DecidableEq U] [DecidableEq T] in
/-- `bulkCounter = 0` -/
theorem Counted.zero {ks : List K} (h : Counted (.zero k ks) s) :
    Counted (.flush ks) { s with bulkCounter := Function.update s.bulkCounter k 0 } := by
  refine ⟨fun j _ => ?_, fun j hj => h.empty j ?_, fun _ => ?_, by simp, by simp, by simp⟩
  · by_cases hj : k = j
    · subst hj
      simp [Poller.bump, h.empty k (by simp [Poller.clean])]
    · simpa [Poller.bump, Ne.symm hj] using h.queue j (by simp [Poller.stale, hj])
  · have hks : j ∉ ks := by simpa [Poller.clean] using hj
    simp [Poller.clean, hks]
  · exact h.sum (by simp)

end UThreads.Polling
