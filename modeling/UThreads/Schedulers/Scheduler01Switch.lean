import UThreads.Schedulers.Scheduler01Queue

/-!
# `Scheduler_01`: the switches of a kThread

A kThread takes the next uThread from its local queue, which no other kThread can reach.
`nonBlockingSwitch` refills it when it is empty, or goes to the main uThread of the kThread, and
that one waits for work in `blockingSwitch`. A uThread would be lost if its kThread went to sleep
with the uThread on its local queue.

**The model.** `pos k` is where kThread `k` is in the two functions and in `defaultRun`. The
sections that hold the mutex are steps of `Scheduler01`. All that the running uThreads, other
kThreads and the poller do to the scheduler is `env`. `failed` is where an assertion on the next
uThread does not hold.

* **`no_stranded_uthread`**: the local queue of a kThread in `__popMany` is empty, `__popMany` does
  not return 0, and the assertions hold.
* **`all_wait_none_ready`**: when every kThread of the cluster waits, no uThread is ready. This
  needs that `cv.wait` returns only after a notification, and fewer than 2^32 uThreads on the queue.
-/

namespace UThreads.Scheduler01.Switch

/-! ## The model -/

/-- Where a kThread is. -/
inductive At
  /-- a uThread runs, other than the main one -/
  | user
  /-- `nonBlockingSwitch` with an empty local queue, before `__tryPopMany`; `yield` is
  `State::YIELD` -/
  | refill (yield : Bool)
  /-- `nonBlockingSwitch` after `__tryPopMany` has returned more than 0 -/
  | front
  /-- `defaultRun`, before `blockingSwitch` -/
  | main
  /-- `blockingSwitch`, in `__popMany` -/
  | popMany
  /-- `blockingSwitch`, after `__popMany` has returned `res` -/
  | popped (res : ℕ)
  | failed
  deriving DecidableEq

structure State (K U : Type*) where
  sched : Scheduler01.State K U
  pos : K → At

variable {K U : Type*} [DecidableEq K] [DecidableEq U]

namespace State

def goto (s : State K U) (k : K) (x : At) : State K U := { s with pos := Function.update s.pos k x }

/-- The local queue of kThread `k` is empty. -/
def Empty (s : State K U) (k : K) : Prop := (s.sched.queues.lrq k).head = none

instance (s : State K U) (k : K) : Decidable (s.Empty k) := inferInstanceAs (Decidable (_ = _))

/-- `ut = lrq.front(); lrq.pop(); assert(ut != nullptr)`, and the switch to `ut`. -/
def take (s : State K U) (k : K) : Option (State K U) :=
  if s.Empty k then some (s.goto k .failed)
  else (Scheduler01.step s.sched (.run k)).map fun t => { s with sched := t }.goto k .user

/-- The result of `__removeMany`. -/
def res (s : State K U) (numkt : ℕ) : ℕ :=
  Queues.popnum s.sched.queues.size.toNat numkt s.sched.queues.lastPopNum

/-- A section of `__popMany`, which waits after it or returns. -/
def popSection (s : State K U) (k : K) (numkt : ℕ) (a : Scheduler01.Action K U) :
    Option (State K U) :=
  (Scheduler01.step s.sched a).map fun t =>
    { s with sched := t }.goto k
      (if t.blocked.pos k = Pos.out then .popped (s.res numkt) else .popMany)

end State

/-- What is done to the scheduler from outside the two functions. -/
inductive Env (K U : Type*)
  | push (u : U)
  | prepareBulkPush (u : U)
  | bulkPush
  | bulkZero
  | spurious (k : K)

def Env.action : Env K U → Scheduler01.Action K U
  | .push u => .push u
  | .prepareBulkPush u => .prepareBulkPush u
  | .bulkPush => .bulkPush
  | .bulkZero => .bulkZero
  | .spurious k => .spurious k

inductive Action (K U : Type*)
  /-- The running uThread calls `switchContext`: `nonBlockingSwitch` up to the check of the local
  queue, and `front` and `pop` on it. -/
  | switch (k : K) (yield : Bool)
  /-- `__tryPopMany`; `locked` says whether `try_lock` succeeds. -/
  | tryPopMany (k : K) (locked : Bool) (numkt : ℕ)
  /-- `nonBlockingSwitch` from `front` on. -/
  | front (k : K)
  /-- `blockingSwitch` up to the first wait in `__popMany`, or to its end. -/
  | block (k : K) (numkt : ℕ)
  /-- `__popMany` from the end of a wait. -/
  | wake (k : K) (numkt : ℕ)
  /-- `blockingSwitch` from the end of `__popMany`. -/
  | take (k : K)
  | env (e : Env K U)

def step (s : State K U) : Action K U → Option (State K U)
  | .switch k yield =>
    if s.pos k = .user then if s.Empty k then some (s.goto k (.refill yield))
    else s.take k else none
  | .tryPopMany k locked numkt =>
    match s.pos k with
    | .refill yield =>
      -- -1 when the mutex is not free, and 0 when there is no work
      if locked = false then some (s.goto k .main)
      else if s.sched.queues.size = 0 then some (s.goto k (if yield = true then .user else .main))
      else (Scheduler01.step s.sched (.tryPopMany k numkt)).map fun t =>
        { s with sched := t }.goto k .front
    | _ => none
  | .front k => if s.pos k = .front then s.take k else none
  | .block k numkt => if s.pos k = .main then s.popSection k numkt (.popMany k numkt) else none
  | .wake k numkt => if s.pos k = .popMany then s.popSection k numkt (.wake k numkt) else none
  | .take k =>
    match s.pos k with
    | .popped res => if res = 0 then some (s.goto k .main) else s.take k
    | _ => none
  | .env e => (Scheduler01.step s.sched e.action).map fun t => { s with sched := t }

/-- kThreads start in `defaultRun`, and the first one with the uThread of `main()`. -/
def machine (K U : Type*) [DecidableEq K] [DecidableEq U] : Machine (State K U) (Action K U) where
  init s := s.sched = ⟨.initial, .initial⟩ ∧ ∀ k, s.pos k = .main ∨ s.pos k = .user
  step := step

/-! ## What a section does to a kThread -/

/-- The kThread that is in a section. -/
def actor? : Scheduler01.Action K U → Option K
  | .tryPop k | .tryPopMany k _ | .popMany k _ | .wake k _ | .run k => some k
  | .push _ | .prepareBulkPush _ | .bulkPush | .bulkZero | .spurious _ => none

variable {s s' : State K U} {t t' : Scheduler01.State K U} {b b' : Blocked K}
  {q q' : Queues K U} {k j : K} {numkt : ℕ} {a : Scheduler01.Action K U}

theorem unBlock_out (hb : b.unBlock = some b') : b'.pos k = .out ↔ b.pos k = .out := by
  unfold Blocked.unBlock at hb
  split at hb
  · cases hb
    rfl
  · split at hb
    · rename_i j _
      obtain ⟨r, hr, rfl⟩ := Option.map_eq_some_iff.mp hb
      obtain ⟨L, -, rfl⟩ := Option.map_eq_some_iff.mp hr
      by_cases hk : k = j
      · subst hk
        cases hp : b.pos k <;> simp [Blocked.notify, Blocked.goto, hp]
      · simp [Blocked.notify, Blocked.goto, hk]
    · cases hb

theorem unblocks_out {size : BitVec 32} (hb : Unblocks size b b') :
    b'.pos k = .out ↔ b.pos k = .out := by
  rcases hb with ⟨-, hb⟩ | ⟨-, rfl⟩
  · exact unBlock_out hb
  · rfl

theorem removeMany_lrq (hq : q.removeMany j numkt = some q') (hk : k ≠ j) : q'.lrq k = q.lrq k := by
  obtain ⟨r, -, rfl⟩ := Option.map_eq_some_iff.mp hq
  simp [Queues.setSize, hk]

/-- A section of another kThread leaves the local queue of `k` alone, and where `k` waits. -/
theorem others_step (hs : Scheduler01.step t a = some t') (hk : actor? a ≠ some k) :
    t'.queues.lrq k = t.queues.lrq k ∧ (t'.blocked.pos k = .out ↔ t.blocked.pos k = .out) := by
  have hne : ∀ {j}, actor? a = some j → k ≠ j := fun hj he => hk (he ▸ hj)
  cases step_cases hs with
  | push _ hq hb =>
    obtain ⟨r, -, rfl⟩ := Option.map_eq_some_iff.mp hq
    exact ⟨rfl, unBlock_out hb⟩
  | prepareBulkPush _ _ hq =>
    obtain ⟨r, -, rfl⟩ := Option.map_eq_some_iff.mp hq
    exact ⟨rfl, Iff.rfl⟩
  | bulkPush _ _ hq hb =>
    obtain ⟨r, -, rfl⟩ := Option.map_eq_some_iff.mp hq
    exact ⟨rfl, unBlock_out hb⟩
  | bulkZero => exact ⟨rfl, Iff.rfl⟩
  | tryPop _ hq =>
    obtain ⟨r, -, rfl⟩ := Option.map_eq_some_iff.mp hq
    exact ⟨rfl, Iff.rfl⟩
  | tryPopMany _ _ hq => exact ⟨removeMany_lrq hq (hne rfl), Iff.rfl⟩
  | enter _ _ hb =>
    obtain ⟨r, hr, rfl⟩ := Option.map_eq_some_iff.mp hb
    obtain ⟨L, -, rfl⟩ := Option.map_eq_some_iff.mp hr
    exact ⟨rfl, by simp [Blocked.goto, hne rfl]⟩
  | pass _ _ _ hq hb =>
    refine ⟨removeMany_lrq hq (hne rfl), (unblocks_out hb).trans ?_⟩
    simp [Blocked.goto, hne rfl]
  | again _ _ hb =>
    refine ⟨rfl, ?_⟩
    unfold Blocked.again at hb
    split at hb
    · obtain ⟨r, hr, rfl⟩ := Option.map_eq_some_iff.mp hb
      obtain ⟨L, -, rfl⟩ := Option.map_eq_some_iff.mp hr
      simp [Blocked.goto, hne rfl]
    · cases hb
      simp [Blocked.goto, hne rfl]
  | leave _ _ _ hl hq hb =>
    refine ⟨removeMany_lrq hq (hne rfl), (unblocks_out hb).trans ?_⟩
    unfold Blocked.leave at hl
    split at hl
    · cases hl
      simp [Blocked.goto, hne rfl]
    · obtain ⟨L, -, rfl⟩ := Option.map_eq_some_iff.mp hl
      simp [Blocked.goto, hne rfl]
  | @spurious j hj =>
    refine ⟨rfl, ?_⟩
    by_cases hkj : k = j
    · subst hkj
      simp [Blocked.goto, hj]
    · simp [Blocked.goto, hkj]
  | run hq =>
    obtain ⟨r, -, rfl⟩ := Option.map_eq_some_iff.mp hq
    exact ⟨by simp [hne rfl], Iff.rfl⟩

/-- `__removeMany` leaves something on the local queue. -/
theorem removeMany_fills {lists : Place K → List U} (h : Inv q lists) (hz : q.size ≠ 0)
    (hq : q.removeMany k numkt = some q') :
    (q'.lrq k).head ≠ none ∧ Queues.popnum q.size.toNat numkt q.lastPopNum ≠ 0 := by
  have hpos : 0 < Queues.popnum q.size.toNat numkt q.lastPopNum := Queues.popnum_pos (size_pos hz)
  have hlen := Nat.le_trans (Queues.popnum_le q.size.toNat numkt q.lastPopNum) h.size_le
  obtain ⟨next', lrq', queue', htransfer, hlrq, -⟩ := h.transferFrom k numkt hz
  simp only [Queues.removeMany, htransfer, Option.map_some, Option.some.injEq] at hq
  subst hq
  refine ⟨fun hnone => ?_, Nat.ne_of_gt hpos⟩
  have hnil := hlrq.head_none_iff.mp (by simpa [Queues.setSize] using hnone)
  have hzero := congrArg List.length hnil
  simp only [List.length_append, List.length_take, List.length_nil] at hzero
  omega

/-- A section of `__popMany` ends in a wait, with the local queue as it was, or with work on the
local queue. -/
theorem pop_section {lists : Place K → List U} (h : Inv t.queues lists)
    (ha : a = .popMany k numkt ∨ a = .wake k numkt) (hs : Scheduler01.step t a = some t') :
    t'.blocked.pos k ≠ .out ∧ t'.queues = t.queues ∨
      t'.blocked.pos k = .out ∧ (t'.queues.lrq k).head ≠ none ∧
        Queues.popnum t.queues.size.toNat numkt t.queues.lastPopNum ≠ 0 := by
  have hstep := step_cases hs
  rcases ha with rfl | rfl
  · cases hstep with
    | enter _ _ hb =>
      obtain ⟨r, -, rfl⟩ := Option.map_eq_some_iff.mp hb
      exact .inl ⟨by simp [Blocked.goto], rfl⟩
    | pass _ _ hz hq hb =>
      exact .inr ⟨(unblocks_out hb).mpr (by simp [Blocked.goto]), removeMany_fills h hz hq⟩
  · cases hstep with
    | again _ _ hb =>
      refine .inl ⟨?_, rfl⟩
      unfold Blocked.again at hb
      split at hb
      · obtain ⟨r, -, rfl⟩ := Option.map_eq_some_iff.mp hb
        simp [Blocked.goto]
      · cases hb
        simp [Blocked.goto]
    | leave _ _ hz _ hq hb =>
      exact .inr ⟨(unblocks_out hb).mpr (by simp [Blocked.goto]), removeMany_fills h hz hq⟩

/-! ## The invariant -/

/-- What the position of a kThread says about its local queue, and about where it waits. -/
def Fits (waits : Prop) (empty : Prop) : At → Prop
  | .user => ¬waits
  | .refill _ | .main => ¬waits ∧ empty
  | .front => ¬waits ∧ ¬empty
  | .popMany => waits ∧ empty
  | .popped res => ¬waits ∧ ¬empty ∧ res ≠ 0
  | .failed => False

/-- kThread `k` waits in `__popMany`. -/
def State.Waits (s : State K U) (k : K) : Prop := s.sched.blocked.pos k ≠ .out

structure Ok (s : State K U) : Prop where
  reachable : (Scheduler01.machine K U).Reachable s.sched
  fits : ∀ k, Fits (s.Waits k) (s.Empty k) (s.pos k)

/-- kThread `k` comes to `x`, in a section or without one. -/
theorem Ok.move (h : Ok s) {x : At} (hr : (Scheduler01.machine K U).Reachable t)
    (hother : ∀ j ≠ k, t.queues.lrq j = s.sched.queues.lrq j ∧
      (t.blocked.pos j = .out ↔ s.sched.blocked.pos j = .out))
    (hx : Fits (t.blocked.pos k ≠ .out) ((t.queues.lrq k).head = none) x) :
    Ok ({ s with sched := t }.goto k x) := by
  refine ⟨hr, fun j => ?_⟩
  by_cases hj : j = k
  · subst hj
    simpa [State.goto, State.Waits, State.Empty] using hx
  · obtain ⟨hlrq, hpos⟩ := hother j hj
    have hfits := h.fits j
    simp only [State.goto, Function.update_of_ne hj, State.Waits, State.Empty, ne_eq] at hfits ⊢
    rw [hlrq, hpos]
    exact hfits

theorem Ok.goto (h : Ok s) {x : At} (hx : Fits (s.Waits k) (s.Empty k) x) : Ok (s.goto k x) :=
  h.move (t := s.sched) h.reachable (fun _ _ => ⟨rfl, Iff.rfl⟩) hx

/-- A section of kThread `k`. -/
theorem Ok.act (h : Ok s) {x : At} (hs : Scheduler01.step s.sched a = some t)
    (ha : actor? a = some k) (hx : Fits (t.blocked.pos k ≠ .out) ((t.queues.lrq k).head = none) x) :
    Ok ({ s with sched := t }.goto k x) :=
  h.move (h.reachable.next hs)
    (fun _ hj => others_step hs fun he => hj (Option.some.inj (he.symm.trans ha))) hx

theorem Ok.empty_of_waits (h : Ok s) (hw : s.Waits k) : s.Empty k := by
  have hfits := h.fits k
  cases hk : s.pos k <;> rw [hk] at hfits
  case popMany => exact hfits.2
  case user => exact absurd hw hfits
  case refill | main | front | popped => exact absurd hw hfits.1
  case failed => exact hfits.elim

theorem Ok.take (h : Ok s) (hne : ¬s.Empty k) (hw : ¬s.Waits k) (hs : s.take k = some s') :
    Ok s' := by
  unfold State.take at hs
  rw [if_neg hne] at hs
  obtain ⟨t, ht, rfl⟩ := Option.map_eq_some_iff.mp hs
  refine h.act ht rfl ?_
  cases step_cases ht with
  | run hq => exact hw

theorem Ok.popSection (h : Ok s) (hempty : s.Empty k)
    (ha : a = .popMany k numkt ∨ a = .wake k numkt)
    (hs : s.popSection k numkt a = some s') : Ok s' := by
  obtain ⟨lists, hinv⟩ := inv_reachable h.reachable
  obtain ⟨t, ht, rfl⟩ := Option.map_eq_some_iff.mp hs
  refine h.act ht (by rcases ha with rfl | rfl <;> rfl) ?_
  rcases pop_section hinv ha ht with ⟨hw, hq⟩ | ⟨hout, hne, hres⟩
  · rw [if_neg hw]
    exact ⟨hw, by rw [hq]; exact hempty⟩
  · rw [if_pos hout]
    exact ⟨fun hw => hw hout, hne, hres⟩

theorem ok_step {a : Action K U} (h : Ok s) (hs : step s a = some s') : Ok s' := by
  cases a with
  | switch k yield =>
    simp only [step] at hs
    split_ifs at hs with hk hempty
    all_goals
      have hfits := h.fits k
      rw [hk] at hfits
    · cases hs
      exact h.goto ⟨hfits, hempty⟩
    · exact h.take hempty hfits hs
  | tryPopMany k locked numkt =>
    simp only [step] at hs
    split at hs
    next yield hk =>
      have hfits := h.fits k
      rw [hk] at hfits
      obtain ⟨hw, hempty⟩ := hfits
      split_ifs at hs with hl hz hy
      · cases hs
        exact h.goto ⟨hw, hempty⟩
      · cases hs
        exact h.goto hw
      · cases hs
        exact h.goto ⟨hw, hempty⟩
      · obtain ⟨t, ht, rfl⟩ := Option.map_eq_some_iff.mp hs
        obtain ⟨lists, hinv⟩ := inv_reachable h.reachable
        refine h.act ht rfl ?_
        cases step_cases ht with
        | tryPopMany _ hz hq => exact ⟨hw, (removeMany_fills hinv hz hq).1⟩
    next => cases hs
  | front k =>
    simp only [step] at hs
    split_ifs at hs with hk
    have hfits := h.fits k
    rw [hk] at hfits
    exact h.take hfits.2 hfits.1 hs
  | block k numkt =>
    simp only [step] at hs
    split_ifs at hs with hk
    have hfits := h.fits k
    rw [hk] at hfits
    exact h.popSection hfits.2 (.inl rfl) hs
  | wake k numkt =>
    simp only [step] at hs
    split_ifs at hs with hk
    have hfits := h.fits k
    rw [hk] at hfits
    exact h.popSection hfits.2 (.inr rfl) hs
  | take k =>
    simp only [step] at hs
    split at hs
    next res hk =>
      have hfits := h.fits k
      rw [hk] at hfits
      obtain ⟨hw, hne, hres⟩ := hfits
      rw [if_neg hres] at hs
      exact h.take hne hw hs
    next => cases hs
  | env e =>
    obtain ⟨t, ht, rfl⟩ := Option.map_eq_some_iff.mp hs
    refine ⟨h.reachable.next ht, fun k => ?_⟩
    obtain ⟨hlrq, hpos⟩ := others_step (k := k) ht (by cases e <;> simp [Env.action, actor?])
    have hfits := h.fits k
    simp only [State.Waits, State.Empty, ne_eq] at hfits ⊢
    rw [hlrq, hpos]
    exact hfits

theorem ok_reachable (h : (machine K U).Reachable s) : Ok s := by
  refine h.invariant (I := Ok) ?_ fun s a s' hok hs => ok_step hok hs
  rintro s ⟨hs, hpos⟩
  refine ⟨hs ▸ .of_init rfl, fun k => ?_⟩
  have hout : ¬s.Waits k := by simp [State.Waits, hs, Blocked.initial]
  rcases hpos k with hk | hk <;> rw [hk]
  · exact ⟨hout, by simp [State.Empty, hs, Queues.initial, IntrusiveQueue.new]⟩
  · exact hout

/-! ## Results -/

open IntrusiveQueue (Holds)

/-- **No uThread is stranded**: a kThread that waits has an empty local queue, and a kThread that
has filled its local queue finds a uThread on it. -/
theorem no_stranded_uthread (h : (machine K U).Reachable s) (k : K) :
    (s.sched.blocked.pos k ≠ .out → Holds s.sched.queues.next (s.sched.queues.lrq k) []) ∧
      (∀ res, s.pos k = .popped res → res ≠ 0) ∧
      (s.pos k = .front ∨ (∃ res, s.pos k = .popped res) →
        ∃ u l, Holds s.sched.queues.next (s.sched.queues.lrq k) (u :: l)) ∧ s.pos k ≠ .failed := by
  have hok := ok_reachable h
  obtain ⟨lists, hinv⟩ := inv_reachable hok.reachable
  have hholds : Holds s.sched.queues.next (s.sched.queues.lrq k) (lists (.lrq k)) :=
    hinv.placed.holds (.lrq k)
  have hfits := hok.fits k
  refine ⟨fun hw => ?_, fun res hk => ?_, fun hk => ?_, fun hk => ?_⟩
  · have hempty : s.Empty k := hok.empty_of_waits hw
    rwa [hholds.head_none_iff.mp hempty] at hholds
  · rw [hk] at hfits
    exact hfits.2.2
  · have hne : lists (.lrq k) ≠ [] := by
      intro hnil
      have hempty : s.Empty k := hholds.head_none_iff.mpr hnil
      rcases hk with hk | ⟨res, hk⟩ <;> rw [hk] at hfits
      · exact hfits.2 hempty
      · exact hfits.2.1 hempty
    obtain ⟨u, l, hl⟩ := List.exists_cons_of_ne_nil hne
    exact ⟨u, l, hl ▸ hholds⟩
  · rw [hk] at hfits
    exact hfits

/-- kThread `0` runs uThread `0`, which yields. kThread `1` waits, and gets the first of two
uThreads. -/
def yieldAndWake : List (Action ℕ ℕ) :=
  [.block 1 2, .env (.push 0), .env (.push 1), .wake 1 2, .take 1, .block 0 2, .take 0,
    .switch 0 true, .tryPopMany 0 true 2, .switch 1 false, .tryPopMany 1 true 2, .block 1 2]

theorem no_stranded_uthread_yieldAndWake :
    ∃ s : State ℕ ℕ, (machine ℕ ℕ).Reachable s ∧ s.pos 0 = .user ∧ s.pos 1 = .popMany ∧
      s.sched.queues.ran 1 = [0] ∧ s.sched.queues.ran 0 = [1] ∧
      Holds s.sched.queues.next (s.sched.queues.lrq 1) [] := by
  have hinit : (machine ℕ ℕ).Reachable ⟨⟨.initial, .initial⟩, fun _ => .main⟩ :=
    .of_init ⟨rfl, fun _ => .inl rfl⟩
  have hr := hinit.get yieldAndWake (by decide +kernel)
  exact ⟨_, hr, by decide +kernel, by decide +kernel, by decide +kernel, by decide +kernel,
    (no_stranded_uthread hr 1).1 (by decide +kernel)⟩

/-- `cv.wait` returns only after a notification. -/
def NoSpurious (_ : State K U) : Action K U → Prop
  | .env (.spurious _) => False
  | _ => True

instance (s : State K U) : (a : Action K U) → Decidable (NoSpurious s a)
  | .env (.spurious _) => inferInstanceAs (Decidable False)
  | .switch _ _ | .tryPopMany _ _ _ | .front _ | .block _ _ | .wake _ _ | .take _ | .env (.push _)
  | .env (.prepareBulkPush _) | .env .bulkPush | .env .bulkZero => inferInstanceAs (Decidable True)

/-- A step is a section of the scheduler, or leaves the scheduler alone. -/
theorem sched_step {a : Action K U} (hc : NoSpurious s a) (hs : step s a = some s') :
    s'.sched = s.sched ∨ ∃ b, Scheduler01.NoSpurious s.sched b ∧
    Scheduler01.step s.sched b = some s'.sched := by
  have htake : ∀ {k}, s.take k = some s' →
      s'.sched = s.sched ∨ ∃ b, Scheduler01.NoSpurious s.sched b ∧
      Scheduler01.step s.sched b = some s'.sched := by
    intro k hs
    unfold State.take at hs
    split_ifs at hs
    · cases hs
      exact .inl rfl
    · obtain ⟨t, ht, rfl⟩ := Option.map_eq_some_iff.mp hs
      exact .inr ⟨.run k, trivial, ht⟩
  cases a with
  | switch k yield =>
    simp only [step] at hs
    split_ifs at hs
    · cases hs
      exact .inl rfl
    · exact htake hs
  | tryPopMany k locked numkt =>
    simp only [step] at hs
    split at hs
    next =>
      split_ifs at hs with hl hz hy
      rotate_right
      · obtain ⟨t, ht, rfl⟩ := Option.map_eq_some_iff.mp hs
        exact .inr ⟨.tryPopMany k numkt, trivial, ht⟩
      all_goals
        cases hs
        exact .inl rfl
    next => cases hs
  | front k =>
    simp only [step] at hs
    split_ifs at hs
    exact htake hs
  | block k numkt =>
    simp only [step] at hs
    split_ifs at hs
    obtain ⟨t, ht, rfl⟩ := Option.map_eq_some_iff.mp hs
    exact .inr ⟨.popMany k numkt, trivial, ht⟩
  | wake k numkt =>
    simp only [step] at hs
    split_ifs at hs
    obtain ⟨t, ht, rfl⟩ := Option.map_eq_some_iff.mp hs
    exact .inr ⟨.wake k numkt, trivial, ht⟩
  | take k =>
    simp only [step] at hs
    split at hs
    next =>
      split_ifs at hs
      · cases hs
        exact .inl rfl
      · exact htake hs
    next => cases hs
  | env e =>
    obtain ⟨t, ht, rfl⟩ := Option.map_eq_some_iff.mp hs
    refine .inr ⟨_, ?_, ht⟩
    cases e with
    | spurious => exact hc.elim
    | push | prepareBulkPush | bulkPush | bulkZero => trivial

theorem sched_reachableBy (h : (machine K U).ReachableBy NoSpurious s) :
    (Scheduler01.machine K U).ReachableBy Scheduler01.NoSpurious s.sched := by
  induction h with
  | init h => exact .init h.1
  | step _ hc hs ih =>
    rcases sched_step hc hs with heq | ⟨b, hb, hs⟩
    · rwa [heq]
    · exact .step ih hb hs

/-- **When all kThreads wait, there is no work**, on the queue of the scheduler or on a local
one. -/
theorem all_wait_none_ready [Nonempty K] (h : (machine K U).ReachableBy NoSpurious s)
    (hlen : s.sched.queues.pushed.length < 2 ^ 32) (hwait : ∀ k, s.sched.blocked.pos k = .waiting) :
    Holds s.sched.queues.next s.sched.queues.queue [] ∧
      ∀ k, Holds s.sched.queues.next (s.sched.queues.lrq k) [] := by
  have hok := ok_reachable h.reachable
  obtain ⟨lists, hinv⟩ := inv_reachable hok.reachable
  obtain ⟨l, hstack, -, hchain⟩ := chained_reachable (sched_reachableBy h)
  have hsize : s.sched.queues.size = 0 := by
    by_contra hne
    rcases hchain hne with hl | ⟨k, hk⟩
    · obtain ⟨k⟩ := ‹Nonempty K›
      have hon := hstack.fits k
      rw [hwait k, hl] at hon
      exact List.not_mem_nil hon
    · exact absurd ((hwait k).symm.trans hk) (by decide)
  refine ⟨?_, fun k => ?_⟩
  · have hle : (lists .queue).length ≤ s.sched.queues.pushed.length := by
      rw [hinv.pushed, List.length_append]
      exact Nat.le_add_left ..
    have hzero := hinv.size_toNat
    rw [hsize, Nat.mod_eq_of_lt (Nat.lt_of_le_of_lt hle hlen)] at hzero
    have hnil : lists .queue = [] := List.length_eq_zero_iff.mp hzero.symm
    have hholds : Holds s.sched.queues.next s.sched.queues.queue (lists .queue) :=
      hinv.placed.holds .queue
    rwa [hnil] at hholds
  · have hholds : Holds s.sched.queues.next (s.sched.queues.lrq k) (lists (.lrq k)) :=
    hinv.placed.holds (.lrq k)
    have hempty : s.Empty k := hok.empty_of_waits (by simp [State.Waits, hwait k])
    rwa [hholds.head_none_iff.mp hempty] at hholds

/-- Both kThreads take a uThread, and wait again. -/
def bothWait : List (Action Bool ℕ) :=
  [.block false 2, .block true 2, .env (.push 0), .wake true 2, .take true, .env (.push 1),
    .wake false 2,
    .take false, .switch true false, .tryPopMany true true 2, .block true 2, .switch false true,
    .tryPopMany false false 2, .block false 2]

theorem all_wait_none_ready_bothWait :
    ∃ s : State Bool ℕ, (machine Bool ℕ).ReachableBy NoSpurious s ∧ s.sched.queues.pushed = [0, 1] ∧
      (∀ k, s.sched.blocked.pos k = .waiting) ∧ Holds s.sched.queues.next
        s.sched.queues.queue [] := by
  have hinit : (machine Bool ℕ).ReachableBy NoSpurious ⟨⟨.initial, .initial⟩, fun _ => .main⟩ :=
    .init ⟨rfl, fun _ => .inl rfl⟩
  have hr := hinit.get bothWait (by decide +kernel)
  exact ⟨_, hr, by decide +kernel, by decide +kernel,
    (all_wait_none_ready hr (by decide +kernel) (by decide +kernel)).1⟩

end UThreads.Scheduler01.Switch
