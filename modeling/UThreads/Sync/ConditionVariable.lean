import UThreads.Sync.BlockingQueueProof

/-!
# `ConditionVariable`

A `BlockingQueue` used with the client's `Mutex`. `wait` suspends, with the mutex released once the
uThread is queued, and acquires the mutex again; `signal` and `signalAll` wake uThreads and release
the mutex.

**The agents.** `pc u` is the position of uThread `u` with respect to the condition. It acquires the
mutex, calls `wait`, `signal`, `signalAll` or `mutex.release()` while it owns it, and so on; the
steps inside the calls are those of the machine `queue`.

**Bookkeeping.** `calls` counts, for each uThread, the calls that are to release the mutex: those of
`wait`, `signal`, `signalAll` and `mutex.release()`.

Main result: **`wait_signal_atomic`**.
-/

namespace UThreads.ConditionVariable

/-- The position of a uThread. -/
inductive Pc
  /-- does not own the mutex -/
  | out
  /-- in `mutex.acquire()` -/
  | acquire
  /-- owns the mutex -/
  | own
  /-- `wait`: `bq.suspend(mutex)` -/
  | waitSuspend
  /-- `wait`: `mutex.acquire()` -/
  | waitAcquire
  /-- `signal`: `if (!bq.signal(mutex))` -/
  | signal
  /-- `signal`: `mutex.release()` -/
  | signalRelease
  /-- `signalAll`: `bq.signalAll(mutex)` -/
  | signalAll
  /-- in `mutex.release()` -/
  | release
  deriving DecidableEq

structure State (K U : Type*) where
  /-- the mutex and `bq` -/
  queue : BlockingQueue.State K U
  pc : U → Pc
  calls : U → ℕ

variable {K U : Type*} [DecidableEq K] [DecidableEq U]

def initial : State K U where
  queue := BlockingQueue.initial
  pc := fun _ => .out
  calls := fun _ => 0

/-- uThread `u` comes to `x`. -/
def State.goto (s : State K U) (u : U) (x : Pc) : State K U :=
  { s with pc := Function.update s.pc u x }

/-- A step of the queue or its mutex. -/
def State.onQueue (s : State K U) (a : BlockingQueue.Action K U) : Option (State K U) :=
  (BlockingQueue.step s.queue a).map fun q => { s with queue := q }

/-- `u`, which owns the mutex, makes a call that is to release it. -/
def State.call (s : State K U) (a : BlockingQueue.Action K U) (u : U) (x : Pc) :
    Option (State K U) :=
  if s.pc u = .own then
    (s.onQueue a).map fun s =>
      { s with calls := Function.update s.calls u (s.calls u + 1) }.goto u x
  else none

/-- `u` comes to `x`, once the queue has it at `y`. -/
def State.await (s : State K U) (u : U) (y : BlockingQueue.Pc U) (x : Pc) : Option (State K U) :=
  if s.queue.pc u = y then some (s.goto u x) else none

/-- `empty()` -/
def State.empty (s : State K U) : Bool := s.queue.bq.isEmpty

/-- The next step of uThread `u`, on kThread `k`. -/
def run (k : K) (u : U) (s : State K U) : Option (State K U) :=
  match s.pc u with
  | .out | .own => none
  | .acquire | .waitAcquire => s.await u .inside .own
  | .waitSuspend =>
    if s.queue.pc u = .out then (s.onQueue (.acquire k u)).map fun s => s.goto u .waitAcquire
    else none
  | .signal =>
    if s.queue.pc u = .sigFalse then (s.onQueue (.release u)).map fun s => s.goto u .signalRelease
    else s.await u .out .out
  | .signalRelease | .signalAll | .release => s.await u .out .out

inductive Action (K U : Type*)
  /-- `u` calls `mutex.acquire()` on kThread `k`. -/
  | acquire (k : K) (u : U)
  | wait (u : U)
  | signal (u : U)
  | signalAll (u : U)
  /-- `u` calls `mutex.release()`. -/
  | release (u : U)
  /-- A step of `u`, on kThread `k`. -/
  | run (k : K) (u : U)
  /-- A step inside `queue`. -/
  | queue (a : BlockingQueue.Action K U)

/-- The steps that are not calls. -/
def Action.internal {K U : Type*} : Action K U → Bool
  | .run _ _ | .queue _ => true
  | _ => false

def step (s : State K U) : Action K U → Option (State K U)
  | .acquire k u =>
    if s.pc u = .out then (s.onQueue (.acquire k u)).map fun s => s.goto u .acquire else none
  | .wait u => s.call (.suspend u) u .waitSuspend
  | .signal u => s.call (.signal u) u .signal
  | .signalAll u => s.call (.signalAll u) u .signalAll
  | .release u => s.call (.release u) u .release
  | .run k u => run k u s
  | .queue a => if a.internal then s.onQueue a else none

def machine (K U : Type*) [DecidableEq K] [DecidableEq U] : Machine (State K U) (Action K U) where
  init := fun s => s = initial
  step := step

/-! ## What a step does -/

/-- What a uThread does with the queue. -/
def Pc.use : Pc → BlockingQueue.Use
  | .out => .none
  | .own => .hold
  | .acquire | .waitAcquire => .acquire
  | .waitSuspend => .suspend
  | .signal => .signal
  | .signalAll => .signalAll
  | .signalRelease | .release => .release

def Pc.agrees (p : Pc) (x : BlockingQueue.Pc U) : Bool := p.use.covers x

/-- The calls on the queue: the action and the one of the queue, the position of the caller before
and after it, and its position in the queue after it. -/
inductive Calls (u : U) :
    Action K U → BlockingQueue.Action K U → Pc → Pc → BlockingQueue.Pc U → Prop
  | acquire {k : K} : Calls u (.acquire k u) (.acquire k u) .out .acquire .acquiring
  | wait : Calls u (.wait u) (.suspend u) .own .waitSuspend .suspend
  | signal : Calls u (.signal u) (.signal u) .own .signal .sigTest
  | signalAll : Calls u (.signalAll u) (.signalAll u) .own .signalAll .allFront
  | release : Calls u (.release u) (.release u) .own .release .release
  | reacquire {k : K} : Calls u (.run k u) (.acquire k u) .waitSuspend .waitAcquire .acquiring
  | nobody {k : K} : Calls u (.run k u) (.release u) .signal .signalRelease .release

/-- The returns from the queue. -/
inductive Returns : BlockingQueue.Pc U → Pc → Pc → Prop
  | acquire : Returns .inside .acquire .own
  | wait : Returns .inside .waitAcquire .own
  | signal : Returns .out .signal .out
  | signalRelease : Returns .out .signalRelease .out
  | signalAll : Returns .out .signalAll .out
  | release : Returns .out .release .out

/-- What a step does. -/
inductive Step (s : State K U) : Action K U → State K U → Prop
  | call {a : Action K U} {u : U} {b : BlockingQueue.Action K U} {p y : Pc} {x : BlockingQueue.Pc U}
      {q : BlockingQueue.State K U} : Calls u a b p y x → s.pc u = p →
      BlockingQueue.step s.queue b = some q → Step s a ({ s with
        queue := q
        calls := if p = Pc.own then Function.update s.calls u (s.calls u + 1)
          else s.calls }.goto u y)
  | ret {k : K} {u : U} {p y : Pc} {x : BlockingQueue.Pc U} : Returns x p y → s.pc u = p →
      s.queue.pc u = x → Step s (.run k u) (s.goto u y)
  | queue {a : BlockingQueue.Action K U} {q : BlockingQueue.State K U} : a.internal = true →
      BlockingQueue.step s.queue a = some q → Step s (.queue a) { s with queue := q }

section Steps

variable {s s' : State K U} {u : U} {k : K}

theorem State.call_step {a : Action K U} {b : BlockingQueue.Action K U} {y : Pc}
    {x : BlockingQueue.Pc U} (hc : Calls u a b .own y x) (hs : s.call b u y = some s') :
    Step s a s' := by
  unfold State.call at hs
  split_ifs at hs with hu
  obtain ⟨_, ht, rfl⟩ := Option.map_eq_some_iff.mp hs
  obtain ⟨q, hq, rfl⟩ := Option.map_eq_some_iff.mp ht
  exact .call hc hu hq

theorem State.await_step {p y : Pc} {x : BlockingQueue.Pc U} (hr : Returns x p y)
    (hu : s.pc u = p) (hs : s.await u x y = some s') : Step s (.run k u) s' := by
  unfold State.await at hs
  split_ifs at hs with hx
  cases hs
  exact .ret hr hu hx

theorem run_step (hs : run k u s = some s') : Step s (.run k u) s' := by
  unfold run at hs
  cases hu : s.pc u with
  | out | own => simp [hu] at hs
  | acquire =>
    simp only [hu] at hs
    exact State.await_step .acquire hu hs
  | waitAcquire =>
    simp only [hu] at hs
    exact State.await_step .wait hu hs
  | waitSuspend =>
    simp only [hu] at hs
    split_ifs at hs
    obtain ⟨_, ht, rfl⟩ := Option.map_eq_some_iff.mp hs
    obtain ⟨q, hq, rfl⟩ := Option.map_eq_some_iff.mp ht
    exact .call .reacquire hu hq
  | signal =>
    simp only [hu] at hs
    split_ifs at hs
    · obtain ⟨_, ht, rfl⟩ := Option.map_eq_some_iff.mp hs
      obtain ⟨q, hq, rfl⟩ := Option.map_eq_some_iff.mp ht
      exact .call .nobody hu hq
    · exact State.await_step .signal hu hs
  | signalRelease =>
    simp only [hu] at hs
    exact State.await_step .signalRelease hu hs
  | signalAll =>
    simp only [hu] at hs
    exact State.await_step .signalAll hu hs
  | release =>
    simp only [hu] at hs
    exact State.await_step .release hu hs

theorem step_cases {a : Action K U} (hs : step s a = some s') : Step s a s' := by
  cases a with
  | acquire k u =>
    simp only [step] at hs
    split_ifs at hs with hu
    obtain ⟨_, ht, rfl⟩ := Option.map_eq_some_iff.mp hs
    obtain ⟨q, hq, rfl⟩ := Option.map_eq_some_iff.mp ht
    exact .call .acquire hu hq
  | wait u => exact State.call_step .wait hs
  | signal u => exact State.call_step .signal hs
  | signalAll u => exact State.call_step .signalAll hs
  | release u => exact State.call_step .release hs
  | run k u => exact run_step hs
  | queue a =>
    simp only [step] at hs
    split_ifs at hs with ha
    obtain ⟨q, hq, rfl⟩ := Option.map_eq_some_iff.mp hs
    exact .queue ha hq

/-- A call moves the caller on the queue. -/
theorem Calls.queue {a : Action K U} {b : BlockingQueue.Action K U} {p y : Pc}
    {x : BlockingQueue.Pc U}
    {q : BlockingQueue.State K U} (hc : Calls u a b p y x) (hI : BlockingQueue.Inv s.queue)
    (hq : BlockingQueue.step s.queue b = some q) :
    q.pc = Function.update s.queue.pc u x ∧ q.bq = s.queue.bq := by
  cases hc <;> cases BlockingQueue.step_cases hI hq <;> exact ⟨rfl, rfl⟩

/-! ## The position in the queue -/

/-- The positions of a uThread that has acquired the mutex more often than it has made calls that
release it. -/
def Pc.entering : Pc → Bool
  | .acquire | .own | .waitAcquire => true
  | _ => false

structure Inv (s : State K U) : Prop where
  queue : (BlockingQueue.machine K U).Reachable s.queue
  agrees : ∀ u, (s.pc u).agrees (s.queue.pc u) = true
  calls : ∀ u, s.queue.acquires u = s.calls u + (s.pc u).entering.toNat

/-- Only `u` moves. -/
theorem Inv.move (h : Inv s) {y : Pc} {x : BlockingQueue.Pc U}
    (hq : (BlockingQueue.machine K U).Reachable s'.queue)
    (hpc : s'.pc = Function.update s.pc u y) (hqpc : s'.queue.pc = Function.update s.queue.pc u x)
    (hag : y.agrees x = true) (hcalls : s'.queue.acquires u = s'.calls u + y.entering.toNat)
    (hother : ∀ v, v ≠ u → s'.queue.acquires v = s.queue.acquires v ∧ s'.calls v = s.calls v) :
    Inv s' := by
  refine ⟨hq, ?_, ?_⟩
  · intro v
    rw [hpc, hqpc]
    by_cases hv : v = u
    · rw [hv, Function.update_self, Function.update_self]
      exact hag
    · rw [Function.update_of_ne hv, Function.update_of_ne hv]
      exact h.agrees v
  · intro v
    rw [hpc]
    by_cases hv : v = u
    · rw [hv, Function.update_self]
      exact hcalls
    · rw [Function.update_of_ne hv, (hother v hv).1, (hother v hv).2]
      exact h.calls v

theorem inv_step (h : Inv s) {a : Action K U} (hs : step s a = some s') : Inv s' := by
  have hI := BlockingQueue.inv_reachable h.queue
  cases step_cases hs with
  | @call a u b p y x q hc hu hq =>
    have hreach := BlockingQueue.reachable_step h.queue hq
    have hcalls := h.calls u
    rw [hu] at hcalls
    cases hc with
    | acquire | reacquire =>
      cases BlockingQueue.step_cases hI hq
      refine h.move hreach rfl rfl rfl ?_ fun v hv => ⟨Function.update_of_ne hv .., rfl⟩
      show Function.update s.queue.acquires u (s.queue.acquires u + 1) u = s.calls u + 1
      rw [Function.update_self, hcalls]
      rfl
    | wait | signal | signalAll | release =>
      cases BlockingQueue.step_cases hI hq
      refine h.move hreach rfl rfl rfl ?_ fun v hv => ⟨rfl, Function.update_of_ne hv ..⟩
      show s.queue.acquires u = Function.update s.calls u (s.calls u + 1) u + 0
      rw [Function.update_self, hcalls]
      rfl
    | nobody =>
      cases BlockingQueue.step_cases hI hq
      exact h.move hreach rfl rfl rfl hcalls fun v hv => ⟨rfl, rfl⟩
  | @ret k u p y x hr hu hx =>
    have hcalls := h.calls u
    rw [hu] at hcalls
    refine h.move (x := x) h.queue rfl ?_ ?_ ?_ fun v hv => ⟨rfl, rfl⟩
    · rw [← hx]
      exact (Function.update_eq_self ..).symm
    · cases hr <;> rfl
    · cases hr <;> exact hcalls
  | queue ha hq =>
    obtain ⟨hint, hacq⟩ := BlockingQueue.internal_cases ha (BlockingQueue.step_cases hI hq)
    refine ⟨BlockingQueue.reachable_step h.queue hq, fun v => ?_, fun v => ?_⟩
    · rcases hint.next v with hv | hv
      · show (s.pc v).agrees _ = true
        rw [hv]
        exact h.agrees v
      · exact BlockingQueue.Use.covers_next (h.agrees v) hv
    · show _ = s.calls v + (s.pc v).entering.toNat
      rw [← h.calls v]
      exact congrFun hacq v

theorem inv_reachable (h : (machine K U).Reachable s) : Inv s := by
  refine Machine.Reachable.invariant (I := Inv) ?_ (fun _ _ _ hI hs => inv_step hI hs) h
  rintro s rfl
  exact ⟨.of_init rfl, fun _ => rfl, fun _ => rfl⟩

theorem reachable_step (h : (machine K U).Reachable s) {a : Action K U} (hs : step s a = some s') :
    (machine K U).Reachable s' :=
  h.next (a := a) hs

/-! ## The places of a uThread in `wait` -/

inductive Place (K U : Type*)
  /-- the queue of the condition -/
  | condition
  /-- the queue of the mutex -/
  | mutex
  | runQueue
  | running
  /-- the kThread that switches it out in `bq.suspend` -/
  | switchingOut
  /-- the kThread that switches it out in `mutex.acquire()` -/
  | mutexSwitchingOut (k : K)
  /-- the uThread that wakes it, in `signal` or `signalAll` -/
  | waking (v : U)
  /-- the kThread that passes the mutex to it -/
  | mutexWaking (k : K)

/-- uThread `u` is at this place. -/
def At (s : State K U) (u : U) : Place K U → Prop
  | .condition => u ∈ s.queue.bq
  | .mutex => u ∈ s.queue.mutex.bq
  | .runQueue => s.queue.pc u = .ready ∨ s.queue.mutex.status u = .ready
  | .running =>
    s.queue.pc u = .suspend ∨ s.queue.pc u = .out ∨ s.queue.mutex.status u = .acquiring ∨
      (s.queue.pc u = .acquiring ∨ s.queue.pc u = .inside) ∧ s.queue.mutex.status u = .inside
  | .switchingOut => s.queue.pc u = .hookPush
  | .mutexSwitchingOut k => s.queue.mutex.act k = .parkPush u
  | .waking v => (s.queue.pc v).handing = some u
  | .mutexWaking k => (s.queue.mutex.act k).handing = some u

/-- A uThread that is not suspended on the condition is at none of its places. -/
theorem not_at_condition (hI : BlockingQueue.Inv s.queue) {x : BlockingQueue.Pc U}
    (hx : s.queue.pc u = x) (hq : x.queued = false) :
    u ∉ s.queue.bq ∧ ∀ v, (s.queue.pc v).handing ≠ some u := by
  refine ⟨hI.not_mem hx hq, fun v hv => ?_⟩
  rw [← hx, (hI.handed v u hv).1] at hq
  cases hq

/-- The place of a uThread that is suspended on neither the condition nor the mutex. -/
theorem place_of_awake (hI : BlockingQueue.Inv s.queue) {x : BlockingQueue.Pc U} {p : Place K U}
    (hx : s.queue.pc u = x) (hq : x.queued = false) (hst : s.queue.mutex.status u ≠ .waiting)
    (hp : At s u p) (hone : ∀ r, r = .runQueue ∨ r = .running ∨ r = .switchingOut →
    At s u r → r = p) : ∃! p, At s u p := by
  obtain ⟨hbq, hwake⟩ := not_at_condition hI hx hq
  obtain ⟨hmbq, hswitch, hpass⟩ := Mutex.not_queued hI.mutex hst
  refine ⟨p, hp, fun r hr => ?_⟩
  cases r with
  | condition => exact absurd hr hbq
  | mutex => exact absurd hr hmbq
  | runQueue => exact hone _ (.inl rfl) hr
  | running => exact hone _ (.inr (.inl rfl)) hr
  | switchingOut => exact hone _ (.inr (.inr rfl)) hr
  | mutexSwitchingOut k => exact absurd hr (hswitch k)
  | waking v => exact absurd hr (hwake v)
  | mutexWaking k => exact absurd hr (hpass k)

/-- A suspended uThread is on the queue of the condition or in the hands of one waker. -/
theorem place_of_suspended (hI : BlockingQueue.Inv s.queue) {x : BlockingQueue.Pc U}
    (hx : s.queue.pc u = x) (hq : x = .hookRelease ∨ x = .parked) : ∃! p, At s u p := by
  have hag := hI.agrees u
  have hst : s.queue.mutex.status u = .inside ∨ s.queue.mutex.status u = .releasing ∨
      s.queue.mutex.status u = .out := by
    rcases hq with rfl | rfl <;> rw [hx] at hag
    · exact .inl hag
    · exact .inr hag
  have hwait : s.queue.mutex.status u ≠ .waiting := by
    rcases hst with hst | hst | hst <;> rw [hst] <;> exact nofun
  obtain ⟨hmbq, hswitch, hpass⟩ := Mutex.not_queued hI.mutex hwait
  -- At no other place but these two.
  have hother : ∀ r, At s u r → r = .condition ∨ ∃ v, r = .waking v := by
    intro r hr
    cases r with
    | condition => exact .inl rfl
    | waking v => exact .inr ⟨v, rfl⟩
    | mutex => exact absurd hr hmbq
    | mutexSwitchingOut k => exact absurd hr (hswitch k)
    | mutexWaking k => exact absurd hr (hpass k)
    | runQueue | running | switchingOut =>
      exfalso
      rcases hst with hst | hst | hst <;> rcases hq with rfl | rfl <;> simp [At, hx, hst] at hr
  have hmem : u ∈ s.queue.bq ∨ ∃ v, (s.queue.pc v).handing = some u := by
    rcases hq with rfl | rfl
    · have hview := hI.view u
      rw [hx] at hview
      exact .inl hview
    · exact hI.waits u hx
  rcases hmem with hbq | ⟨v, hv⟩
  · refine ⟨.condition, hbq, fun r hr => ?_⟩
    rcases hother r hr with rfl | ⟨v, rfl⟩
    · rfl
    · exact absurd hbq (hI.handed v u hr).2.2
  · refine ⟨.waking v, hv, fun r hr => ?_⟩
    rcases hother r hr with rfl | ⟨v', rfl⟩
    · exact absurd hr (hI.handed v u hv).2.2
    · rw [hI.handed_inj v v' u hv hr]

/-- A uThread that waits for the mutex is on its queue or in the hands of one kThread. -/
theorem place_of_waiting (hI : BlockingQueue.Inv s.queue) (hx : s.queue.pc u = .acquiring)
    (hst : s.queue.mutex.status u = .waiting) : ∃! p, At s u p := by
  have hM := Mutex.inv_reachable hI.mutex
  obtain ⟨hbq, hwake⟩ := not_at_condition hI hx rfl
  have hother : ∀ r, At s u r →
      r = .mutex ∨ (∃ k, r = .mutexSwitchingOut k) ∨ ∃ k, r = .mutexWaking k := by
    intro r hr
    cases r with
    | mutex => exact .inl rfl
    | mutexSwitchingOut k => exact .inr (.inl ⟨k, rfl⟩)
    | mutexWaking k => exact .inr (.inr ⟨k, rfl⟩)
    | condition => exact absurd hr hbq
    | waking v => exact absurd hr (hwake v)
    | runQueue | running | switchingOut => simp [At, hx, hst] at hr
  -- What a kThread that switches it out, or that passes the mutex to it, knows of it.
  have hpush : ∀ k, s.queue.mutex.act k = .parkPush u →
      s.queue.mutex.owner ≠ some u ∧ u ∉ s.queue.mutex.bq := by
    intro k hk
    have hview := hM.view k
    rw [hk] at hview
    exact hview.2
  rcases hM.waits u hst with hq | ⟨k, hk⟩ | ⟨k, hk⟩
  · refine ⟨.mutex, hq, fun r hr => ?_⟩
    rcases hother r hr with rfl | ⟨k, rfl⟩ | ⟨k, rfl⟩
    · rfl
    · exact absurd hq (hpush k hr).2
    · exact absurd hq (hM.hand_waiting hr).2.2
  · refine ⟨.mutexSwitchingOut k, hk, fun r hr => ?_⟩
    rcases hother r hr with rfl | ⟨k', rfl⟩ | ⟨k', rfl⟩
    · exact absurd hr (hpush k hk).2
    · have hrole : (s.queue.mutex.act k).role = some (u, .waiting) := by rw [hk]; rfl
      have hrole' : (s.queue.mutex.act k').role = some (u, .waiting) := by
        rw [show s.queue.mutex.act k' = _ from hr]
        rfl
      rw [hM.role_inj k k' u _ _ hrole hrole']
    · exact absurd (hM.hand_waiting hr).1 (hpush k hk).1
  · refine ⟨.mutexWaking k, hk, fun r hr => ?_⟩
    rcases hother r hr with rfl | ⟨k', rfl⟩ | ⟨k', rfl⟩
    · exact absurd hr (hM.hand_waiting hk).2.2
    · exact absurd (hM.hand_waiting hk).1 (hpush k' hr).1
    · rw [hM.hand_inj k k' u u hk hr]

/-- **A uThread in `wait` is at exactly one place.** -/
theorem place_unique (h : Inv s) (hu : s.pc u = .waitSuspend ∨ s.pc u = .waitAcquire) :
    ∃! p, At s u p := by
  have hI := BlockingQueue.inv_reachable h.queue
  have hag := hI.agrees u
  have hpc := h.agrees u
  -- The positions in the queue that are not those of a uThread in `wait` are excluded by `hpc`.
  cases hx : s.queue.pc u <;> rw [hx] at hag hpc
  case hookRelease => exact place_of_suspended hI hx (.inl rfl)
  case parked => exact place_of_suspended hI hx (.inr rfl)
  case suspend | inside =>
    have hst : s.queue.mutex.status u = .inside := hag
    refine place_of_awake (p := .running) hI hx rfl (by rw [hst]; exact nofun)
      (by simp [At, hx, hst]) ?_
    rintro r (rfl | rfl | rfl) hr <;> simp [At, hx, hst] at hr ⊢
  case hookPush =>
    have hst : s.queue.mutex.status u = .inside := hag
    refine place_of_awake (p := .switchingOut) hI hx rfl (by rw [hst]; exact nofun) hx ?_
    rintro r (rfl | rfl | rfl) hr <;> simp [At, hx, hst] at hr ⊢
  case ready =>
    have hst : s.queue.mutex.status u = .out := hag
    refine place_of_awake (p := .runQueue) hI hx rfl (by rw [hst]; exact nofun) (.inl hx) ?_
    rintro r (rfl | rfl | rfl) hr <;> simp [At, hx, hst] at hr ⊢
  case out =>
    have hst : s.queue.mutex.status u = .out := hag
    refine place_of_awake (p := .running) hI hx rfl (by rw [hst]; exact nofun) (.inr (.inl hx)) ?_
    rintro r (rfl | rfl | rfl) hr <;> simp [At, hx, hst] at hr ⊢
  case acquiring =>
    cases hst : s.queue.mutex.status u with
    | waiting => exact place_of_waiting hI hx hst
    | acquiring | inside =>
      refine place_of_awake (p := .running) hI hx rfl (by rw [hst]; exact nofun)
        (by simp [At, hx, hst]) ?_
      rintro r (rfl | rfl | rfl) hr <;> simp [At, hx, hst] at hr ⊢
    | ready =>
      refine place_of_awake (p := .runQueue) hI hx rfl (by rw [hst]; exact nofun) (.inr hst) ?_
      rintro r (rfl | rfl | rfl) hr <;> simp [At, hx, hst] at hr ⊢
    | out => exact absurd hst hag.1
    | releasing => exact absurd hst hag.2
  all_goals rcases hu with hu | hu <;> rw [hu] at hpc <;> cases hpc

/-! ## `wait`, `signal` and `signalAll` -/

/-- `wait`, `signal` and `signalAll` are atomic with respect to the mutex. -/
structure Atomic (s : State K U) : Prop where
  /-- A uThread in `wait` has the mutex until it is queued: -/
  owner : ∀ u, s.queue.pc u = .suspend ∨ s.queue.pc u = .hookPush ∨ s.queue.pc u = .hookRelease →
    s.queue.mutex.owner = some u
  /-- when another one has the mutex, every suspended uThread is on the queue, or was taken off it
  by a waker that is about to resume it. -/
  queued : ∀ u v, v ≠ u → s.queue.mutex.status v = .inside → (s.queue.pc u).suspended = true →
    u ∈ s.queue.bq ∨ ∃ w, (s.queue.pc w).handing = some u
  /-- A call of `signal` or `signalAll` finds everybody who is on the queue; -/
  atCall : ∀ u s', (step s (.signal u) = some s' → s'.queue.call u = ⟨false, s.queue.bq, []⟩) ∧
    (step s (.signalAll u) = some s' → s'.queue.call u = ⟨true, s.queue.bq, []⟩)
  /-- when it has returned, it has woken the first of them, if any, or all of them in order. -/
  woken : ∀ u, s.pc u = .out ∨ s.pc u = .own → (s.queue.call u).woken =
    if (s.queue.call u).all then (s.queue.call u).waiters else (s.queue.call u).waiters.take 1
  /-- The uThreads are woken in the order in which they were queued, -/
  fifo : s.queue.parks = s.queue.wakes.map Prod.snd ++ s.queue.bq
  /-- and each of them is resumed once. -/
  resumed : ∀ u, s.queue.suspensions u = s.queue.resumes u + (s.queue.pc u).suspended.toNat
  /-- In the loop of `signalAll`, the caller can always go on, -/
  enabled : ∀ u k, (s.queue.pc u).inLoop = true → (step s (.queue (.run k u))).isSome = true
  /-- it gets nearer to the end with each step, and nobody else touches the queue. -/
  loop : ∀ u a s', (s.queue.pc u).inLoop = true → step s a = some s' →
    (s'.queue.pc u = s.queue.pc u ∧ s'.queue.bq = s.queue.bq) ∨
      (∃ k, a = .queue (.run k u)) ∧
        (s'.queue.pc u).left s'.queue.bq.length < (s.queue.pc u).left s.queue.bq.length
  /-- After `signal` and `signalAll` the caller is outside, and each call has released the mutex
  once; -/
  outside : ∀ u, s.pc u = .out → s.queue.mutex.status u = .out ∧ s.calls u = s.queue.releases u
  /-- after `wait`, it owns the mutex. -/
  inside : ∀ u, s.pc u = .own → s.queue.mutex.owner = some u ∧ s.calls u = s.queue.releases u
  place : ∀ u, s.pc u = .waitSuspend ∨ s.pc u = .waitAcquire → ∃! p, At s u p

/-- What the queue has of a uThread outside the calls. -/
theorem Inv.returned (h : Inv s) {p : Pc} (hu : s.pc u = p) (hp : p = .out ∨ p = .own) :
    s.queue.pc u = if p = .own then .inside else .out := by
  have hag := h.agrees u
  rw [hu] at hag
  rcases hp with rfl | rfl <;> cases hx : s.queue.pc u <;> rw [hx] at hag <;>
    first | rfl | cases hag

theorem Inv.loop (h : Inv s) {a : Action K U} (hu : (s.queue.pc u).inLoop = true)
    (hs : step s a = some s') :
    (s'.queue.pc u = s.queue.pc u ∧ s'.queue.bq = s.queue.bq) ∨
      (∃ k, a = .queue (.run k u)) ∧
        (s'.queue.pc u).left s'.queue.bq.length < (s.queue.pc u).left s.queue.bq.length := by
  have hI := BlockingQueue.inv_reachable h.queue
  cases step_cases hs with
  | call hc hv hq =>
    rcases BlockingQueue.loop_step hI (BlockingQueue.step_cases hI hq) hu with hsame | ⟨⟨k, rfl⟩, -⟩
    · exact .inl hsame
    · cases hc
  | ret => exact .inl ⟨rfl, rfl⟩
  | queue ha hq =>
    refine (BlockingQueue.loop_step hI (BlockingQueue.step_cases hI hq) hu).imp id ?_
    rintro ⟨⟨k, rfl⟩, hlt⟩
    exact ⟨⟨k, rfl⟩, hlt⟩

theorem call_of_signal {all : Bool} {b : BlockingQueue.Action K U} {y : Pc}
    (hb : b = .signal u ∧ all = false ∨ b = .signalAll u ∧ all = true)
    (hs : s.call b u y = some s') : s'.queue.call u = ⟨all, s.queue.bq, []⟩ := by
  unfold State.call at hs
  split_ifs at hs
  obtain ⟨_, ht, rfl⟩ := Option.map_eq_some_iff.mp hs
  obtain ⟨q, hq, rfl⟩ := Option.map_eq_some_iff.mp ht
  show q.call u = _
  rcases hb with ⟨rfl, rfl⟩ | ⟨rfl, rfl⟩ <;> simp only [BlockingQueue.step] at hq <;>
    split_ifs at hq <;> cases hq <;> exact Function.update_self ..

/-- **`wait`, `signal` and `signalAll` are atomic** with respect to the mutex, in every reachable
state. -/
theorem wait_signal_atomic (h : (machine K U).Reachable s) : Atomic s := by
  have hC := inv_reachable h
  have hI := BlockingQueue.inv_reachable hC.queue
  have hH := BlockingQueue.history_reachable hC.queue
  have hcount : ∀ u p, s.pc u = p → p = .out ∨ p = .own → s.calls u = s.queue.releases u := by
    intro u p hu hp
    have hcalls := hC.calls u
    have hrel := hH.released u
    rw [hu] at hcalls
    rw [hC.returned hu hp, hcalls] at hrel
    rcases hp with rfl | rfl
    · exact hrel
    · exact Nat.succ.inj hrel
  refine ⟨?_, ?_, ?_, ?_, hH.logged, hH.resumed, ?_, ?_, ?_, ?_, fun u hu => place_unique hC hu⟩
  · intro u hu
    refine hI.owner ?_
    rcases hu with hu | hu | hu <;> rw [hu] <;> rfl
  · intro u v hvu hv hsus
    -- A uThread that is not yet queued has the mutex itself.
    have hnot : s.queue.mutex.status u ≠ .inside :=
      fun hin => hvu (Mutex.inside_inj hI.mutex hv hin)
    have hag := hI.agrees u
    cases hx : s.queue.pc u <;> rw [hx] at hsus hag
    case parked => exact hI.waits u hx
    case hookPush | hookRelease => exact absurd hag hnot
    all_goals cases hsus
  · exact fun u s' => ⟨call_of_signal (.inl ⟨rfl, rfl⟩), call_of_signal (.inr ⟨rfl, rfl⟩)⟩
  · intro u hu
    have hcalled := hH.called u
    rcases hu with hu | hu
    · rw [hC.returned hu (.inl rfl)] at hcalled
      exact hcalled
    · rw [hC.returned hu (.inr rfl)] at hcalled
      exact hcalled
  · intro u k hu
    have hrun := BlockingQueue.loop_enabled (s := s.queue) k hu
    show ((BlockingQueue.run k u s.queue).map _).isSome = true
    rw [Option.isSome_map]
    exact hrun
  · exact fun u a s' hu hs => hC.loop hu hs
  · intro u hu
    have hag := hI.agrees u
    rw [hC.returned hu (.inl rfl)] at hag
    exact ⟨hag, hcount u _ hu (.inl rfl)⟩
  · intro u hu
    refine ⟨hI.owner ?_, hcount u _ hu (.inr rfl)⟩
    rw [hC.returned hu (.inr rfl)]
    rfl

/-- uThreads `1` and `2` wait; uThread `0` calls `signalAll`. -/
def twoWait : List (Action ℕ ℕ) :=
  let acquire (u : ℕ) : List (Action ℕ ℕ) :=
    .acquire 0 u :: List.replicate 4 (.queue (.mutex 0)) ++ [.queue (.run 0 u), .run 0 u]
  let wait (u : ℕ) : List (Action ℕ ℕ) :=
    .wait u :: List.replicate 3 (.queue (.run 0 u)) ++ List.replicate 4 (.queue (.mutex 0))
  List.flatten [acquire 1, wait 1, acquire 2, wait 2, acquire 0,
    .signalAll 0 :: List.replicate 9 (.queue (.run 0 0)), List.replicate 4 (.queue (.mutex 0)),
    [.queue (.run 0 0), .run 0 0, .queue (.dispatch 1)]]

theorem wait_signal_atomic_twoWait :
    ∃ s : State ℕ ℕ, (machine ℕ ℕ).Reachable s ∧ s.pc 0 = .out ∧
      (s.queue.call 0).woken = [1, 2] ∧ s.pc 1 = .waitSuspend ∧ s.queue.pc 2 = .ready ∧
      Atomic s := by
  have hinit : (machine ℕ ℕ).Reachable initial := .of_init rfl
  have hr := hinit.get twoWait (by decide +kernel)
  exact ⟨_, hr, by decide +kernel, by decide +kernel, by decide +kernel, by decide +kernel,
    wait_signal_atomic hr⟩

end Steps

end UThreads.ConditionVariable
