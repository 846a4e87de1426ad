import UThreads.Io.Readiness

/-!
# `Connection::connect`

`connect` starts a handshake, and while that is in progress it waits for the descriptor to become
writable (`IOHandler::wait`). After the wait it takes an `SO_ERROR` of 0 for success. The other
calls of a connection try their system call again after the wait; `connect` does not.

**The PollData.** `base` is its model in `Io.IOHandler`, from the `reset` of an earlier `close` on:
it is in the cache until `getPollData` hands it out (`owned`). Events of the earlier connection may
still come to it at any time (`stale`).

**The call.** A run has one `connect` on the PollData, the first call on it after it was handed out.
A second `connect` on the same socket is not modelled.

**The kernel.** `sock` is the state of the handshake. Its end makes the descriptor writable, which
queues an event when the descriptor is registered. `SO_ERROR` is 0 while the handshake is in
progress.

A stale event makes `connect` return 0 while the handshake is in progress (`connect_early`); without
stale events it returns 0 only when the connection is completed (`connect_completed`).
-/

namespace UThreads.Connect

open IOHandler (Dir Runtime)

inductive Sock
  | fresh
  | inProgress
  | completed
  | failed (error : ℕ)
  deriving DecidableEq

/-- The value of `SO_ERROR`. -/
def Sock.error : Sock → ℕ
  | .failed e => e
  | _ => 0

/-- The position of the uThread in `connect`. -/
inductive Pos
  | idle
  /-- `::connect(fd, addr, addrlen)` -/
  | call
  /-- `iohandler.wait(*pd, UT_IOWRITE)` -/
  | wait
  /-- `::getsockopt(fd, SOL_SOCKET, SO_ERROR, ...)` -/
  | check
  | ret (res : Int)
  deriving DecidableEq

/-- What the system call `connect` does. -/
inductive Outcome
  | connected
  /-- -1 with `EINPROGRESS` -/
  | inProgress
  | error (e : ℕ)

structure State (K : Type*) where
  base : IOHandler.State K
  owned : Bool
  pos : Pos
  sock : Sock
  errno : ℕ

variable {K : Type*} [DecidableEq K]

inductive Action (K : Type*)
  /-- an event of the earlier connection -/
  | stale (d : Dir)
  | getPollData
  | connect
  | syscall (r : Outcome)
  /-- a step of the uThread in `wait`, or of its `postSwitchFunc` -/
  | run
  | getsockopt
  /-- the handshake ends, with this value of `SO_ERROR` -/
  | finish (e : ℕ) (merge : Bool)
  /-- after the handshake, the descriptor becomes readable -/
  | readable (merge : Bool)
  /-- a step of the poller -/
  | poll
  | deliver (dirs : List Dir)
  | elsewhere (k : K)

/-- The PollData does a step of its model. -/
def State.onBase (s : State K) (rt : Runtime K) (a : IOHandler.Action K) : Option (State K) :=
  (IOHandler.step rt.home rt.kThreads s.base a).map fun b => { s with base := b }

def step (rt : Runtime K) (s : State K) : Action K → Option (State K)
  | .stale d => s.onBase rt (.stale d)
  | .getPollData => if s.owned then none else some { s with owned := true }
  | .connect => if s.owned ∧ s.pos = .idle then some { s with pos := .call } else none
  | .syscall r =>
    if s.pos = .call then
      match r with
      | .connected => some { s with sock := .completed, pos := .ret 0 }
      | .inProgress =>
        some { s with sock := .inProgress, pos := .wait, base := s.base.goto .write .opened }
      | .error e => some { s with errno := e, pos := .ret (-1) }
    else none
  | .run =>
    if s.pos = .wait then
      (IOHandler.run .write s.base).map fun b =>
        -- where other calls are back at their system call, `wait` has returned
        { s with base := b, pos := if b.pos .write = .syscall then .check else .wait }
    else none
  | .getsockopt =>
    if s.pos = .check then
      if s.sock.error = 0 then some { s with pos := .ret 0 }
      else some { s with errno := s.sock.error, pos := .ret (-1) }
    else none
  | .finish e merge =>
    if s.sock = .inProgress then
      { s with sock := if e = 0 then .completed else .failed e }.onBase rt (.rise .write merge)
    else none
  | .readable merge =>
    if s.sock = .fresh ∨ s.sock = .inProgress then none else s.onBase rt (.rise .read merge)
  | .poll => s.onBase rt .poll
  | .deliver dirs => s.onBase rt (.deliver dirs)
  | .elsewhere k => s.onBase rt (.elsewhere k)

/-- The PollData after `reset`. -/
def initial : State K where
  base := IOHandler.initial fun _ => false
  owned := false
  pos := .idle
  sock := .fresh
  errno := 0

def machine (rt : Runtime K) : Machine (State K) (Action K) where
  init := fun s => s = initial
  step := step rt

/-! ## Without stale events -/

/-- The condition on runs. -/
def NoStale (_ : State K) : Action K → Prop
  | .stale _ => False
  | _ => True

instance (s : State K) : (a : Action K) → Decidable (NoStale s a)
  | .stale _ => inferInstanceAs (Decidable False)
  | .getPollData | .connect | .syscall _ | .run | .getsockopt | .finish .. | .readable _ | .poll
  | .deliver _ | .elsewhere _ => inferInstanceAs (Decidable True)

/-- Nothing has been heard of the descriptor. -/
structure Quiet (b : IOHandler.State K) : Prop where
  events : ∀ d, b.events d = 0
  fdReady : ∀ d, b.fdReady d = false
  poller : ∀ u todo, b.poller ≠ .unblock u todo
  slot : ∀ d, b.slot d ≠ .ready
  bulkQueue : ∀ k, b.bulkQueue k = []
  closing : b.closing = false

/-- Before the handshake ends, all is quiet and `connect` waits. -/
structure Inv (s : State K) : Prop where
  quiet : s.sock = .fresh ∨ s.sock = .inProgress → Quiet s.base ∧ s.pos ≠ .check
  waiting : s.sock = .fresh ∨ s.sock = .inProgress → s.pos = .wait →
    (s.base.pos .write).waiting = true
  fresh : s.pos = .idle ∨ s.pos = .call → s.sock = .fresh
  failed : ∀ e, s.sock = .failed e → e ≠ 0
  result : s.pos = .ret 0 → s.sock = .completed

variable {rt : Runtime K} {s s' : State K} {b b' : IOHandler.State K}

omit [DecidableEq K] in
theorem quiet_initial : Quiet (IOHandler.initial (fun _ => false) : IOHandler.State K) :=
  ⟨fun _ => rfl, fun _ => rfl, by simp [IOHandler.initial], by simp [IOHandler.initial],
    fun _ => rfl, rfl⟩

omit [DecidableEq K] in
/-- A step of the waiting uThread: it comes closer to its slot, or parks there. -/
theorem quiet_run (h : Quiet b) (hw : (b.pos .write).waiting = true)
    (hs : IOHandler.run .write b = some b') : Quiet b' ∧ (b'.pos .write).waiting = true := by
  unfold IOHandler.run at hs
  cases hp : b.pos .write <;> simp only [hp, IOHandler.Pos.waiting, Bool.false_eq_true] at hs hw <;>
    cases hs
  case opened =>
    refine ⟨{ h with }, ?_⟩
    split_ifs <;> simp [IOHandler.State.goto, IOHandler.Pos.waiting]
  case openCas =>
    split_ifs
    · exact ⟨{ h with }, by simp [IOHandler.State.goto, IOHandler.Pos.waiting]⟩
    · exact ⟨{ h with }, by simp [IOHandler.State.goto, IOHandler.Pos.waiting]⟩
  case openAdd =>
    refine ⟨{ h with events := fun d => ?_ }, by simp [IOHandler.State.goto, IOHandler.Pos.waiting]⟩
    simp [IOHandler.State.goto, h.fdReady, h.events]
  case blockRead =>
    exact ⟨{ h with }, by simp [IOHandler.State.goto, h.slot, IOHandler.Pos.waiting]⟩
  case blockFlag => exact ⟨{ h with }, by simp [IOHandler.State.goto, IOHandler.Pos.waiting]⟩
  case suspend => exact ⟨{ h with }, by simp [IOHandler.State.goto, IOHandler.Pos.waiting]⟩
  case hookClosing =>
    exact ⟨{ h with }, by simp [IOHandler.State.goto, h.closing, IOHandler.Pos.waiting]⟩
  case hookFlag => exact ⟨{ h with }, by simp [IOHandler.State.goto, IOHandler.Pos.waiting]⟩
  case hookRead utp =>
    exact ⟨{ h with }, by simp [IOHandler.State.goto, h.slot, IOHandler.Pos.waiting]⟩
  case hookCas utp =>
    split_ifs
    · refine ⟨{ h with slot := fun d => ?_ }, by simp [IOHandler.State.goto, IOHandler.Pos.waiting]⟩
      by_cases hd : d = utp
      · simp [IOHandler.State.goto, IOHandler.State.setSlot, hd]
      · simpa [IOHandler.State.goto, IOHandler.State.setSlot, hd] using h.slot d
    · exact ⟨{ h with }, by simp [IOHandler.State.goto, IOHandler.Pos.waiting]⟩

/-- A step of the poller, with no event in its hands and no uThread to flush. -/
theorem quiet_poll {home : Dir → K} {kts : List K} (h : Quiet b)
    (hs : IOHandler.poll home kts b = some b') : Quiet b' ∧ b'.pos = b.pos := by
  unfold IOHandler.poll at hs
  cases hp : b.poller <;> simp only [hp] at hs
  case idle =>
    cases hs
    exact ⟨{ h with poller := by simp }, rfl⟩
  case polling =>
    cases hs
    exact ⟨{ h with poller := by simp only; split_ifs <;> simp }, rfl⟩
  case unblock u todo => exact absurd hp (h.poller u todo)
  case other k =>
    cases hs
    exact ⟨{ h with poller := by simp }, rfl⟩
  case flush kts =>
    cases kts with
    | nil =>
      cases hs
      exact ⟨{ h with poller := by simp }, rfl⟩
    | cons k kts =>
      cases hs
      unfold IOHandler.State.flush
      split_ifs
      · refine ⟨{ h with poller := by simp, bulkQueue := fun j => ?_ }, ?_⟩
        · by_cases hj : j = k <;> simp [hj, h.bulkQueue]
        · funext d
          simp [h.bulkQueue]
      · exact ⟨{ h with poller := by simp }, rfl⟩
  case zero k kts =>
    cases hs
    exact ⟨{ h with poller := by simp }, rfl⟩

omit [DecidableEq K] in
/-- A step that leaves `connect` where it is. -/
theorem Inv.frame (h : Inv s) (hquiet : Quiet s.base → Quiet b' ∧ b'.pos = s.base.pos) :
    Inv { s with base := b' } where
  quiet := fun hd => ⟨(hquiet (h.quiet hd).1).1, (h.quiet hd).2⟩
  waiting := fun hd hw => by
    rw [(hquiet (h.quiet hd).1).2]
    exact h.waiting hd hw
  fresh := h.fresh
  failed := h.failed
  result := h.result

theorem inv_syscall {r : Outcome} (h : Inv s) (hs : step rt s (.syscall r) = some s') : Inv s' := by
  simp only [step] at hs
  split_ifs at hs with hp
  obtain ⟨hquiet, -⟩ := h.quiet (.inl (h.fresh (.inr hp)))
  cases r with
  | connected =>
    cases hs
    exact ⟨by simp, by simp, by simp, by simp, fun _ => rfl⟩
  | inProgress =>
    cases hs
    refine ⟨fun _ => ⟨{ hquiet with }, by simp⟩, fun _ _ => ?_, by simp, by simp, by simp⟩
    simp [IOHandler.State.goto, IOHandler.Pos.waiting]
  | error e =>
    cases hs
    exact ⟨fun hd => ⟨(h.quiet hd).1, by simp⟩, by simp, by simp, h.failed, by simp⟩

theorem inv_run (h : Inv s) (hs : step rt s .run = some s') : Inv s' := by
  simp only [step] at hs
  split_ifs at hs with hp
  obtain ⟨b, hb, rfl⟩ := Option.map_eq_some_iff.mp hs
  refine ⟨fun hd => ?_, fun hd _ => ?_, ?_, h.failed, ?_⟩
  · obtain ⟨hquiet, hwaiting⟩ := quiet_run (h.quiet hd).1 (h.waiting hd hp) hb
    refine ⟨hquiet, ?_⟩
    simp only
    split_ifs with hret
    · simp [hret, IOHandler.Pos.waiting] at hwaiting
    · simp
  · exact (quiet_run (h.quiet hd).1 (h.waiting hd hp) hb).2
  · simp only
    split_ifs <;> simp
  · simp only
    split_ifs <;> simp

/-- The wait is over only when the handshake is. -/
theorem inv_getsockopt (h : Inv s) (hs : step rt s .getsockopt = some s') : Inv s' := by
  simp only [step] at hs
  split_ifs at hs with hp he <;> cases hs
  · refine ⟨fun hd => absurd hp (h.quiet hd).2, by simp, by simp, h.failed, fun _ => ?_⟩
    cases hsock : s.sock with
    | fresh => exact absurd hp (h.quiet (.inl hsock)).2
    | inProgress => exact absurd hp (h.quiet (.inr hsock)).2
    | completed => rfl
    | failed e =>
      rw [hsock] at he
      exact absurd he (h.failed e hsock)
  · exact ⟨fun hd => absurd hp (h.quiet hd).2, by simp, by simp, h.failed, by simp⟩

theorem inv_finish {e : ℕ} {merge : Bool} (h : Inv s)
    (hs : step rt s (.finish e merge) = some s') : Inv s' := by
  simp only [step] at hs
  split at hs
  case isFalse => exact absurd hs (by simp)
  case isTrue hp =>
    obtain ⟨b, -, rfl⟩ := Option.map_eq_some_iff.mp hs
    have hpos : ¬(s.pos = .idle ∨ s.pos = .call) := by
      intro hidle
      rw [h.fresh hidle] at hp
      exact absurd hp (by simp)
    refine ⟨fun hd => ?_, fun hd => ?_, fun hidle => absurd hidle hpos, fun e' he' => ?_,
      fun hret => ?_⟩
    · simp only at hd
      split_ifs at hd <;> simp at hd
    · simp only at hd
      split_ifs at hd <;> simp at hd
    · simp only at he'
      split_ifs at he' with h0
      cases he'
      exact h0
    · rw [h.result hret] at hp
      exact absurd hp (by simp)

theorem inv_step {a : Action K} (h : Inv s) (ha : NoStale s a) (hs : step rt s a = some s') :
    Inv s' := by
  cases a with
  | stale d => exact absurd ha (by simp [NoStale])
  | getPollData =>
    simp only [step] at hs
    split_ifs at hs
    cases hs
    exact { h with }
  | connect =>
    simp only [step] at hs
    split_ifs at hs with hp
    cases hs
    exact ⟨fun hd => ⟨(h.quiet hd).1, by simp⟩, by simp, fun _ => h.fresh (.inl hp.2),
      h.failed, by simp⟩
  | syscall r => exact inv_syscall h hs
  | run => exact inv_run h hs
  | getsockopt => exact inv_getsockopt h hs
  | finish e merge => exact inv_finish h hs
  | readable merge =>
    simp only [step] at hs
    split_ifs at hs with hp
    obtain ⟨b, -, rfl⟩ := Option.map_eq_some_iff.mp hs
    exact ⟨fun hd => absurd hd hp, fun hd => absurd hd hp, h.fresh, h.failed, h.result⟩
  | poll =>
    obtain ⟨b, hb, rfl⟩ := Option.map_eq_some_iff.mp hs
    exact h.frame fun hq => quiet_poll hq hb
  | deliver dirs =>
    obtain ⟨b, hb, rfl⟩ := Option.map_eq_some_iff.mp hs
    refine h.frame fun hq => ?_
    simp only [IOHandler.step] at hb
    split_ifs at hb with hg
    -- there is no event to deliver
    obtain ⟨-, hdirs, hall⟩ := hg
    simp only [List.mem_cons, List.not_mem_nil, or_false] at hdirs
    rcases hdirs with rfl | rfl | rfl <;> simp [hq.events] at hall
  | elsewhere k =>
    obtain ⟨b, hb, rfl⟩ := Option.map_eq_some_iff.mp hs
    refine h.frame fun hq => ?_
    simp only [IOHandler.step] at hb
    split_ifs at hb
    cases hb
    exact ⟨{ hq with poller := by simp }, rfl⟩

omit [DecidableEq K] in
theorem inv_initial : Inv (initial : State K) :=
  ⟨fun _ => ⟨quiet_initial, by simp [initial]⟩, by simp [initial], fun _ => rfl, by simp [initial],
    by simp [initial]⟩

/-- **`connect` returns 0 only when the connection is completed**, in runs without stale events. -/
theorem connect_completed (h : (machine rt).ReachableBy NoStale s) (hret : s.pos = .ret 0) :
    s.sock = .completed := by
  have hinv : Inv s := by
    apply h.invariant
    · rintro s rfl
      exact inv_initial
    · intro s a s' hI ha hs
      exact inv_step hI ha hs
  exact hinv.result hret

/-- The wait of `connect`, up to `postSwitchFunc`, where it parks in `wut`. -/
def parkRun : List (Action ℕ) :=
  [.getPollData, .connect, .syscall .inProgress] ++ List.replicate 10 .run

/-- The poller takes an event for the write direction. -/
def pollRun (n : ℕ) : List (Action ℕ) := [.poll, .deliver [.write]] ++ List.replicate n .poll

theorem connect_completed_waited :
    ∃ s : State ℕ, (machine IOHandler.oneKThread).ReachableBy NoStale s ∧ s.pos = .ret 0 ∧
      s.sock = .completed := by
  have h0 : (machine IOHandler.oneKThread).ReachableBy NoStale (initial : State ℕ) := .init rfl
  have hrun := h0.get (parkRun ++ [.finish 0 false] ++ pollRun 9 ++ [.run, .getsockopt])
    (by decide +kernel)
  exact ⟨_, hrun, by decide +kernel, connect_completed hrun (by decide +kernel)⟩

/-- A stale event comes while the PollData is in the cache, or while `connect` waits: `connect`
returns 0 while the handshake is in progress. -/
theorem connect_early :
    (∃ s : State ℕ, (machine IOHandler.oneKThread).Reachable s ∧ s.pos = .ret 0 ∧
      s.sock = .inProgress ∧ s.base.suspensions .write = 0) ∧
    ∃ s : State ℕ, (machine IOHandler.oneKThread).Reachable s ∧ s.pos = .ret 0 ∧
      s.sock = .inProgress ∧ s.base.suspensions .write = 1 := by
  have h0 : (machine IOHandler.oneKThread).Reachable (initial : State ℕ) := .of_init rfl
  refine ⟨⟨_, h0.get ([.stale .write] ++ pollRun 4 ++
      [.getPollData, .connect, .syscall .inProgress] ++
      List.replicate 5 .run ++ [.getsockopt]) (by decide +kernel), ?_⟩,
    ⟨_, h0.get (parkRun ++ [.stale .write] ++ pollRun 9 ++ [.run, .getsockopt])
      (by decide +kernel), ?_⟩⟩ <;> decide +kernel

end UThreads.Connect
