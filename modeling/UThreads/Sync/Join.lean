import UThreads.Sync.ConditionVariable
import UThreads.Sync.Semaphore

/-!
# `join` and `terminate`

The creator of a joinable uThread calls `join`, and the uThread calls `terminate` when its function
has finished. Both call `waitOrSignal`, where the first to come waits on `joinWait` and the second
signals it. Where the joiner came first, the target waits for it on `afterJoin` as well, since
`joinMtx`, `joinWait` and `afterJoin` are members of the target and go with it.

**The agents.** `pc p` is the position of party `p` in `join` or `terminate`; the steps inside
`joinMtx`, `joinWait` and `afterJoin` are those of the machines `joinWait` and `afterJoin`.

**Lives.** A terminated uThread is destroyed, or it is cached and becomes another joinable uThread.
`reset` and `create` write `jState` and leave the other members as they are. The parties of the next
life are other uThreads, so they are in none of the calls.

**Bookkeeping.** `first` is the party that came first, `lives` counts the lives that are over.
-/

namespace UThreads.Join

inductive Party
  /-- the creator, which calls `join` -/
  | joiner
  /-- the uThread, which calls `terminate` -/
  | target
  deriving DecidableEq

def Party.other : Party → Party
  | .joiner => .target
  | .target => .joiner

/-- The argument `caller` of `waitOrSignal`. -/
def Party.caller : Party → Bool
  | .joiner => true
  | .target => false

inductive JState
  | detached
  | joinable
  | joining
  deriving DecidableEq

/-- The position of a party. -/
inductive Pc
  /-- before `join` or `terminate`: the target is in its function -/
  | start
  /-- `join`: `if (jState != JOINABLE)`; `terminate`: `if (jState != DETACHED)` -/
  | test
  /-- `join`: `jState = JOINING` -/
  | mark
  /-- `joinMtx.acquire()` -/
  | acquire
  /-- `if (joinWait.empty())` -/
  | empty
  /-- `joinWait.wait(joinMtx)` -/
  | wait
  /-- `joinMtx.release()` -/
  | release
  /-- `if (caller) afterJoin.V()` -/
  | afterV
  /-- `joinWait.signal(joinMtx)` -/
  | signal
  /-- `if (!caller) afterJoin.P()` -/
  | afterP
  /-- `join` has returned true; the target is `TERMINATED` -/
  | done
  /-- `join` has returned false -/
  | refused
  deriving DecidableEq

structure State (K : Type*) where
  /-- `joinMtx` and `joinWait` -/
  joinWait : ConditionVariable.State K Party
  afterJoin : Semaphore.State K Party
  jState : JState
  pc : Party → Pc
  first : Option Party
  lives : ℕ

variable {K : Type*} [DecidableEq K]

/-- `create` with `joinable`, for a new uThread. -/
def initial : State K where
  joinWait := ConditionVariable.initial
  afterJoin := Semaphore.initial 0
  jState := .joinable
  pc := fun _ => .start
  first := none
  lives := 0

namespace State

variable (s : State K)

/-- Party `p` comes to `x`. -/
def goto (p : Party) (x : Pc) : State K := { s with pc := Function.update s.pc p x }

/-- Party `p` makes a call on `joinMtx` or `joinWait`. -/
def onJoinWait (a : ConditionVariable.Action K Party) (p : Party) (x : Pc) : Option (State K) :=
  (ConditionVariable.step s.joinWait a).map fun c => { s with joinWait := c }.goto p x

/-- Party `p` makes a call on `afterJoin`. -/
def onAfterJoin (a : Semaphore.Action K Party) (p : Party) (x : Pc) : Option (State K) :=
  (Semaphore.step s.afterJoin a).map fun c => { s with afterJoin := c }.goto p x

/-- `destory`, and `reset` and `create` for the next life. -/
def recycle : State K where
  joinWait := { s.joinWait with
    queue := { s.joinWait.queue with pc := fun _ => .out }
    pc := fun _ => .out }
  afterJoin := { s.afterJoin with
    queue := { s.afterJoin.queue with pc := fun _ => .out }
    pc := fun _ => .idle }
  jState := .joinable
  pc := fun _ => .start
  first := none
  lives := s.lives + 1

end State

/-- The next step of party `p`, on kThread `k`. -/
def run (k : K) (p : Party) (s : State K) : Option (State K) :=
  match s.pc p with
  | .start | .done | .refused => none
  | .test =>
    match p with
    | .joiner => some (s.goto p (if s.jState = .joinable then .mark else .refused))
    | .target =>
      if s.jState = .detached then some (s.goto p .done) else s.onJoinWait (.acquire k p) p .acquire
  | .mark => { s with jState := .joining }.onJoinWait (.acquire k p) p .acquire
  | .acquire => if s.joinWait.pc p = .own then some (s.goto p .empty) else none
  | .empty =>
    if s.joinWait.empty then { s with first := some p }.onJoinWait (.wait p) p .wait
    else s.onJoinWait (.signal p) p .signal
  | .wait => s.onJoinWait (.release p) p .release
  | .release =>
    if s.joinWait.pc p = .out then
      if p.caller then s.onAfterJoin (.v k p) p .afterV else some (s.goto p .done)
    else none
  | .signal =>
    if s.joinWait.pc p = .out then
      if p.caller then some (s.goto p .done) else s.onAfterJoin (.p k p) p .afterP
    else none
  | .afterV | .afterP => if s.afterJoin.pc p = .idle then some (s.goto p .done) else none

inductive Action (K : Type*)
  /-- The creator calls `join`, or the function of the target returns. -/
  | start (p : Party)
  /-- A step of party `p`, on kThread `k`. -/
  | run (k : K) (p : Party)
  /-- A step inside `joinMtx` or `joinWait`. -/
  | joinWait (a : ConditionVariable.Action K Party)
  /-- A step inside `afterJoin`. -/
  | afterJoin (a : Semaphore.Action K Party)
  /-- kThread `k`, which has switched away from the target, destroys it. -/
  | recycle (k : K)

def step (s : State K) : Action K → Option (State K)
  | .start p => if s.pc p = .start then some (s.goto p .test) else none
  | .run k p => run k p s
  | .joinWait a =>
    if a.internal then (ConditionVariable.step s.joinWait a).map fun c => { s with joinWait := c }
    else none
  | .afterJoin a =>
    if a.internal then (Semaphore.step s.afterJoin a).map fun c => { s with afterJoin := c }
    else none
  | .recycle _ => if s.pc .target = .done then some s.recycle else none

def machine (K : Type*) [DecidableEq K] : Machine (State K) (Action K) where
  init := fun s => s = initial
  step := step

end UThreads.Join
