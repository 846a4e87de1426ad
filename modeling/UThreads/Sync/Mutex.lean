import UThreads.Lib.Machine
import Mathlib.Logic.Function.Basic

/-!
# `Mutex`: the model

The user-level mutex of `runtime/BlockingSync.h`: a `std::mutex` guards an `owner` and a
`BlockingQueue` of suspended uThreads. `release` passes the mutex to the first waiter and wakes it;
`owner` is never cleared on the way.

**The agents.** Code runs on kThreads: `act k` is the position of kThread `k` in the code of the
mutex. It acts for a uThread, the caller. In `acquire` the caller may be switched out; the rest
(`postSwitchFunc`) then runs on the same kThread after the switch, still for that uThread.
`status u` is where uThread `u` is with respect to the mutex; `waiting` is `State::WAITING`.

**Calls.** A uThread calls `acquire` while it is outside and `release` while it is inside, from
any kThread that is not itself in the middle of the code of the mutex. A release is over for its
uThread when it drops the internal lock; the `owner->resume()` that follows is left to the kThread.

**Bookkeeping.** `arrivals` lists the uThreads in the order in which they took the internal lock
in `acquire`, `grants` in the order in which they were stored in `owner`. `parks` and `resumes`
count, for each uThread, its suspensions and the calls of `resume` on it. The positions after
`queue.pop_front()` remember the uThread that was dequeued.
-/

namespace UThreads.Mutex

variable {K U : Type*} [DecidableEq K] [DecidableEq U]

/-- The position of a kThread in the code of the mutex, and the uThread it acts for. -/
inductive Act (U : Type*)
  | idle
  /-- `internalAcquire`: `lock.lock()` -/
  | acqLock (u : U)
  /-- `if (owner != nullptr && (!OL || owner != current))` -/
  | acqTest (u : U)
  /-- `owner = current` -/
  | acqSet (u : U)
  /-- `lock.unlock(); return true` -/
  | acqUnlock (u : U)
  /-- `bq.suspend(lock)`: `state = WAITING`, then the context switch -/
  | suspend (u : U)
  /-- `postSwitchFunc`: `queue.push_back(*ut)` -/
  | parkPush (u : U)
  /-- `postSwitchFunc`: `lock.unlock()` -/
  | parkUnlock (u : U)
  /-- `release`: `lock.lock()` -/
  | relLock (u : U)
  /-- `bq.signal(lock, owner)`: `if (queue.front() != queue.fence())` -/
  | relTest (u : U)
  /-- `owner = queue.front()` -/
  | relSet (u : U)
  /-- `queue.pop_front()` -/
  | relPop (u : U)
  /-- `lock.unlock()`, after `w` was dequeued -/
  | relUnlock (u w : U)
  /-- `owner->resume()`: the read of `owner` -/
  | relRead (w : U)
  /-- `owner->resume()`: the call, on what was read -/
  | relResume (w : U) (read : Option U)
  /-- `internalRelease`: `owner = nullptr` -/
  | relClear (u : U)
  /-- `internalRelease`: `lock.unlock()` -/
  | relFree (u : U)
  deriving DecidableEq

/-- Where a uThread is with respect to the mutex. -/
inductive Status
  /-- not in a call, and not holding the mutex -/
  | out
  /-- in `acquire`, on a kThread -/
  | acquiring
  /-- suspended in `acquire` -/
  | waiting
  /-- in `acquire`, resumed and on a run queue -/
  | ready
  /-- `acquire` has returned -/
  | inside
  /-- `release` was called and has not dropped the internal lock -/
  | releasing
  deriving DecidableEq

structure State (K U : Type*) where
  lock : Option K
  owner : Option U
  bq : List U
  act : K → Act U
  status : U → Status
  arrivals : List U
  grants : List U
  parks : U → ℕ
  resumes : U → ℕ

/-- The constructor: `owner(nullptr)`. -/
def initial : State K U where
  lock := none
  owner := none
  bq := []
  act := fun _ => .idle
  status := fun _ => .out
  arrivals := []
  grants := []
  parks := fun _ => 0
  resumes := fun _ => 0

namespace State

variable (s : State K U)

/-- kThread `k` comes to `a`. -/
def goto (k : K) (a : Act U) : State K U := { s with act := Function.update s.act k a }

def setStatus (u : U) (x : Status) : State K U := { s with status := Function.update s.status u x }

/-- `u` is stored in `owner`. -/
def grant (u : U) : State K U := { s with owner := some u, grants := s.grants ++ [u] }

/-- `u->resume()`: a uThread that waits goes to its run queue, any other stays. -/
def resume (u : U) : State K U :=
  let s := { s with resumes := Function.update s.resumes u (s.resumes u + 1) }
  if s.status u = .waiting then s.setStatus u .ready else s

omit [DecidableEq K] in
theorem resume_of_waiting {s : State K U} {u : U} (h : s.status u = .waiting) :
    s.resume u =
      { s with resumes := Function.update s.resumes u (s.resumes u + 1) }.setStatus u .ready :=
  if_pos h

end State

/-- Must `u` wait in `internalAcquire<OL>`? -/
def mustWait (OL : Bool) (owner : Option U) (u : U) : Prop :=
  owner ≠ none ∧ (OL = false ∨ owner ≠ some u)

instance (OL : Bool) (owner : Option U) (u : U) : Decidable (mustWait OL owner u) :=
  inferInstanceAs (Decidable (_ ∧ _))

/-- The next step of kThread `k`. -/
def run (OL : Bool) (k : K) (s : State K U) : Option (State K U) :=
  match s.act k with
  | .idle => none
  | .acqLock u =>
    if s.lock = none then
      some ({ s with lock := some k, arrivals := s.arrivals ++ [u] }.goto k (.acqTest u))
    else none
  | .acqTest u => some (s.goto k (if mustWait OL s.owner u then .suspend u else .acqSet u))
  | .acqSet u => some ((s.grant u).goto k (.acqUnlock u))
  | .acqUnlock u => some (({ s with lock := none }.setStatus u .inside).goto k .idle)
  | .suspend u =>
    some (({ s with parks := Function.update s.parks u (s.parks u + 1) }.setStatus u .waiting).goto
      k (.parkPush u))
  | .parkPush u => some ({ s with bq := s.bq ++ [u] }.goto k (.parkUnlock u))
  | .parkUnlock _ => some ({ s with lock := none }.goto k .idle)
  | .relLock u =>
    if s.lock = none then some ({ s with lock := some k }.goto k (.relTest u)) else none
  | .relTest u => some (s.goto k (if s.bq = [] then .relClear u else .relSet u))
  | .relSet u => s.bq.head?.map fun w => (s.grant w).goto k (.relPop u)
  | .relPop u => s.bq.head?.map fun w => { s with bq := s.bq.tail }.goto k (.relUnlock u w)
  | .relUnlock u w => some (({ s with lock := none }.setStatus u .out).goto k (.relRead w))
  | .relRead w => some (s.goto k (.relResume w s.owner))
  | .relResume _ read => read.map fun v => (s.resume v).goto k .idle
  | .relClear u => some ({ s with owner := none }.goto k (.relFree u))
  | .relFree u => some (({ s with lock := none }.setStatus u .out).goto k .idle)

inductive Action (K U : Type*)
  /-- uThread `u` calls `acquire` on kThread `k`. -/
  | acquire (k : K) (u : U)
  /-- uThread `u` calls `release` on kThread `k`. -/
  | release (k : K) (u : U)
  /-- A step of kThread `k`. -/
  | run (k : K)
  /-- A kThread switches to `u`, and its `acquire` returns. -/
  | dispatch (u : U)

def step (s : State K U) : Action K U → Option (State K U)
  | .acquire k u =>
    if s.act k = .idle ∧ s.status u = .out then
      some ((s.setStatus u .acquiring).goto k (.acqLock u))
    else none
  | .release k u =>
    if s.act k = .idle ∧ s.status u = .inside then
      some ((s.setStatus u .releasing).goto k (.relLock u))
    else none
  | .run k => run false k s
  | .dispatch u => if s.status u = .ready then some (s.setStatus u .inside) else none

def machine (K U : Type*) [DecidableEq K] [DecidableEq U] : Machine (State K U) (Action K U) where
  init := fun s => s = initial
  step := step

end UThreads.Mutex
