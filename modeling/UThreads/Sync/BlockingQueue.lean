import UThreads.Sync.Mutex

/-!
# `BlockingQueue` with a `Mutex`: the model

`BlockingQueue::suspend(Mutex&)`, `signal(Mutex&)` and `signalAll(Mutex&)`, on which `Semaphore` and
`ConditionVariable` rest. The queue has no lock of its own: its callers have the mutex. `suspend`
leaves the rest of its work to `postSwitchFunc<Mutex>`, which queues the uThread after the switch
and then releases the mutex for it; `signal` and `signalAll` release the mutex when they are done.

**The agents.** `pc u` is the position of uThread `u`, its `postSwitchFunc` included, which runs on
the kThread it was switched out from. The mutex is a machine of its own: `acquire` and `release`
are calls on some kThread, and the steps of its kThreads are interleaved with everything else. A
uThread that has the mutex may call `suspend`, `signal`, `signalAll` and `release` in any order.

**Bookkeeping.** `parks` lists the uThreads in the order in which they were queued, `wakes` the
uThreads that were taken off the queue, each with its waker. `call u` is about the last `signal` or
`signalAll` of `u`: who was queued when it was called, and whom it has taken off since. `acquires`
and `releases` count the calls of `mutex.acquire()` and `mutex.release()` for a uThread,
`suspensions` and `resumes` how often it was suspended and resumed.
-/

namespace UThreads.BlockingQueue

/-- The position of a uThread. -/
inductive Pc (U : Type*)
  /-- in no call, and without the mutex -/
  | out
  /-- `mutex.acquire()` -/
  | acquiring
  /-- has the mutex -/
  | inside
  /-- `suspend`: `state = WAITING`, then the context switch -/
  | suspend
  /-- `postSwitchFunc`: `queue.push_back(*utt)` -/
  | hookPush
  /-- `postSwitchFunc`: `mutex.unlock()`, the call -/
  | hookRelease
  /-- suspended; `postSwitchFunc` has called `mutex.unlock()` -/
  | parked
  /-- resumed, and on a run queue -/
  | ready
  /-- `signal`: `if (!queue.empty())` -/
  | sigTest
  /-- `signal`: `owner = queue.front()` -/
  | sigFront
  /-- `signal`: `queue.pop_front()` -/
  | sigPop (w : U)
  /-- `signal`: `mutex.release()`, the call -/
  | sigRelease (w : U)
  /-- `signal`: in `mutex.release()` -/
  | sigReleasing (w : U)
  /-- `signal`: `owner->resume(); return true` -/
  | sigResume (w : U)
  /-- `signal` has returned `false` -/
  | sigFalse
  /-- `signalAll`: `ut = queue.front()` -/
  | allFront
  /-- `signalAll`: `if (ut == queue.fence()) break; queue.remove(*ut)` -/
  | allRemove (ut : Option U)
  /-- `signalAll`: `ut->resume()` -/
  | allResume (w : U)
  /-- `mutex.release()`, the call -/
  | release
  /-- in `mutex.release()` -/
  | releasing
  deriving DecidableEq

/-- `state == WAITING`, on account of this queue. -/
def Pc.suspended {U : Type*} : Pc U → Bool
  | .hookPush | .hookRelease | .parked => true
  | _ => false

/-- A call of `signal` or `signalAll`. -/
structure Call (U : Type*) where
  all : Bool
  /-- on the queue at the call -/
  waiters : List U
  /-- taken off the queue by the call -/
  woken : List U

structure State (K U : Type*) where
  mutex : Mutex.State K U
  bq : List U
  pc : U → Pc U
  parks : List U
  wakes : List (U × U)
  call : U → Call U
  acquires : U → ℕ
  releases : U → ℕ
  suspensions : U → ℕ
  resumes : U → ℕ

variable {K U : Type*} [DecidableEq K] [DecidableEq U]

def initial : State K U where
  mutex := Mutex.initial
  bq := []
  pc := fun _ => .out
  parks := []
  wakes := []
  call := fun _ => ⟨true, [], []⟩
  acquires := fun _ => 0
  releases := fun _ => 0
  suspensions := fun _ => 0
  resumes := fun _ => 0

namespace State

variable (s : State K U)

/-- uThread `u` comes to `x`. -/
def goto (u : U) (x : Pc U) : State K U := { s with pc := Function.update s.pc u x }

/-- uThread `u` calls `signal` or `signalAll`. -/
def enter (u : U) (all : Bool) (x : Pc U) : State K U :=
  { s with call := Function.update s.call u ⟨all, s.bq, []⟩ }.goto u x

/-- `u` takes `w` off the queue, which becomes `bq`. -/
def take (u w : U) (bq : List U) (x : Pc U) : State K U :=
  { s with
    bq := bq
    wakes := s.wakes ++ [(u, w)]
    call := Function.update s.call u { s.call u with woken := (s.call u).woken ++ [w] } }.goto u x

/-- `w->resume()`: a uThread that is suspended here goes to its run queue; any other may be waiting
for the mutex. -/
def resume (w : U) : State K U :=
  let s := { s with resumes := Function.update s.resumes w (s.resumes w + 1) }
  if (s.pc w).suspended then s.goto w .ready else { s with mutex := s.mutex.resume w }

/-- `mutex.release()` for `u` on kThread `k`; then `u` is at `x`. -/
def release (k : K) (u : U) (x : Pc U) : Option (State K U) :=
  (Mutex.step s.mutex (.release k u)).map fun m =>
    { s with mutex := m, releases := Function.update s.releases u (s.releases u + 1) }.goto u x

end State

/-- The next step of uThread `u`, or of its `postSwitchFunc`, on kThread `k`. -/
def run (k : K) (u : U) (s : State K U) : Option (State K U) :=
  match s.pc u with
  | .acquiring => if s.mutex.status u = .inside then some (s.goto u .inside) else none
  | .suspend =>
    some ({ s with
      suspensions := Function.update s.suspensions u (s.suspensions u + 1) }.goto u .hookPush)
  | .hookPush => some ({ s with bq := s.bq ++ [u], parks := s.parks ++ [u] }.goto u .hookRelease)
  | .hookRelease => s.release k u .parked
  | .sigTest => some (s.goto u (if s.bq = [] then .sigFalse else .sigFront))
  | .sigFront => s.bq.head?.map fun w => s.goto u (.sigPop w)
  | .sigPop w => some (s.take u w s.bq.tail (.sigRelease w))
  | .sigRelease w => s.release k u (.sigReleasing w)
  | .sigReleasing w => if s.mutex.status u = .out then some (s.goto u (.sigResume w)) else none
  | .sigResume w => some ((s.resume w).goto u .out)
  | .allFront => some (s.goto u (.allRemove s.bq.head?))
  | .allRemove none => some (s.goto u .release)
  | .allRemove (some w) => some (s.take u w (s.bq.erase w) (.allResume w))
  | .allResume w => some ((s.resume w).goto u .allFront)
  | .release => s.release k u .releasing
  | .releasing => if s.mutex.status u = .out then some (s.goto u .out) else none
  | .out | .inside | .parked | .ready | .sigFalse => none

inductive Action (K U : Type*)
  /-- `u` calls `mutex.acquire()` on kThread `k`. -/
  | acquire (k : K) (u : U)
  | suspend (u : U)
  | signal (u : U)
  | signalAll (u : U)
  /-- `u` is to call `mutex.release()`. -/
  | release (u : U)
  /-- A step of `u`, on kThread `k`. -/
  | run (k : K) (u : U)
  /-- A step of kThread `k` in the code of the mutex. -/
  | mutex (k : K)
  /-- A kThread switches to `u`, which is on a run queue. -/
  | dispatch (u : U)

/-- Not a call. -/
def Action.internal {K U : Type*} : Action K U → Bool
  | .run _ _ | .mutex _ | .dispatch _ => true
  | _ => false

def step (s : State K U) : Action K U → Option (State K U)
  | .acquire k u =>
    if s.pc u = .out then
      (Mutex.step s.mutex (.acquire k u)).map fun m =>
        { s with
          mutex := m
          acquires := Function.update s.acquires u (s.acquires u + 1) }.goto u .acquiring
    else none
  | .suspend u => if s.pc u = .inside then some (s.goto u .suspend) else none
  | .signal u => if s.pc u = .inside then some (s.enter u false .sigTest) else none
  | .signalAll u => if s.pc u = .inside then some (s.enter u true .allFront) else none
  | .release u =>
    if s.pc u = .inside ∨ s.pc u = .sigFalse then some (s.goto u .release) else none
  | .run k u => run k u s
  | .mutex k => (Mutex.step s.mutex (.run k)).map fun m => { s with mutex := m }
  | .dispatch u =>
    if s.pc u = .ready then some (s.goto u .out)
    else (Mutex.step s.mutex (.dispatch u)).map fun m => { s with mutex := m }

def machine (K U : Type*) [DecidableEq K] [DecidableEq U] : Machine (State K U) (Action K U) where
  init := fun s => s = initial
  step := step

end UThreads.BlockingQueue
