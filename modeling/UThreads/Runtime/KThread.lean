import UThreads.Lib.Machine
import UThreads.Runtime.AssignKThread
import Mathlib.Logic.Function.Basic

/-!
# kThreads and uThreads: the model

The runtime of `runtime/kThread.cpp` and `runtime/uThread.cpp` over `Scheduler_02`, with the
blocking of `runtime/BlockingSync.h`.

**kThreads.** A kThread runs the code of its `currentUT`, or is in the middle of a switch
(`Pos`): the pop of `nonBlockingSwitch` or `blockingSwitch`, the stack switch, and the parts of
`postSwitchFunc`, which run on the stack of the next uThread while `currentUT` still names the old
one. Its `mainUT` runs `defaultRun`. kThreads are created at any time and never destroyed.

**uThreads.** `create`, `start`, `yield`, `migrate`, `terminate` and `resume` are those of
`uThread`. A destroyed uThread is in the cache, and may be created again at once, also while a
kThread still has it as `currentUT`. `saved` is bookkeeping: the context of the uThread is in its
`stackPointer`.

**Blocking.** A uThread blocks in `Mutex::acquire` (on the queue of the mutex), and in
`Semaphore::P` and `ConditionVariable::wait` (on a queue of their own, with a mutex that
`postSwitchFunc` releases). A kThread wakes uThreads while it runs a uThread, and in
`postSwitchFunc`: it takes them from a queue and resumes them, the last one taken first
(`hands`). `Mutex::release` stores the uThread it takes in `owner` and reads `owner` again for the
`resume`. The counters of semaphores and the predicates of condition variables are left to the
callers, which may wait, signal and wake at any time within the contract below.

**The contract** of the callers is the one the source asserts: a mutex is not acquired by its owner
and is released by its owner only. A semaphore has a mutex of its own. A condition variable is
used with one mutex, which the callers of `wait`, `signal` and `signalAll` hold (`mutexOf`).

**Granularity.** The run queue is a FIFO list, which the queue of `Scheduler_02` refines; the
semaphore of the scheduler is left out, so `blockingSwitch` may pop whenever there is something. The
sections under the internal `std::mutex` of a mutex are one step each; the lock itself is left out,
which only allows more runs.
-/

namespace UThreads.Runtime

/-- `uThread::State` -/
inductive UState
  | initialized
  | ready
  | running
  | yield
  | migrate
  | waiting
  | terminated
  deriving DecidableEq

/-- What a uThread object is in use for. -/
inductive Life (K : Type*)
  /-- not created, or destroyed -/
  | absent
  | created
  | started
  | mainUT (k : K)
  deriving DecidableEq

structure UThread (K C : Type*) where
  life : Life K
  state : UState
  homekThread : Option K
  currentCluster : Option C
  saved : Bool
  deriving DecidableEq

/-- A `BlockingQueue`: that of a mutex, or that of a semaphore or condition variable. -/
inductive Queue (M B : Type*)
  | mutex (m : M)
  | client (b : B)
  deriving DecidableEq

/-- Where a kThread is. `args` is the argument of `switchContext`: the queue to block on. -/
inductive Pos (U M B : Type*)
  /-- not created -/
  | absent
  /-- in the code of `currentUT`; `mainUT` is in `blockingSwitch` -/
  | run
  /-- `nonBlockingSwitch`: `runQueue.pop()` -/
  | pop (args : Option (Queue M B))
  /-- `stackSwitch(next, args, ...)` -/
  | stackSwitch (next : U) (args : Option (Queue M B))
  /-- `postSwitchFunc`, up to and including `queue.push_back(*ut)` of `postSuspendFunc` -/
  | postSwitch (next : U) (args : Option (Queue M B))
  /-- `postSuspendFunc`: `bqp->first->unlock()` -/
  | unlock (next : U) (q : Queue M B)
  /-- `ck->currentUT = next; next->state = RUNNING` -/
  | finish (next : U)
  deriving DecidableEq

structure KThread (U C M B : Type*) where
  pos : Pos U M B
  localCluster : Option C
  currentUT : Option U
  mainUT : Option U
  deriving DecidableEq

/-- A uThread that was taken from a queue, and the mutex whose `owner` it is resumed through. -/
structure Held (U M : Type*) where
  ut : U
  via : Option M
  deriving DecidableEq

structure Cluster (K : Type*) where
  ktVector : List K
  ktLast : ℕ
  deriving DecidableEq

structure State (K U C M B : Type*) where
  kt : K → KThread U C M B
  ut : U → UThread K C
  cluster : C → Cluster K
  /-- `scheduler->runQueue` of each kThread -/
  runQueue : K → List U
  bq : Queue M B → List U
  /-- `Mutex::owner` -/
  owner : M → Option U
  /-- what each kThread has taken from a queue and not resumed -/
  hands : K → List (Held U M)

variable {K U C M B : Type*} [DecidableEq K] [DecidableEq U] [DecidableEq C] [DecidableEq M]
  [DecidableEq B]

namespace State

variable (s : State K U C M B)

def setKT (k : K) (t : KThread U C M B) : State K U C M B :=
  { s with kt := Function.update s.kt k t }

def setUT (u : U) (x : UThread K C) : State K U C M B := { s with ut := Function.update s.ut u x }

/-- kThread `k` comes to `p`. -/
def goto (k : K) (p : Pos U M B) : State K U C M B := s.setKT k { s.kt k with pos := p }

/-- `Scheduler::schedule(u, k)` -/
def schedule (u : U) (k : K) : State K U C M B :=
  { s with runQueue := Function.update s.runQueue k (s.runQueue k ++ [u]) }

/-- The uThread whose code kThread `k` runs. -/
def caller (k : K) : Option U :=
  match (s.kt k).pos with
  | .run => if (s.kt k).currentUT = (s.kt k).mainUT then none else (s.kt k).currentUT
  | _ => none

/-- The uThread whose code kThread `k` runs, when it is not in the middle of a wake-up. -/
def freeCaller (k : K) : Option U :=
  match s.hands k with
  | [] => s.caller k
  | _ :: _ => none

end State

/-! ## uThreads -/

/-- The constructor, and `reset`. -/
def newUT : UThread K C where
  life := .created
  state := .initialized
  homekThread := none
  currentCluster := none
  saved := false

/-- `Cluster::assignkThread()`, in one step -/
def assignkThread (c : C) (next : ℕ) (s : State K U C M B) : Option (K × State K U C M B) :=
  (AssignKThread.assign (s.cluster c).ktVector (s.cluster c).ktLast next).map fun (k, ktLast) =>
    (k, { s with cluster := Function.update s.cluster c { s.cluster c with ktLast := ktLast } })

/-- Does `resume()` act on a uThread in this state? -/
def UState.resumable : UState → Bool
  | .waiting | .initialized | .migrate | .yield => true
  | .ready | .running | .terminated => false

/-- `uThread::resume()`; `next` is for `assignkThread`. -/
def resume (u : U) (next : ℕ) (s : State K U C M B) : Option (State K U C M B) :=
  if (s.ut u).state.resumable then
    match (s.ut u).homekThread, (s.ut u).currentCluster with
    | some k, _ => some ((s.setUT u { s.ut u with state := .ready }).schedule u k)
    | none, some c =>
      match assignkThread c next s with
      | some (k, s) =>
        some ((s.setUT u { s.ut u with state := .ready, homekThread := some k }).schedule u k)
      | none => none
    | none, none => none
  else some s

/-- `u`, whose code runs on `k`, sets its state to `x` and calls `switchContext(args)`. -/
def State.switchContext (s : State K U C M B) (k : K) (u : U) (x : UState)
    (args : Option (Queue M B)) : State K U C M B :=
  (s.setUT u { s.ut u with state := x }).goto k (.pop args)

/-- `uThread::migrate(c)` of `u` on `k` -/
def migrate (k : K) (u : U) (c : C) (next : ℕ) (s : State K U C M B) :
    Option (State K U C M B) :=
  if (s.kt k).localCluster = some c then some s
  else
    match assignkThread c next s with
    | some (home, s) =>
      some ((s.setUT u { s.ut u with
        state := .migrate, homekThread := some home, currentCluster := some c }).goto k (.pop none))
    | none => none

/-! ## Blocking and waking -/

/-- `Mutex::acquire()` -/
def acquire (k : K) (u : U) (m : M) (s : State K U C M B) : Option (State K U C M B) :=
  match s.owner m with
  | none => some { s with owner := Function.update s.owner m (some u) }
  | some v => if v = u then none else some (s.switchContext k u .waiting (some (.mutex m)))

/-- `Mutex::release()` on kThread `k`, up to `lock.unlock()`: `owner = queue.front()`, which
`owner->resume()` reads again. -/
def release (k : K) (u : U) (m : M) (s : State K U C M B) : Option (State K U C M B) :=
  if s.owner m = some u then
    match s.bq (.mutex m) with
    | w :: q => some { s with
        owner := Function.update s.owner m (some w)
        bq := Function.update s.bq (.mutex m) q
        hands := Function.update s.hands k (⟨w, some m⟩ :: s.hands k) }
    | [] => some { s with owner := Function.update s.owner m none }
  else none

/-- `signal(mutex)` and `signalAll(mutex)` of the queue of `b`: take the first uThread. -/
def dequeue (mutexOf : B → M) (k : K) (u : U) (b : B) (s : State K U C M B) :
    Option (State K U C M B) :=
  if s.owner (mutexOf b) = some u then
    match s.bq (.client b) with
    | w :: q => some { s with
        bq := Function.update s.bq (.client b) q
        hands := Function.update s.hands k (⟨w, none⟩ :: s.hands k) }
    | [] => none
  else none

/-- The uThread that the `resume` for `h` is called on. -/
def State.target (s : State K U C M B) (h : Held U M) : Option U :=
  match h.via with
  | some m => s.owner m
  | none => some h.ut

/-- kThread `k` resumes the uThread it took last. -/
def wake (k : K) (next : ℕ) (s : State K U C M B) : Option (State K U C M B) :=
  match s.hands k with
  | h :: hs =>
    match s.target h with
    | some u => resume u next { s with hands := Function.update s.hands k hs }
    | none => none
  | [] => none

/-! ## Switching -/

/-- `nonBlockingSwitch` and the test of `switchContext` -/
def nonBlockingSwitch (k : K) (args : Option (Queue M B)) (s : State K U C M B) :
    Option (State K U C M B) :=
  match s.runQueue k, (s.kt k).currentUT, (s.kt k).mainUT with
  | u :: q, _, _ =>
    some ({ s with runQueue := Function.update s.runQueue k q }.goto k (.stackSwitch u args))
  | [], some u, some m =>
    -- the running uThread yielded: it goes on
    if (s.ut u).state = .yield then some (s.goto k .run)
    else some (s.goto k (.stackSwitch m args))
  | [], _, _ => none

/-- `blockingSwitch`, when there is a uThread, in `defaultRun` -/
def blockingSwitch (k : K) (s : State K U C M B) : Option (State K U C M B) :=
  if (s.kt k).currentUT = (s.kt k).mainUT then
    match s.runQueue k with
    | u :: q =>
      some ({ s with runQueue := Function.update s.runQueue k q }.goto k (.stackSwitch u none))
    | [] => none
  else none

/-- `stackSwitch`: the context of `currentUT` is saved, that of `next` is loaded. -/
def stackSwitch (k : K) (next : U) (args : Option (Queue M B)) (s : State K U C M B) :
    Option (State K U C M B) :=
  match (s.kt k).currentUT with
  | some u =>
    let s := s.setUT u { s.ut u with saved := true }
    some ((s.setUT next { s.ut next with saved := false }).goto k (.postSwitch next args))
  | none => none

/-- `postSwitchFunc`: what is done for `currentUT` -/
def postSwitchFunc (k : K) (next : U) (args : Option (Queue M B)) (n : ℕ)
    (s : State K U C M B) : Option (State K U C M B) :=
  if (s.kt k).currentUT = (s.kt k).mainUT then some (s.goto k (.finish next))
  else
    match (s.kt k).currentUT with
    | some u =>
      match (s.ut u).state with
      | .terminated =>
        some ((s.setUT u { s.ut u with life := .absent }).goto k (.finish next))
      | .yield | .migrate =>
        match resume u n s with
        | some s => some (s.goto k (.finish next))
        | none => none
      | .waiting =>
        match args with
        | some q =>
          some ({ s with bq := Function.update s.bq q (s.bq q ++ [u]) }.goto k (.unlock next q))
        | none => none
      | .initialized | .ready | .running => some (s.goto k (.finish next))
    | none => none

/-- `bqp->first->unlock()`: of the internal lock of a mutex, or of a mutex -/
def unlock (mutexOf : B → M) (k : K) (next : U) (q : Queue M B) (s : State K U C M B) :
    Option (State K U C M B) :=
  match q, (s.kt k).currentUT with
  | .mutex _, _ => some (s.goto k (.finish next))
  | .client b, some u =>
    match release k u (mutexOf b) s with
    | some s => some (s.goto k (.finish next))
    | none => none
  | .client _, none => none

/-- The last lines of `postSwitchFunc` -/
def finish (k : K) (next : U) (s : State K U C M B) : Option (State K U C M B) :=
  match s.hands k with
  | [] => some ((s.setUT next { s.ut next with state := .running }).setKT k
      { s.kt k with currentUT := some next, pos := .run })
  | _ :: _ => none

/-- The next step of kThread `k` in a switch. -/
def switchStep (mutexOf : B → M) (k : K) (n : ℕ) (s : State K U C M B) :
    Option (State K U C M B) :=
  match (s.kt k).pos with
  | .absent => none
  | .run => blockingSwitch k s
  | .pop args => nonBlockingSwitch k args s
  | .stackSwitch next args => stackSwitch k next args s
  | .postSwitch next args => postSwitchFunc k next args n s
  | .unlock next q => unlock mutexOf k next q s
  | .finish next => finish k next s

/-! ## The machine -/

/-- What can happen next; `n` is for `assignkThread`. -/
inductive Action (K U C M B : Type*)
  /-- a kThread of cluster `c` is created, with `m` as its `mainUT` -/
  | newkThread (k : K) (c : C) (m : U)
  | create (u : U)
  | start (u : U) (c : C) (n : ℕ)
  | yield (k : K)
  | migrate (k : K) (c : C) (n : ℕ)
  | terminate (k : K)
  | acquire (k : K) (m : M)
  | release (k : K) (m : M)
  /-- `bq.suspend(mutex)` -/
  | wait (k : K) (b : B)
  | dequeue (k : K) (b : B)
  | wake (k : K) (n : ℕ)
  | switch (k : K) (n : ℕ)

/-- `kThread(cluster)`, `addNewkThread` and `initializeMainUT(false)` -/
def newkThread (k : K) (c : C) (m : U) (s : State K U C M B) : Option (State K U C M B) :=
  match (s.kt k).pos, (s.ut m).life with
  | .absent, .absent =>
    some { s with
      kt := Function.update s.kt k ⟨.run, some c, some m, some m⟩
      ut := Function.update s.ut m ⟨.mainUT k, .running, none, some c, false⟩
      cluster := Function.update s.cluster c
        { s.cluster c with ktVector := (s.cluster c).ktVector ++ [k] } }
  | _, _ => none

/-- `uThread::start(c, ...)` -/
def start (u : U) (c : C) (n : ℕ) (s : State K U C M B) : Option (State K U C M B) :=
  if (s.ut u).life = .created then
    resume u n (s.setUT u { s.ut u with
      life := .started, currentCluster := some c, saved := true })
  else none

def step (mutexOf : B → M) (s : State K U C M B) : Action K U C M B → Option (State K U C M B)
  | .newkThread k c m => newkThread k c m s
  | .create u => if (s.ut u).life = .absent then some (s.setUT u newUT) else none
  | .start u c n => start u c n s
  | .yield k => (s.freeCaller k).map fun u => s.switchContext k u .yield none
  | .migrate k c n => (s.freeCaller k).bind fun u => migrate k u c n s
  | .terminate k => (s.freeCaller k).map fun u => s.switchContext k u .terminated none
  | .acquire k m => (s.freeCaller k).bind fun u => acquire k u m s
  | .release k m => (s.caller k).bind fun u => release k u m s
  | .wait k b => (s.freeCaller k).bind fun u =>
      if s.owner (mutexOf b) = some u then
        some (s.switchContext k u .waiting (some (.client b)))
      else none
  | .dequeue k b => (s.caller k).bind fun u => dequeue mutexOf k u b s
  | .wake k n => wake k n s
  | .switch k n => switchStep mutexOf k n s

/-- The default kThread `k` runs `initUT`, which runs `main`; its `mainUT` has a stack of its
own. -/
def initial (k : K) (c : C) (mainUT initUT : U) : State K U C M B where
  kt := Function.update (fun _ => ⟨.absent, none, none, none⟩) k
    ⟨.run, some c, some initUT, some mainUT⟩
  ut := Function.update
    (Function.update (fun _ => { newUT with life := .absent }) mainUT
      { newUT with life := .mainUT k, state := .ready, saved := true })
    initUT ⟨.started, .initialized, some k, some c, false⟩
  cluster := Function.update (fun _ => ⟨[], 0⟩) c ⟨[k], 0⟩
  runQueue := fun _ => []
  bq := fun _ => []
  owner := fun _ => none
  hands := fun _ => []

def machine (mutexOf : B → M) : Machine (State K U C M B) (Action K U C M B) where
  init := fun s => ∃ k c mainUT initUT, mainUT ≠ initUT ∧ s = initial k c mainUT initUT
  step := step mutexOf

end UThreads.Runtime
