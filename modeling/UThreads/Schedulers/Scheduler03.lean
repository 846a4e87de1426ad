import UThreads.Generic.QueueStore

/-!
# `Scheduler_03`: the model

Each kThread has a scheduler with an `IntrusiveQueue` under a mutex, and a condition variable on
which the kThread waits while the queue is empty.

**The threads.** Any number of producers call `schedule(ut)` or `schedule(ut, kt)`; thread `none` is
the poller, which collects uThreads on the bulk queue of their kThread and pushes that as a whole.
`producer t` is the position of `t` in `schedule`. `consumer k` is that of kThread `k` in
`nonBlockingSwitch` or `blockingSwitch`. A step takes the mutex, gives it back, or is one access to
what it protects.

**The condition variable.** Only the kThread of the scheduler waits on it. `cv.wait` gives the mutex
back and sleeps in one step; a notification or a spurious wake-up ends the sleep, and the kThread
takes the mutex again. `try_to_lock` may fail at any time.

**The store.** The links of all uThreads are one store, on which the queues of all schedulers are
built. A uThread that is scheduled is on no queue, and its link is null.

**Bookkeeping.** `pushed k` and `popped k` are the uThreads that have been put on run queue `k` and
taken off it, `bulk k` those that have been put on bulk queue `k` since it was last emptied.
-/

namespace UThreads.Scheduler03

/-- The queues of kThread `k`: that of its scheduler, and that of its `KTVar`. -/
inductive Queue (K : Type*)
  | runQueue (k : K)
  | bulkQueue (k : K)
  deriving DecidableEq

/-- What `schedule` is called with. -/
inductive Task (U : Type*)
  | one (ut : U)
  /-- `bulkQueue`, from `bulkPush` -/
  | bulk
  deriving DecidableEq

/-- The position of a thread in `schedule`, for the scheduler of `kt`. -/
inductive Schedule (K U : Type*)
  | idle
  /-- `std::unique_lock<std::mutex> ul(mtx)` -/
  | lock (kt : K) (task : Task U)
  /-- `runQueue.push(*ut)` or `runQueue.transferAllFrom(queue)` -/
  | push (kt : K) (task : Task U)
  /-- `cv.notify_one()` -/
  | notify (kt : K) (task : Task U)
  /-- the end of `ul` -/
  | unlock (kt : K) (task : Task U)
  /-- `bulkPush`: `bulkCounter = 0` -/
  | zero (kt : K)
  deriving DecidableEq

/-- What a kThread is doing. -/
inductive Consumer (U : Type*)
  /-- It executes a uThread. -/
  | running
  /-- `__tryPop`: `ul(mtx, std::try_to_lock)`; does the current uThread yield? -/
  | tryLock (yield : Bool)
  /-- `__tryPop`: `!runQueue.empty()` -/
  | tryEmpty (yield : Bool)
  /-- `__tryPop`: `ut = runQueue.front(); runQueue.pop()` -/
  | tryPop (yield : Bool)
  /-- `__tryPop`: the end of `ul` -/
  | tryUnlock (yield : Bool) (ut : Option U)
  /-- It executes `mainUT`, before its next `blockingSwitch`. -/
  | mainUT
  /-- `__Pop`: `ul(mtx)` -/
  | lock
  /-- `__Pop`: `while (runQueue.empty())` -/
  | empty
  /-- `__Pop`: `cv.wait(ul)` -/
  | wait
  /-- `__Pop`: asleep in `cv.wait(ul)` -/
  | waiting
  /-- `__Pop`: awake in `cv.wait(ul)` -/
  | relock
  /-- `__Pop`: `ut = runQueue.front(); runQueue.pop()` -/
  | pop
  /-- `__Pop`: the end of `ul` -/
  | unlock (ut : U)
  /-- `blockingSwitch`: `while (!iohandler.sem.trywait())` -/
  | leave (ut : U)
  deriving DecidableEq

/-- Where a uThread is. -/
inductive Place (P : Type*)
  | free
  /-- Thread `p` has called `schedule` on it. -/
  | scheduling (p : P)
  | queued
  deriving DecidableEq

structure State (K U P : Type*) where
  store : QueueStore.Store (Queue K) U
  bulkCounter : K → ℕ
  mtx : K → Bool
  producer : Option P → Schedule K U
  consumer : K → Consumer U
  /-- `IOHandler::iohandler.sem`, shared with the poller and all other kThreads. -/
  ioSem : ℕ
  place : U → Place (Option P)
  pushed : K → List U
  popped : K → List U
  bulk : K → List U

variable {K U P : Type*} [DecidableEq K] [DecidableEq U] [DecidableEq P]

namespace State

variable (s : State K U P)

/-- Thread `t` comes to `x`. -/
def advance (t : Option P) (x : Schedule K U) : State K U P :=
  { s with producer := Function.update s.producer t x }

/-- kThread `k` comes to `x`. -/
def goto (k : K) (x : Consumer U) : State K U P :=
  { s with consumer := Function.update s.consumer k x }

def setMtx (k : K) (b : Bool) : State K U P := { s with mtx := Function.update s.mtx k b }

end State

/-! ## The producers -/

/-- `schedule(ut)` on the scheduler of `kt`, or `schedule(ut, kt)` -/
def schedule (p : P) (ut : U) (kt : K) (s : State K U P) : Option (State K U P) :=
  if s.producer (some p) = .idle ∧ s.place ut = .free then
    some { s.advance (some p) (.lock kt (.one ut)) with
      place := Function.update s.place ut (.scheduling (some p)) }
  else none

/-- `prepareBulkPush(ut)`, with `kt` the home kThread of `ut` -/
def prepareBulkPush (ut : U) (kt : K) (s : State K U P) : Option (State K U P) :=
  if s.producer none = .idle ∧ s.place ut = .free then
    (s.store.pushAll (.bulkQueue kt) ut ut).map fun store => { s with
      store := store
      bulkCounter := Function.update s.bulkCounter kt (s.bulkCounter kt + 1)
      place := Function.update s.place ut .queued
      bulk := Function.update s.bulk kt (s.bulk kt ++ [ut]) }
  else none

/-- The body of the loop of `bulkPush(cluster)`; `bulkCounter = 0` is not under the condition. -/
def bulkPush (kt : K) (s : State K U P) : Option (State K U P) :=
  if s.producer none = .idle then
    some (s.advance none (if 0 < s.bulkCounter kt then .lock kt .bulk else .zero kt))
  else none

/-- The uThreads of `task` are put on the run queue of `kt`. -/
def push (kt : K) (task : Task U) (s : State K U P) : Option (State K U P) :=
  match task with
  | .one ut => (s.store.pushAll (.runQueue kt) ut ut).map fun store => { s with
      store := store
      place := Function.update s.place ut .queued
      pushed := Function.update s.pushed kt (s.pushed kt ++ [ut]) }
  | .bulk => (s.store.transferAllFrom (.runQueue kt) (.bulkQueue kt)).map fun store => { s with
      store := store
      pushed := Function.update s.pushed kt (s.pushed kt ++ s.bulk kt)
      bulk := Function.update s.bulk kt [] }

/-- `cv.notify_one()` -/
def notify (kt : K) (s : State K U P) : State K U P :=
  if s.consumer kt = .waiting then s.goto kt .relock else s

/-- The next step of thread `t` in `schedule`. -/
def scheduleStep (t : Option P) (s : State K U P) : Option (State K U P) :=
  match s.producer t with
  | .idle => none
  | .lock kt task =>
    if s.mtx kt = false then some ((s.setMtx kt true).advance t (.push kt task)) else none
  | .push kt task => (push kt task s).map (·.advance t (.notify kt task))
  | .notify kt task => some ((notify kt s).advance t (.unlock kt task))
  | .unlock kt task =>
    some ((s.setMtx kt false).advance t (if task = .bulk then .zero kt else .idle))
  | .zero kt => some { s.advance t .idle with bulkCounter := Function.update s.bulkCounter kt 0 }

/-! ## The kThreads -/

/-- `nonBlockingSwitch` with the result of `__tryPop` -/
def afterTryPop (yield : Bool) : Option U → Consumer U
  | some _ => .running
  | none => if yield then .running else .mainUT

/-- `ut = runQueue.front(); runQueue.pop()`; then the kThread comes to `f ut`. -/
def pop (k : K) (f : U → Consumer U) (s : State K U P) : Option (State K U P) :=
  (s.store.pop (.runQueue k)).map fun (ut, store) => { s.goto k (f ut) with
    store := store
    place := Function.update s.place ut .free
    popped := Function.update s.popped k (s.popped k ++ [ut]) }

/-- `runQueue.empty()` -/
def State.isEmpty (s : State K U P) (k : K) : Bool := (s.store.queues (.runQueue k)).head.isNone

/-- The next step of kThread `k`; `ok` is whether `try_to_lock` succeeds when it can. -/
def consumerStep (k : K) (ok : Bool) (s : State K U P) : Option (State K U P) :=
  match s.consumer k with
  | .running | .mainUT | .waiting => none
  | .tryLock yield =>
    some (if s.mtx k = false ∧ ok = true then (s.setMtx k true).goto k (.tryEmpty yield)
      else s.goto k (afterTryPop yield none))
  | .tryEmpty yield =>
    some (s.goto k (if s.isEmpty k then .tryUnlock yield none else .tryPop yield))
  | .tryPop yield => pop k (fun ut => .tryUnlock yield (some ut)) s
  | .tryUnlock yield ut => some ((s.setMtx k false).goto k (afterTryPop yield ut))
  | .lock | .relock => if s.mtx k = false then some ((s.setMtx k true).goto k .empty) else none
  | .empty => some (s.goto k (if s.isEmpty k then .wait else .pop))
  | .wait => some ((s.setMtx k false).goto k .waiting)
  | .pop => pop k .unlock s
  | .unlock ut => some ((s.setMtx k false).goto k (.leave ut))
  | .leave _ => some (if 0 < s.ioSem then { s.goto k .running with ioSem := s.ioSem - 1 } else s)

/-! ## The machine -/

inductive Action (K U P : Type*)
  /-- Producer `p` calls `schedule` on `ut`, for the scheduler of `kt`. -/
  | schedule (p : P) (ut : U) (kt : K)
  | prepareBulkPush (ut : U) (kt : K)
  | bulkPush (kt : K)
  /-- A step of thread `t` in `schedule`. -/
  | producer (t : Option P)
  /-- The running uThread yields, blocks, migrates or terminates: `nonBlockingSwitch`. -/
  | nonBlockingSwitch (k : K) (yield : Bool)
  /-- `mainUT` calls `blockingSwitch`: `iohandler.sem.post()`. -/
  | blockingSwitch (k : K)
  /-- A step of kThread `k` in one of the two. -/
  | consumer (k : K) (ok : Bool)
  /-- `cv.wait` returns without a notification. -/
  | spurious (k : K)
  /-- Other threads change the semaphore of the IO handler. -/
  | io (v : ℕ)

def step (s : State K U P) : Action K U P → Option (State K U P)
  | .schedule p ut kt => schedule p ut kt s
  | .prepareBulkPush ut kt => prepareBulkPush ut kt s
  | .bulkPush kt => bulkPush kt s
  | .producer t => scheduleStep t s
  | .nonBlockingSwitch k yield =>
    if s.consumer k = .running then some (s.goto k (.tryLock yield)) else none
  | .blockingSwitch k =>
    if s.consumer k = .mainUT then some { s.goto k .lock with ioSem := s.ioSem + 1 } else none
  | .consumer k ok => consumerStep k ok s
  | .spurious k => if s.consumer k = .waiting then some (s.goto k .relock) else none
  | .io v => some { s with ioSem := v }

/-- A kThread starts on its `mainUT` or, for `defaultKT`, on `initUT`. -/
def initial (start : K → Consumer U) : State K U P where
  store := ⟨fun _ => none, fun _ => .new⟩
  bulkCounter := fun _ => 0
  mtx := fun _ => false
  producer := fun _ => .idle
  consumer := start
  ioSem := 0
  place := fun _ => .free
  pushed := fun _ => []
  popped := fun _ => []
  bulk := fun _ => []

def machine (K U P : Type*) [DecidableEq K] [DecidableEq U] [DecidableEq P] :
    Machine (State K U P) (Action K U P) where
  init := fun s => ∃ start : K → Consumer U,
    (∀ k, start k = .mainUT ∨ start k = .running) ∧ s = initial start
  step := step

end UThreads.Scheduler03
