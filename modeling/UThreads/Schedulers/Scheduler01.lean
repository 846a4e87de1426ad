import UThreads.Lib.Machine
import UThreads.Generic.IntrusiveQueue
import UThreads.Generic.IntrusiveList
import Mathlib.Algebra.Group.Nat.Defs

/-!
# `Scheduler_01`: the model

One scheduler serves all kThreads of a cluster. uThreads are pushed to a central `queue` under a
mutex; kThreads move parts of it to their local queues, and a kThread that finds the queue empty
puts itself on `ktStack` and waits on its condition variable.

**Steps.** A step is a section that holds the mutex. In `__popMany` one section ends and another
begins at `cv.wait`; it may return without a notification (`spurious`). A kThread that has returned
from the wait and has still to get the mutex is `woken`. The functions that only try to lock may
also fail to, and then do nothing. The number of kThreads of the cluster is read by `__removeMany`,
and may change at any time; the caller is one of them.

**The poller.** `prepareBulkPush` and `bulkPush` are called by the thread that polls. `flushing`
says that it is in `bulkPush`, before `bulkCounter = 0`.

**Bookkeeping.** `pushed` lists the uThreads in the order in which they were pushed to `queue`,
`removed` in the order in which they were removed from it, each with where it went to. `bulk` lists
those on `bulkQueue`, and `ran k` those that kThread `k` took from its local queue to run. `place u`
is the queue that `u` is on; a uThread is scheduled when it is on none. `maxSize` is the largest
`size` so far. `inserted k` says that `k` has put itself on `ktStack`, and that nobody has taken it
off since.
-/

namespace UThreads.Scheduler01

/-! ## The queues -/

/-- Where a uThread goes when it is removed from `queue`. -/
inductive Dest (K : Type*)
  /-- to the local queue of a kThread -/
  | lrq (k : K)
  /-- `__tryPop` returns it to its caller -/
  | caller (k : K)
  deriving DecidableEq

/-- A queue of uThreads. -/
inductive Place (K : Type*)
  | bulkQueue
  | queue
  | lrq (k : K)
  deriving DecidableEq

structure Queues (K U : Type*) where
  /-- The links of all uThreads. -/
  next : U → Option U
  queue : IntrusiveQueue U
  size : BitVec 32
  lastPopNum : ℕ
  lrq : K → IntrusiveQueue U
  bulkQueue : IntrusiveQueue U
  bulkCounter : BitVec 64
  flushing : Bool
  pushed : List U
  removed : List (U × Dest K)
  bulk : List U
  ran : K → List U
  place : U → Option (Place K)
  maxSize : ℕ

variable {K U : Type*} [DecidableEq K] [DecidableEq U]

namespace Queues

def initial : Queues K U where
  next := fun _ => none
  queue := .new
  size := 0
  lastPopNum := 0
  lrq := fun _ => .new
  bulkQueue := .new
  bulkCounter := 0
  flushing := false
  pushed := []
  removed := []
  bulk := []
  ran := fun _ => []
  place := fun _ => none
  maxSize := 0

/-- A new value of `size`. -/
def setSize (q : Queues K U) (n : BitVec 32) : Queues K U :=
  { q with size := n, maxSize := max q.maxSize n.toNat }

/-- `__push(ut)`: `queue.push(*ut); size++` -/
def push (q : Queues K U) (u : U) : Option (Queues K U) :=
  (q.queue.push q.next u).map fun r =>
    { q with
      next := r.1
      queue := r.2
      pushed := q.pushed ++ [u]
      place := Function.update q.place u (some .queue) }.setSize (q.size + 1)

/-- `__push(utList, count)` on the bulk queue: `queue.transferAllFrom(utList); size += count` -/
def pushBulk (q : Queues K U) : Option (Queues K U) :=
  (q.queue.transferAllFrom q.next q.bulkQueue).map fun r =>
    { q with
      next := r.1
      queue := r.2.1
      bulkQueue := r.2.2
      flushing := true
      pushed := q.pushed ++ q.bulk
      bulk := []
      place := fun u => if u ∈ q.bulk then some .queue else q.place u }.setSize
        (q.size + q.bulkCounter.setWidth 32)

/-- `prepareBulkPush(ut)` -/
def prepareBulkPush (q : Queues K U) (u : U) : Option (Queues K U) :=
  (q.bulkQueue.push q.next u).map fun r =>
    { q with
      next := r.1
      bulkQueue := r.2
      bulkCounter := q.bulkCounter + 1
      bulk := q.bulk ++ [u]
      place := Function.update q.place u (some .bulkQueue) }

/-- `popnum` in `__removeMany`. -/
def popnum (size numkt lastPopNum : ℕ) : ℕ :=
  let n := if size / numkt ≠ 0 then size / numkt else 1
  let n := if n < lastPopNum then lastPopNum else n
  if size < n then size else n

/-- `__removeMany(nqueue)`, for kThread `k`. -/
def removeMany (q : Queues K U) (k : K) (numkt : ℕ) : Option (Queues K U) :=
  let n := popnum q.size.toNat numkt q.lastPopNum
  ((q.lrq k).transferFrom q.next q.queue n).map fun r =>
    let us := walk q.next r.1 q.queue.head
    { q with
      next := r.2.1
      lrq := Function.update q.lrq k r.2.2.1
      queue := r.2.2.2
      lastPopNum := n
      removed := q.removed ++ us.map fun u => (u, Dest.lrq k)
      place := fun u => if u ∈ us then some (.lrq k) else q.place u }.setSize
        (q.size - BitVec.ofNat 32 r.1)

/-- `__tryPop()`, with the mutex and `size != 0`, for kThread `k`. -/
def tryPop (q : Queues K U) (k : K) : Option (Queues K U) :=
  (q.queue.pop q.next).map fun r =>
    { q with
      next := r.2.1
      queue := r.2.2
      removed := q.removed ++ [(r.1, Dest.caller k)]
      place := Function.update q.place r.1 none }.setSize (q.size - 1)

/-- kThread `k` takes the next uThread of its local queue to run it. -/
def run (q : Queues K U) (k : K) : Option (Queues K U) :=
  ((q.lrq k).pop q.next).map fun r =>
    { q with
      next := r.2.1
      lrq := Function.update q.lrq k r.2.2
      ran := Function.update q.ran k (q.ran k ++ [r.1])
      place := Function.update q.place r.1 none }

end Queues

/-! ## The kThreads that wait -/

/-- The position of a kThread. -/
inductive Pos
  /-- in none of the functions -/
  | out
  /-- in `__popMany`, in `cv.wait` -/
  | waiting
  /-- in `__popMany`, back from `cv.wait`, and without the mutex -/
  | woken
  deriving DecidableEq

structure Blocked (K : Type*) where
  ktStack : IntrusiveList K
  cvFlag : K → Bool
  pos : K → Pos
  inserted : K → Bool

namespace Blocked

def initial : Blocked K := ⟨.new, fun _ => false, fun _ => .out, fun _ => false⟩

def goto (b : Blocked K) (k : K) (x : Pos) : Blocked K :=
  { b with pos := Function.update b.pos k x }

/-- `ktStack.push_back(*kThread::currentKT)` -/
def insert (b : Blocked K) (k : K) : Option (Blocked K) :=
  (b.ktStack.pushBack k).map fun l =>
    { b with ktStack := l, inserted := Function.update b.inserted k true }

/-- `ktStack.remove(kt)` -/
def remove (b : Blocked K) (k : K) : Option (Blocked K) :=
  (b.ktStack.remove (.elem k)).map fun l =>
    { b with ktStack := l, inserted := Function.update b.inserted k false }

/-- `kt->ktvar->cv_flag = true; kt->ktvar->cv.notify_one()` -/
def notify (b : Blocked K) (k : K) : Blocked K :=
  { b with cvFlag := Function.update b.cvFlag k true }.goto k
    (if b.pos k = Pos.waiting then .woken else b.pos k)

/-- `__unBlock()` -/
def unBlock (b : Blocked K) : Option (Blocked K) :=
  if b.ktStack.empty then some b
  else
    match b.ktStack.prev .anchor with
    | some (.elem k) => (b.remove k).map fun b => b.notify k
    | _ => none

/-- `__popMany` with `size == 0`, up to the first `cv.wait`. -/
def enter (b : Blocked K) (k : K) : Option (Blocked K) :=
  (b.insert k).map fun b => { b with cvFlag := Function.update b.cvFlag k false }.goto k .waiting

/-- The loop of `__popMany` with `size == 0`, up to the next `cv.wait`. -/
def again (b : Blocked K) (k : K) : Option (Blocked K) :=
  if b.cvFlag k then (b.insert k).map fun b => b.goto k .waiting else some (b.goto k .waiting)

/-- `__popMany` from the end of the loop to `__removeMany`. -/
def leave (b : Blocked K) (k : K) : Option (Blocked K) := if b.cvFlag k then some b else b.remove k

end Blocked

/-! ## The scheduler -/

structure State (K U : Type*) where
  queues : Queues K U
  blocked : Blocked K

/-- `__popMany` from `__removeMany` on, for kThread `k`. -/
def State.finish (s : State K U) (k : K) (numkt : ℕ) : Option (State K U) :=
  (s.queues.removeMany k numkt).bind fun q =>
    let b := s.blocked.goto k .out
    (if q.size ≠ 0 then b.unBlock else some b).map fun b => ⟨q, b⟩

inductive Action (K U : Type*)
  /-- `__push(ut)` -/
  | push (u : U)
  | prepareBulkPush (u : U)
  /-- `bulkPush` with `bulkCounter > 0`: `schedule(bulkQueue, bulkCounter)` -/
  | bulkPush
  /-- `bulkPush`: `bulkCounter = 0` -/
  | bulkZero
  | tryPop (k : K)
  | tryPopMany (k : K) (numkt : ℕ)
  /-- kThread `k` calls `__popMany`. -/
  | popMany (k : K) (numkt : ℕ)
  /-- kThread `k`, back from `cv.wait`, gets the mutex. -/
  | wake (k : K) (numkt : ℕ)
  /-- `cv.wait` of kThread `k` returns without a notification. -/
  | spurious (k : K)
  /-- kThread `k` takes a uThread from its local queue. -/
  | run (k : K)

def step (s : State K U) : Action K U → Option (State K U)
  | .push u =>
    if s.queues.place u = none then
      (s.queues.push u).bind fun q => s.blocked.unBlock.map fun b => ⟨q, b⟩
    else none
  | .prepareBulkPush u =>
    if s.queues.place u = none ∧ s.queues.flushing = false then
      (s.queues.prepareBulkPush u).map fun q => { s with queues := q }
    else none
  | .bulkPush =>
    if s.queues.flushing = false ∧ s.queues.bulkCounter ≠ 0 then
      s.queues.pushBulk.bind fun q => s.blocked.unBlock.map fun b => ⟨q, b⟩
    else none
  | .bulkZero =>
    if s.queues.flushing then
      some { s with queues := { s.queues with bulkCounter := 0, flushing := false } }
    else none
  | .tryPop k =>
    if s.blocked.pos k = .out ∧ s.queues.size ≠ 0 then
      (s.queues.tryPop k).map fun q => { s with queues := q }
    else none
  | .tryPopMany k numkt =>
    if s.blocked.pos k = .out ∧ 0 < numkt ∧ s.queues.size ≠ 0 then
      (s.queues.removeMany k numkt).map fun q => { s with queues := q }
    else none
  | .popMany k numkt =>
    if s.blocked.pos k = .out ∧ 0 < numkt then
      if s.queues.size = 0 then (s.blocked.enter k).map fun b => { s with blocked := b }
      else s.finish k numkt
    else none
  | .wake k numkt =>
    if s.blocked.pos k = .woken ∧ 0 < numkt then
      if s.queues.size = 0 then (s.blocked.again k).map fun b => { s with blocked := b }
      else (s.blocked.leave k).bind fun b => { s with blocked := b }.finish k numkt
    else none
  | .spurious k =>
    if s.blocked.pos k = .waiting then some { s with blocked := s.blocked.goto k .woken } else none
  | .run k =>
    if s.blocked.pos k = .out then (s.queues.run k).map fun q => { s with queues := q } else none

def machine (K U : Type*) [DecidableEq K] [DecidableEq U] : Machine (State K U) (Action K U) where
  init := fun s => s = ⟨.initial, .initial⟩
  step := step

end UThreads.Scheduler01
