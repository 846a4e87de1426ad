import UThreads.Generic.IntrusiveQueue
import UThreads.Generic.MPSCQueue
import UThreads.Io.IOHandler
import Mathlib.Data.BitVec

/-!
# `IOHandler::poll`: the model of one call

One call of `poll` goes through the events that `epoll_wait` has returned, takes the uThreads that
are parked in the selected slots, puts each on the bulk queue of its home kThread, and at the end
moves the bulk queues to the run queues.

**The store.** `pd` is every `PollData`, `next` is the `Link::next` field of every uThread and of
the stub of every run queue. The bulk queues and the run queues are pointer structures over `next`.
A function returns `none` where the code would go through a null pointer.

**Alone.** Nobody else accesses the slots, so the loops around the compare-and-exchange of `unblock`
are executed once (`unblock_alone`); and a push to a run queue is one step. The counters are
numbers: `epoll_wait` returns at most 32 events.
-/

namespace UThreads

/-- The value of a slot after it has been selected `n` times. -/
def IOHandler.Slot.after {U : Type*} : Slot U → ℕ → Slot U
  | x, 0 => x
  | .parked _, 1 => .null
  | _, _ + 1 => .ready

/-- A thread that is alone in `unblock` returns after five steps at most. -/
theorem IOHandler.Unblock.alone {U : Type*} [DecidableEq U] (slot : Dir → Slot U) (utp : Dir) :
    (step false)^[5] (slot, .closing utp) =
      (Function.update slot utp ((slot utp).after 1), .ret (slot utp).ut?.isSome) := by
  cases h : slot utp <;> simp [step, h, Slot.after, Slot.ut?]

namespace Poll

open IOHandler (Dir Slot)

structure PollData (U : Type*) where
  /-- `rut` and `wut` -/
  slot : Dir → Slot U
  closing : Bool

/-- `struct epoll_event` -/
structure Event (D : Type*) where
  events : BitVec 32
  ptr : D

structure State (D U K C : Type*) where
  pd : D → PollData U
  homekThread : U → K
  next : U → Option U
  bulkQueue : K → IntrusiveQueue U
  bulkCounter : K → ℕ
  /-- `scheduler->runQueue`, its stub, and `scheduler->sem` -/
  runQueue : K → MPSCQueue U
  stub : K → U
  sem : K → ℕ
  clusterList : List C
  ktVector : C → List K
  unblockCounter : ℕ

variable {D U K C : Type*} [DecidableEq D] [DecidableEq U] [DecidableEq K]

def State.setSlot (s : State D U K C) (d : D) (utp : Dir) (x : Slot U) : State D U K C :=
  { s with
    pd := Function.update s.pd d { s.pd d with slot := Function.update (s.pd d).slot utp x } }

/-! ## The scheduler -/

/-- `Scheduler::prepareBulkPush(ut)` -/
def prepareBulkPush (ut : U) (s : State D U K C) : Option (State D U K C) :=
  let k := s.homekThread ut
  ((s.bulkQueue k).push s.next ut).map fun r =>
    { s with
      next := r.1
      bulkQueue := Function.update s.bulkQueue k r.2
      bulkCounter := Function.update s.bulkCounter k (s.bulkCounter k + 1) }

/-- `schedule(bulkQueue, bulkCounter)` on the scheduler of kThread `k` -/
def schedule (k : K) (s : State D U K C) : Option (State D U K C) :=
  (s.bulkQueue k).head.bind fun first =>
    ((s.bulkQueue k).removeAll s.next).map fun (last, next, bulkQueue) =>
      -- `if (runQueue.push(*first, *last)) sem.post()`
      let (wasEmpty, next, runQueue) := (s.runQueue k).insert next first last
      { s with
        next := next
        bulkQueue := Function.update s.bulkQueue k bulkQueue
        runQueue := Function.update s.runQueue k runQueue
        sem := if wasEmpty then Function.update s.sem k (s.sem k + 1) else s.sem }

/-- The body of the loop of `bulkPush(cluster)`; `bulkCounter = 0` is not under the condition. -/
def bulkPushkThread (k : K) (s : State D U K C) : Option (State D U K C) :=
  (if 0 < s.bulkCounter k then schedule k s else some s).map fun s =>
    { s with bulkCounter := Function.update s.bulkCounter k 0 }

/-- `bulkPush(cluster)`, with the kThreads of the cluster -/
def bulkPushCluster : List K → State D U K C → Option (State D U K C)
  | [], s => some s
  | k :: ks, s => (bulkPushkThread k s).bind (bulkPushCluster ks)

/-- `bulkPush()`, with the clusters of `clusterList` -/
def bulkPush : List C → State D U K C → Option (State D U K C)
  | [], s => some s
  | c :: cs, s => (bulkPushCluster (s.ktVector c) s).bind (bulkPush cs)

/-! ## The poller -/

/-- `unblock(pd, isRead)` -/
def unblock (d : D) (utp : Dir) (s : State D U K C) : Option (Bool × State D U K C) :=
  if (s.pd d).closing then some (false, s)
  else
    match (s.pd d).slot utp with
    | .ready => some (false, s)
    | .null | .wait => some (false, s.setSlot d utp .ready)
    | .parked ut => (prepareBulkPush ut (s.setSlot d utp .null)).map fun s => (true, s)

theorem unblock_alone {d : D} {utp : Dir} {s s' : State D U K C} {res : Bool}
    (h : unblock d utp s = some (res, s')) :
    (IOHandler.Unblock.step (s.pd d).closing)^[5] ((s.pd d).slot, .closing utp) =
      ((s'.pd d).slot, .ret res) := by
  unfold unblock at h
  cases hc : (s.pd d).closing with
  | true =>
    simp only [hc, if_true, Option.some.injEq, Prod.mk.injEq] at h
    obtain ⟨rfl, rfl⟩ := h
    rfl
  | false =>
    rw [IOHandler.Unblock.alone]
    simp only [hc, Bool.false_eq_true, if_false] at h
    cases hv : (s.pd d).slot utp with
    | ready =>
      simp only [hv, Option.some.injEq, Prod.mk.injEq] at h
      obtain ⟨rfl, rfl⟩ := h
      exact Prod.ext (Function.update_eq_self_iff.mpr hv.symm) rfl
    | null | wait =>
      simp only [hv, Option.some.injEq, Prod.mk.injEq] at h
      obtain ⟨rfl, rfl⟩ := h
      simp [State.setSlot, IOHandler.Slot.after, IOHandler.Slot.ut?]
    | parked ut =>
      simp only [hv] at h
      obtain ⟨t, ht, he⟩ := Option.map_eq_some_iff.mp h
      obtain ⟨r, -, rfl⟩ := Option.map_eq_some_iff.mp ht
      simp only [Prod.mk.injEq] at he
      obtain ⟨rfl, rfl⟩ := he
      simp [State.setSlot, IOHandler.Slot.after, IOHandler.Slot.ut?]

/-- `UT_IOREAD` -/
def utIORead : BitVec 32 := 1
/-- `UT_IOWRITE` -/
def utIOWrite : BitVec 32 := 2

/-- `if ((flag & bit) && unblock(pd, isRead)) unblockCounter++` -/
def unblockIf (flag bit : BitVec 32) (d : D) (utp : Dir) (s : State D U K C) :
    Option (State D U K C) :=
  if flag &&& bit ≠ 0 then
    (unblock d utp s).map fun r =>
      if r.1 then { r.2 with unblockCounter := r.2.unblockCounter + 1 } else r.2
  else some s

/-- `PollReady(pd, flag)` -/
def pollReady (d : D) (flag : BitVec 32) (s : State D U K C) : Option (State D U K C) :=
  (unblockIf flag utIORead d .read s).bind (unblockIf flag utIOWrite d .write)

def epollIn : BitVec 32 := 0x1
def epollOut : BitVec 32 := 0x4
def epollErr : BitVec 32 := 0x8
def epollHup : BitVec 32 := 0x10
def epollRdHup : BitVec 32 := 0x2000

/-- The events that select the read slot. -/
def readMask : BitVec 32 := epollIn ||| epollRdHup ||| epollHup ||| epollErr
/-- The events that select the write slot. -/
def writeMask : BitVec 32 := epollOut ||| epollHup ||| epollErr

/-- `mode` in `_Poll` -/
def mode (events : BitVec 32) : BitVec 32 :=
  let mode := if events &&& readMask ≠ 0 then utIORead else 0
  if events &&& writeMask ≠ 0 then mode ||| utIOWrite else mode

/-- The loop of `_Poll` -/
def pollEvents : List (Event D) → State D U K C → Option (State D U K C)
  | [], s => some s
  | ev :: evs, s =>
    (if ev.events = 0 then some s
      else if mode ev.events ≠ 0 then pollReady ev.ptr (mode ev.events) s
      else some s).bind (pollEvents evs)

/-- What `epoll_wait` returns. -/
inductive Wait (D : Type*)
  /-- -1, with `errno == EINTR` or not -/
  | error (eintr : Bool)
  | events (evs : List (Event D))

/-- `_Poll(timeout)`: its result, and the state after it -/
def pollerPoll (r : Wait D) (s : State D U K C) : Option (Int × State D U K C) :=
  match r with
  | .error eintr => some (if eintr then 0 else -1, s)
  | .events evs => (pollEvents evs s).map fun s => (evs.length, s)

/-- `poll(timeout, flag)`: its result, and the state after it -/
def poll (r : Wait D) (s : State D U K C) : Option (Int × State D U K C) :=
  (pollerPoll r { s with unblockCounter := 0 }).bind fun (n, s) =>
    if n < 0 then some (-1, s)
    else
      (if 0 < s.unblockCounter then bulkPush s.clusterList s else some s).map fun s =>
        (s.unblockCounter, s)

/-! ## What a poll is for -/

/-- The slots that an event selects, in the order in which they are looked at. -/
def selects (events : BitVec 32) : List Dir :=
  (if events &&& readMask ≠ 0 then [.read] else []) ++
  (if events &&& writeMask ≠ 0 then [.write] else [])

/-- The slots that the events of a batch select, with repetitions. -/
def selections (evs : List (Event D)) : List (D × Dir) :=
  evs.flatMap fun ev => (selects ev.events).map fun utp => (ev.ptr, utp)

/-- The uThreads that a batch wakes, in the order of the first event for each. -/
def State.woken (s : State D U K C) (evs : List (Event D)) : List U :=
  (selections evs).eraseDups.filterMap fun x =>
    if (s.pd x.1).closing then none else ((s.pd x.1).slot x.2).ut?

end Poll

end UThreads
