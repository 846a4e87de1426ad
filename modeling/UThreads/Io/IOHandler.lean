import UThreads.Lib.Machine
import Mathlib.Logic.Function.Basic

/-!
# `IOHandler`: the model of one `PollData`

A connection has a `PollData` with two slots, `rut` and `wut`, one for each direction. A uThread
whose system call would block parks in its slot (`block`, then `postSwitchFunc` after the switch);
the poller empties the slot when an event arrives (`unblock`) and hands the uThread over on a bulk
queue, which it flushes at the end of the poll. `close` unblocks, deregisters and recycles.

**The agents.** One uThread reads and one writes: `pos d` is the position of the uThread of
direction `d`, its `postSwitchFunc` included, which runs on its kThread after the switch. `poller`
is the poller thread, `closer` the thread that calls `close`. Every access to a field of the
`PollData` is a step of its own.

**The kernel.** `fdReady d` says that the descriptor is ready in direction `d`. A rise of a
registered descriptor queues an event, and so does `EPOLL_CTL_ADD` of a ready one; queued events
may be merged, and stale ones may appear at any time. A system call returns `EAGAIN` only while
the descriptor is not ready.

**The bulk queues.** Each kThread has one. `bulkQueue k` has the uThreads of this connection on it;
`bulkCounter k` counts those of other connections too. `prepareBulkPush` and `bulkPush` update them
with no synchronisation, on the thread that closes the connection and on the poller. A
`prepareBulkPush` has a beginning and an end in the model, so that a run tells which of them
overlap; it takes effect at its end, which is one of its outcomes when it does overlap with another.

**Bookkeeping.** `suspensions`, `handovers` and `runs` count, for each uThread, how often it was
suspended, put on a bulk queue or run queue by a waker, and put on a run queue.
-/

namespace UThreads.IOHandler

/-- The direction of `block(pd, isRead)`; it also names the uThread that uses it. -/
inductive Dir
  | read
  | write
  deriving DecidableEq

/-- `pd->isBlockingOnRead ? &pd->rut : &pd->wut` -/
def Dir.of (isRead : Bool) : Dir := if isRead then .read else .write

/-- The value of `rut` or `wut`: `nullptr`, `POLL_READY`, `POLL_WAIT`, or a uThread. -/
inductive Slot (U : Type*)
  | null
  | ready
  | wait
  | parked (ut : U)
  deriving DecidableEq

/-- `old > POLL_WAIT` -/
def Slot.ut? {U : Type*} : Slot U → Option U
  | .parked ut => some ut
  | _ => none

/-- The position of a uThread. -/
inductive Pos
  /-- in no operation of the connection -/
  | idle
  /-- in `recv`, `send`, ..., at the system call -/
  | syscall
  /-- `block`: `if (!pd.opened)` -/
  | opened
  /-- `open`: the compare-and-exchange on `opened` -/
  | openCas
  /-- `open`: `poller._Open(pd.fd, pd)` -/
  | openAdd
  /-- `block`: `ut = *utp` -/
  | blockRead
  /-- `block`: `*utp = nullptr; return` -/
  | blockClear
  /-- `block`: `pd.isBlockingOnRead = isRead` -/
  | blockFlag
  /-- `block`: `suspend` -/
  | suspend
  /-- `postSwitchFunc`: `if (pd->closing) return` -/
  | hookClosing
  /-- `postSwitchFunc`: the read of `isBlockingOnRead` -/
  | hookFlag
  /-- `postSwitchFunc`: `old = *utp` -/
  | hookRead (utp : Dir)
  /-- `postSwitchFunc`: `*utp = nullptr` -/
  | hookClear (utp : Dir)
  /-- `postSwitchFunc`: `utold->resume()` -/
  | hookResume
  /-- `postSwitchFunc`: the compare-and-exchange -/
  | hookCas (utp : Dir)
  /-- suspended: `postSwitchFunc` has put it in a slot -/
  | parked
  /-- suspended: `postSwitchFunc` has returned without doing so -/
  | dropped
  /-- taken out of its slot by an `unblock` that has still to queue it -/
  | taken
  | bulkQueue
  | runQueue
  deriving DecidableEq

/-- The position of a thread in `unblock`. -/
inductive Unblock (U : Type*)
  /-- `if (pd.closing) return false` -/
  | closing (utp : Dir)
  /-- `old = *utp; if (old == POLL_READY) return false` -/
  | read (utp : Dir)
  /-- the compare-and-exchange -/
  | cas (utp : Dir) (old : Slot U)
  /-- `Scheduler::prepareBulkPush(old); return true` -/
  | push (ut : U)
  /-- in `prepareBulkPush` -/
  | pushing (ut : U)
  | ret (res : Bool)
  deriving DecidableEq

/-- The slots, and the position, after the next step of a thread in `unblock`. -/
def Unblock.step {U : Type*} [DecidableEq U] (closing : Bool) :
    (Dir → Slot U) × Unblock U → (Dir → Slot U) × Unblock U
  | (slot, .closing utp) => (slot, if closing then .ret false else .read utp)
  | (slot, .read utp) => (slot, if slot utp = .ready then .ret false else .cas utp (slot utp))
  | (slot, .cas utp old) =>
    if slot utp = old then
      match old with
      | .null | .wait => (Function.update slot utp .ready, .ret false)
      | .parked ut => (Function.update slot utp .null, .push ut)
      | .ready => (Function.update slot utp .null, .ret false)
    else (slot, .read utp)
  | (slot, .push ut) => (slot, .pushing ut)
  | (slot, .pushing _) => (slot, .ret true)
  | (slot, .ret res) => (slot, .ret res)

/-- The position of the poller thread. -/
inductive Poller (K : Type*)
  /-- before the next `poll` -/
  | idle
  /-- `_Poll`: before the next event -/
  | polling
  /-- `PollReady`: in `unblock`, with the directions still to come -/
  | unblock (u : Unblock Dir) (todo : List Dir)
  /-- in `prepareBulkPush` of a uThread of another connection, at home on `k` -/
  | other (k : K)
  /-- `bulkPush`: `if (bulkCounter > 0) schedule(bulkQueue, bulkCounter)` on the next kThread -/
  | flush (kts : List K)
  /-- `bulkPush`: `bulkCounter = 0` on `k` -/
  | zero (k : K) (kts : List K)
  deriving DecidableEq

/-- The position of the thread that closes the connection. -/
inductive Closer
  | idle
  /-- `if (pd.rut > POLL_WAIT)` -/
  | testRut
  /-- `unblock(pd, true)` -/
  | unblockRut (u : Unblock Dir)
  /-- `if (pd.wut > POLL_WAIT);` -/
  | testWut
  /-- `unblock(pd, true)` -/
  | unblockWut (u : Unblock Dir)
  /-- the compare-and-exchange on `closing` -/
  | cas
  /-- `poller._Close(pd.fd)` -/
  | delete
  /-- `reset`: `rut = nullptr` -/
  | resetRut
  /-- `reset`: `wut = nullptr` -/
  | resetWut
  /-- `reset`: `closing = false` -/
  | resetClosing
  /-- `reset`: `opened = false` -/
  | resetOpened
  /-- `pollCache.pushPollData(&pd)` -/
  | recycle
  | done
  deriving DecidableEq

structure State (K : Type*) where
  /-- `rut` and `wut` -/
  slot : Dir → Slot Dir
  closing : Bool
  opened : Bool
  isBlockingOnRead : Bool
  pos : Dir → Pos
  poller : Poller K
  closer : Closer
  unblockCounter : ℕ
  bulkQueue : K → List Dir
  bulkCounter : K → ℕ
  fdReady : Dir → Bool
  registered : Bool
  events : Dir → ℕ
  suspensions : Dir → ℕ
  handovers : Dir → ℕ
  runs : Dir → ℕ

variable {K : Type*} [DecidableEq K]

/-- A fresh `PollData`, on a descriptor that may be ready. -/
def initial (fdReady : Dir → Bool) : State K where
  slot := fun _ => .null
  closing := false
  opened := false
  isBlockingOnRead := false
  pos := fun _ => .idle
  poller := .idle
  closer := .idle
  unblockCounter := 0
  bulkQueue := fun _ => []
  bulkCounter := fun _ => 0
  fdReady := fdReady
  registered := false
  events := fun _ => 0
  suspensions := fun _ => 0
  handovers := fun _ => 0
  runs := fun _ => 0

namespace State

variable (s : State K)

/-- uThread `d` comes to `x`. -/
def goto (d : Dir) (x : Pos) : State K := { s with pos := Function.update s.pos d x }

def setSlot (d : Dir) (x : Slot Dir) : State K := { s with slot := Function.update s.slot d x }

/-- `prepareBulkPush(ut)`, with `k` the home kThread of `ut`. -/
def prepareBulkPush (k : K) (ut : Dir) : State K :=
  { s with
    bulkQueue := Function.update s.bulkQueue k (s.bulkQueue k ++ [ut])
    bulkCounter := Function.update s.bulkCounter k (s.bulkCounter k + 1)
    handovers := Function.update s.handovers ut (s.handovers ut + 1) }.goto ut .bulkQueue

/-- `schedule(bulkQueue, bulkCounter)` on kThread `k`, if its counter is positive. -/
def flush (k : K) : State K :=
  if 0 < s.bulkCounter k then
    { s with
      bulkQueue := Function.update s.bulkQueue k []
      pos := fun d => if d ∈ s.bulkQueue k then .runQueue else s.pos d
      runs := fun d => s.runs d + (s.bulkQueue k).count d }
  else s

/-- The flush leaves the rest of the state alone. -/
theorem flush_same (k : K) :
    (s.flush k).slot = s.slot ∧ (s.flush k).closing = s.closing ∧
      (s.flush k).isBlockingOnRead = s.isBlockingOnRead ∧ (s.flush k).poller = s.poller ∧
      (s.flush k).closer = s.closer ∧ (s.flush k).unblockCounter = s.unblockCounter ∧
      (s.flush k).bulkCounter = s.bulkCounter := by
  unfold flush
  split_ifs <;> exact ⟨rfl, rfl, rfl, rfl, rfl, rfl, rfl⟩

theorem flush_pos (k : K) (d : Dir) : (s.flush k).pos d = s.pos d ∨
    (s.flush k).pos d = .runQueue := by
  unfold flush
  split_ifs
  · by_cases hd : d ∈ s.bulkQueue k
    · exact .inr (if_pos hd)
    · exact .inl (if_neg hd)
  · exact .inl rfl

end State

/-- The next step of the uThread of direction `d`. -/
def run (d : Dir) (s : State K) : Option (State K) :=
  match s.pos d with
  | .opened => some (s.goto d (if s.opened then .blockRead else .openCas))
  | .openCas =>
    some (if s.opened then s.goto d .blockRead else { s with opened := true }.goto d .openAdd)
  | .openAdd =>
    some ({ s with
      registered := true
      events := fun e => if s.fdReady e then s.events e + 1 else s.events e }.goto d .blockRead)
  | .blockRead => some (s.goto d (if s.slot d = .ready then .blockClear else .blockFlag))
  | .blockClear => some ((s.setSlot d .null).goto d .syscall)
  | .blockFlag => some ({ s with isBlockingOnRead := decide (d = Dir.read) }.goto d .suspend)
  | .suspend =>
    some ({ s with
      suspensions := Function.update s.suspensions d (s.suspensions d + 1) }.goto d .hookClosing)
  | .hookClosing => some (s.goto d (if s.closing then .dropped else .hookFlag))
  | .hookFlag => some (s.goto d (.hookRead (.of s.isBlockingOnRead)))
  | .hookRead utp => some (s.goto d (if s.slot utp = .ready then .hookClear utp else .hookCas utp))
  | .hookClear utp => some ((s.setSlot utp .null).goto d .hookResume)
  | .hookResume =>
    some ({ s with
      handovers := Function.update s.handovers d (s.handovers d + 1)
      runs := Function.update s.runs d (s.runs d + 1) }.goto d .runQueue)
  | .hookCas utp =>
    some (if s.slot utp = .null then (s.setSlot utp (.parked d)).goto d .parked
      else s.goto d (.hookRead utp))
  -- a kThread switches to the uThread, `wait` returns, and the loop tries the system call again
  | .runQueue => some (s.goto d .syscall)
  | .idle | .syscall | .parked | .dropped | .taken | .bulkQueue => none

/-- The next step of a thread in `unblock`, and where it comes to. -/
def unblock (home : Dir → K) (s : State K) : Unblock Dir → State K × Unblock Dir
  | .closing utp => (s, if s.closing then .ret false else .read utp)
  | .read utp => (s, if s.slot utp = .ready then .ret false else .cas utp (s.slot utp))
  | .cas utp old =>
    if s.slot utp = old then
      match old with
      | .null | .wait => (s.setSlot utp .ready, .ret false)
      | .parked ut => ((s.setSlot utp .null).goto ut .taken, .push ut)
      | .ready => (s.setSlot utp .null, .ret false)
    else (s, .read utp)
  | .push ut => (s, .pushing ut)
  | .pushing ut => (s.prepareBulkPush (home ut) ut, .ret true)
  | .ret res => (s, .ret res)

theorem unblock_slots (home : Dir → K) (s : State K) (u : Unblock Dir) :
    ((unblock home s u).1.slot, (unblock home s u).2) = Unblock.step s.closing (s.slot, u) := by
  cases u with
  | cas utp old =>
    simp only [unblock, Unblock.step]
    split_ifs
    · cases old <;> rfl
    · rfl
  | closing | read | push | pushing | ret => rfl

/-- Where `PollReady` goes when an `unblock` has returned. -/
def Poller.next : List Dir → Poller K
  | [] => .polling
  | d :: todo => .unblock (.closing d) todo

/-- The next step of the poller: in `PollReady`, or in `bulkPush`. -/
def poll (home : Dir → K) (kts : List K) (s : State K) : Option (State K) :=
  match s.poller with
  | .idle => some { s with poller := .polling, unblockCounter := 0 }
  -- no event is left
  | .polling => some { s with poller := if 0 < s.unblockCounter then .flush kts else .idle }
  | .unblock (.ret res) todo =>
    some { s with
      poller := .next todo
      unblockCounter := if res then s.unblockCounter + 1 else s.unblockCounter }
  | .unblock u todo =>
    let r := unblock home s u
    some { r.1 with poller := .unblock r.2 todo }
  | .other k =>
    some { s with
      bulkCounter := Function.update s.bulkCounter k (s.bulkCounter k + 1)
      unblockCounter := s.unblockCounter + 1
      poller := .polling }
  | .flush [] => some { s with poller := .idle }
  | .flush (k :: ks) => some { s.flush k with poller := .zero k ks }
  | .zero k ks =>
    some { s with bulkCounter := Function.update s.bulkCounter k 0, poller := .flush ks }

/-- The next step of `close`. -/
def close (home : Dir → K) (s : State K) : Option (State K) :=
  match s.closer with
  | .idle => some { s with closer := .testRut }
  | .testRut =>
    some { s with
      closer := if (s.slot .read).ut?.isSome then .unblockRut (.closing .read) else .testWut }
  | .unblockRut (.ret _) => some { s with closer := .testWut }
  | .unblockRut u =>
    let r := unblock home s u
    some { r.1 with closer := .unblockRut r.2 }
  -- the condition is followed by an empty statement
  | .testWut => some { s with closer := .unblockWut (.closing .read) }
  | .unblockWut (.ret _) => some { s with closer := .cas }
  | .unblockWut u =>
    let r := unblock home s u
    some { r.1 with closer := .unblockWut r.2 }
  | .cas =>
    some (if s.closing then { s with closer := .done }
      else { s with closing := true, closer := .delete })
  | .delete => some { s with registered := false, closer := .resetRut }
  | .resetRut => some { s.setSlot .read .null with closer := .resetWut }
  | .resetWut => some { s.setSlot .write .null with closer := .resetClosing }
  | .resetClosing => some { s with closing := false, closer := .resetOpened }
  | .resetOpened => some { s with opened := false, closer := .recycle }
  | .recycle => some { s with closer := .done }
  | .done => none

inductive Action (K : Type*)
  /-- uThread `d` calls `recv`, `send`, .... -/
  | call (d : Dir)
  /-- The system call returns, with `EAGAIN` or otherwise. -/
  | syscall (d : Dir) (again : Bool)
  /-- A step of uThread `d`, or of its `postSwitchFunc`. -/
  | run (d : Dir)
  /-- The poller takes an event for the directions in `dirs`. -/
  | deliver (dirs : List Dir)
  /-- The poller unblocks a uThread of another connection, at home on `k`. -/
  | elsewhere (k : K)
  /-- A step of the poller. -/
  | poll
  /-- A step of `close`. -/
  | close
  /-- The descriptor becomes ready; its event may be merged with a queued one. -/
  | rise (d : Dir) (merge : Bool)
  /-- The descriptor is no longer ready. -/
  | fall (d : Dir)
  /-- A stale or spurious event. -/
  | stale (d : Dir)

def step (home : Dir → K) (kts : List K) (s : State K) : Action K → Option (State K)
  | .call d => if s.pos d = .idle then some (s.goto d .syscall) else none
  | .syscall d again =>
    if s.pos d = .syscall then
      if again then
        -- once `close` has returned the descriptor is closed
        if s.fdReady d = false ∧ s.closer ≠ .done then some (s.goto d .opened) else none
      else some (s.goto d .idle)
    else none
  | .run d => run d s
  | .deliver dirs =>
    if s.poller = .polling ∧ dirs ∈ [[.read], [.write], [.read, .write]] ∧
        dirs.all (fun d => 0 < s.events d) then
      some { s with
        events := fun d => if d ∈ dirs then s.events d - 1 else s.events d
        poller := .next dirs }
    else none
  | .elsewhere k => if s.poller = .polling then some { s with poller := .other k } else none
  | .poll => poll home kts s
  | .close => close home s
  | .rise d merge =>
    some { s with
      fdReady := Function.update s.fdReady d true
      events := if s.registered ∧ ¬(merge ∧ 0 < s.events d) then
          Function.update s.events d (s.events d + 1)
        else s.events }
  | .fall d => some { s with fdReady := Function.update s.fdReady d false }
  | .stale d => some { s with events := Function.update s.events d (s.events d + 1) }

/-- The kThreads: the home kThreads of the two uThreads, and those `bulkPush` visits. -/
structure Runtime (K : Type*) where
  home : Dir → K
  kThreads : List K
  home_mem : ∀ ut, home ut ∈ kThreads

/-- One kThread, the home of both uThreads. -/
def oneKThread : Runtime ℕ := ⟨fun _ => 0, [0], fun _ => List.mem_singleton_self 0⟩

/-- The `PollData` of a connection. -/
def machine (rt : Runtime K) : Machine (State K) (Action K) where
  init := fun s => ∃ fdReady, s = initial fdReady
  step := step rt.home rt.kThreads

end UThreads.IOHandler
