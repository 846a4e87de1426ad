import UThreads.Io.Poll

/-!
# `IOHandler`: polls, blocked uThreads and `close` at the same time

Every kThread polls without waiting before it looks for the next uThread (`nonblockingPoll`), and
the thread of the `IOHandler` polls in a loop (`pollerFunc`). `isPolling` lets one of them in at a
time. While they go through their events, uThreads park in the slots and threads close connections.

**The threads.** `poller t` is the position of `t` in `nonblockingPoll`, and `poller none` that of
the poller thread in `pollerFunc`. `pos u` is where uThread `u` is, with its position in `block`
and, after its switch, in `postSwitchFunc`. `closer t` is the position of `t` in `close`. Every
access to a slot, a flag or a counter is a step of its own; in `unblock` they are those of the model
of one connection (`unblock_is`).

**The configuration.** `NPOLLBULKPUSH` is defined by `Scheduler_04`: `unblock` then resumes the
uThread itself. With `NPOLLNONBLOCKING` only the poller thread polls, without the flag. `kThreads`
are the kThreads in the order in which `bulkPush` finds them in `clusterList` and the `ktVector` of
each cluster.

**The kernel.** `epoll_wait` returns any events, stale ones included.

**Left out.** The deadline of `timedwait`: the poller thread comes out of it at any time.

**Bookkeeping.** `delivered` is the number of uThreads that the current poll has put on run queues.
-/

namespace UThreads.Polling

open IOHandler (Dir Slot)
open Poll (Event Wait mode utIORead utIOWrite)

structure Config (K : Type*) where
  /-- `NPOLLBULKPUSH` is not defined. -/
  bulkPush : Bool
  /-- `NPOLLNONBLOCKING` is not defined. -/
  nonblocking : Bool
  kThreads : List K

/-- The position of a thread in `unblock`. -/
inductive Unblock (U K : Type*)
  /-- `if (pd.closing) return false` -/
  | closing
  /-- `old = *utp; if (old == POLL_READY) return false` -/
  | read
  /-- the compare-and-exchange -/
  | cas (old : Slot U)
  /-- `bulkQueue.push(*ut)` of `prepareBulkPush`, or `old->resume()` -/
  | wake (ut : U)
  /-- `bulkCounter++` of `prepareBulkPush`, on `k` -/
  | bump (k : K)
  | ret (res : Bool)
  deriving DecidableEq

/-- The position of a thread that polls. -/
inductive Poller (D U K : Type*)
  /-- not in `nonblockingPoll`; the poller thread: `sem.timedwait(ts)` -/
  | out
  /-- `isPolling.test_and_set()` -/
  | testAndSet
  /-- `poll`: `unblockCounter = 0` -/
  | reset
  /-- `_Poll`: `epoll_wait` -/
  | wait
  /-- `_Poll`: the slots that are still to be looked at -/
  | next (todo : List (D × Dir))
  /-- `PollReady`: in `unblock(pd, isRead)` -/
  | unblock (d : D) (utp : Dir) (x : Unblock U K) (todo : List (D × Dir))
  /-- `PollReady`: `unblockCounter++` -/
  | count (todo : List (D × Dir))
  /-- `bulkPush`: `if (bulkCounter > 0)` on the next kThread -/
  | flush (ks : List K)
  /-- `bulkPush`: `schedule(bulkQueue, bulkCounter)` on `k` -/
  | schedule (k : K) (ks : List K)
  /-- `bulkPush`: `bulkCounter = 0` on `k` -/
  | zero (k : K) (ks : List K)
  /-- `poll` has returned `r`: `isPolling.clear()` -/
  | clear (r : Int)
  deriving DecidableEq

/-- Where a uThread is. -/
inductive Pos (D K : Type*)
  /-- in no operation of a connection -/
  | running
  /-- `block`: `ut = *utp` -/
  | blockRead (d : D) (utp : Dir)
  /-- `block`: `*utp = nullptr; return` -/
  | blockClear (d : D) (utp : Dir)
  /-- `block`: `pd.isBlockingOnRead = isRead`, then `suspend` -/
  | blockFlag (d : D) (utp : Dir)
  /-- `postSwitchFunc`: `if (pd->closing) return` -/
  | hookClosing (d : D)
  /-- `postSwitchFunc`: the read of `isBlockingOnRead` -/
  | hookFlag (d : D)
  /-- `postSwitchFunc`: `old = *utp` -/
  | hookRead (d : D) (utp : Dir)
  /-- `postSwitchFunc`: `*utp = nullptr` -/
  | hookClear (d : D) (utp : Dir)
  /-- `postSwitchFunc`: `utold->resume()` -/
  | hookResume (d : D)
  /-- `postSwitchFunc`: the compare-and-exchange -/
  | hookCas (d : D) (utp : Dir)
  /-- in a slot -/
  | parked (d : D) (utp : Dir)
  /-- suspended, and `postSwitchFunc` has returned without parking it -/
  | dropped
  /-- taken out of its slot by an `unblock` that has still to hand it on -/
  | taken
  | bulkQueue (k : K)
  | runQueue (k : K)
  deriving DecidableEq

/-- The position of a thread in `close(pd)`. -/
inductive Closer (D U K : Type*)
  | idle
  /-- `if (pd.rut > POLL_WAIT)` -/
  | testRut (d : D)
  /-- `unblock(pd, true)` -/
  | unblockRut (d : D) (x : Unblock U K)
  /-- `if (pd.wut > POLL_WAIT);` -/
  | testWut (d : D)
  /-- `unblock(pd, true)` -/
  | unblockWut (d : D) (x : Unblock U K)
  /-- the compare-and-exchange on `closing` -/
  | cas (d : D)
  /-- `reset`: `rut = nullptr` -/
  | resetRut (d : D)
  /-- `reset`: `wut = nullptr` -/
  | resetWut (d : D)
  /-- `reset`: `closing = false` -/
  | resetClosing (d : D)
  deriving DecidableEq

structure State (D U K T : Type*) where
  /-- `rut` and `wut` of each `PollData` -/
  slot : D → Dir → Slot U
  closing : D → Bool
  isBlockingOnRead : D → Bool
  pos : U → Pos D K
  homekThread : U → K
  isPolling : Bool
  poller : Option T → Poller D U K
  closer : T → Closer D U K
  unblockCounter : ℕ
  bulkQueue : K → List U
  bulkCounter : K → ℕ
  runQueue : K → List U
  delivered : ℕ

variable {D U K T : Type*} [DecidableEq D] [DecidableEq U] [DecidableEq K] [DecidableEq T]

namespace State

variable (s : State D U K T)

/-- uThread `u` comes to `x`. -/
def goto (u : U) (x : Pos D K) : State D U K T := { s with pos := Function.update s.pos u x }

/-- Thread `t` comes to `x`. -/
def advance (t : Option T) (x : Poller D U K) : State D U K T :=
  { s with poller := Function.update s.poller t x }

def setCloser (t : T) (x : Closer D U K) : State D U K T :=
  { s with closer := Function.update s.closer t x }

def setSlot (d : D) (utp : Dir) (x : Slot U) : State D U K T :=
  { s with slot := Function.update s.slot d (Function.update (s.slot d) utp x) }

/-- `resume()`: the uThread is put on the run queue of its home kThread. -/
def resume (u : U) : State D U K T :=
  { s with
    runQueue := Function.update s.runQueue (s.homekThread u)
      (s.runQueue (s.homekThread u) ++ [u]) }.goto u
    (.runQueue (s.homekThread u))

/-- `ut->homekThread->ktvar->bulkQueue.push(*ut)` -/
def pushBulk (u : U) : State D U K T :=
  { s with
    bulkQueue := Function.update s.bulkQueue (s.homekThread u)
      (s.bulkQueue (s.homekThread u) ++ [u]) }.goto u
    (.bulkQueue (s.homekThread u))

/-- `schedule(bulkQueue, bulkCounter)` on kThread `k` -/
def schedule (k : K) : State D U K T :=
  { s with
    bulkQueue := Function.update s.bulkQueue k []
    runQueue := Function.update s.runQueue k (s.runQueue k ++ s.bulkQueue k)
    pos := fun u => if u ∈ s.bulkQueue k then .runQueue k else s.pos u
    delivered := s.delivered + (s.bulkQueue k).length }

end State

/-! ## The pollers -/

/-- The next step of a thread in `unblock(pd, isRead)`, and where it comes to. -/
def unblock (cfg : Config K) (d : D) (utp : Dir) (s : State D U K T) :
    Unblock U K → State D U K T × Unblock U K
  | .closing => (s, if s.closing d then .ret false else .read)
  | .read => (s, if s.slot d utp = .ready then .ret false else .cas (s.slot d utp))
  | .cas old =>
    if s.slot d utp = old then
      match old with
      | .null | .wait => (s.setSlot d utp .ready, .ret false)
      | .parked ut => ((s.setSlot d utp .null).goto ut .taken, .wake ut)
      | .ready => (s.setSlot d utp .null, .ret false)
    else (s, .read)
  | .wake ut =>
    if cfg.bulkPush then (s.pushBulk ut, .bump (s.homekThread ut))
    else ({ s.resume ut with delivered := s.delivered + 1 }, .ret true)
  | .bump k =>
    ({ s with bulkCounter := Function.update s.bulkCounter k (s.bulkCounter k + 1) }, .ret true)
  | .ret res => (s, .ret res)

/-- The position in `IOHandler.Unblock`, with the slot. -/
inductive Unblock.Is (utp : Dir) : Unblock U K → IOHandler.Unblock U → Prop
  | closing : Is utp .closing (.closing utp)
  | read : Is utp .read (.read utp)
  | cas {old : Slot U} : Is utp (.cas old) (.cas utp old)
  | wake {ut : U} : Is utp (.wake ut) (.push ut)
  | bump {k : K} {ut : U} : Is utp (.bump k) (.pushing ut)
  | ret {res : Bool} : Is utp (.ret res) (.ret res)

omit [DecidableEq T] in
/-- A step is one of `IOHandler.Unblock`, but `resume`, which is two in one. -/
theorem unblock_is {cfg : Config K} {d : D} {utp : Dir} {s : State D U K T} {x : Unblock U K}
    {y : IOHandler.Unblock U} (h : Unblock.Is utp x y)
    (hx : cfg.bulkPush = true ∨ ∀ ut, x ≠ .wake ut) :
    (unblock cfg d utp s x).1.slot d = (IOHandler.Unblock.step (s.closing d) (s.slot d, y)).1 ∧
      Unblock.Is utp (unblock cfg d utp s x).2
        (IOHandler.Unblock.step (s.closing d) (s.slot d, y)).2 := by
  cases h with
  | closing =>
    refine ⟨rfl, ?_⟩
    simp only [unblock, IOHandler.Unblock.step]
    split_ifs <;> constructor
  | read =>
    refine ⟨rfl, ?_⟩
    simp only [unblock, IOHandler.Unblock.step]
    split_ifs <;> constructor
  | @cas old =>
    simp only [unblock, IOHandler.Unblock.step]
    split_ifs
    · cases old <;> exact ⟨by simp [State.setSlot, State.goto], by constructor⟩
    · exact ⟨rfl, .read⟩
  | wake =>
    have hbulk : cfg.bulkPush = true := hx.resolve_right fun hne => hne _ rfl
    simp only [unblock, IOHandler.Unblock.step, hbulk, if_true]
    exact ⟨rfl, .bump⟩
  | bump => exact ⟨rfl, .ret⟩
  | ret => exact ⟨rfl, .ret⟩

/-- The slots that `PollReady(pd, flag)` looks at. -/
def flagged (flag : BitVec 32) : List Dir :=
  (if flag &&& utIORead ≠ 0 then [.read] else []) ++
  (if flag &&& utIOWrite ≠ 0 then [.write] else [])

/-- The slots that the loop of `_Poll` looks at. -/
def slotsOf (evs : List (Event D)) : List (D × Dir) :=
  evs.flatMap fun ev =>
    if ev.events = 0 then [] else (flagged (mode ev.events)).map fun utp => (ev.ptr, utp)

/-- `_Poll` has returned a result that is not negative. -/
def afterPoll (cfg : Config K) (s : State D U K T) : Poller D U K :=
  if cfg.bulkPush = true ∧ 0 < s.unblockCounter then .flush cfg.kThreads
  else .clear s.unblockCounter

/-- `epoll_wait` returns `r` to thread `t`. -/
def epollWait (cfg : Config K) (t : Option T) (r : Wait D) (s : State D U K T) :
    Option (State D U K T) :=
  match s.poller t with
  | .wait =>
    match r with
    | .error true => some (s.advance t (afterPoll cfg s))
    | .error false => some (s.advance t (.clear (-1)))
    | .events evs => some (s.advance t (.next (slotsOf evs)))
  | _ => none

/-- The next step of thread `t` in a poll. -/
def poll (cfg : Config K) (t : Option T) (s : State D U K T) : Option (State D U K T) :=
  match s.poller t with
  | .out | .wait => none
  | .testAndSet =>
    if cfg.nonblocking then
      some (if s.isPolling then s.advance t .out else { s with isPolling := true }.advance t .reset)
    else some (s.advance t .reset)
  | .reset => some ({ s with unblockCounter := 0, delivered := 0 }.advance t .wait)
  | .next [] => some (s.advance t (afterPoll cfg s))
  | .next ((d, utp) :: todo) => some (s.advance t (.unblock d utp .closing todo))
  | .unblock _ _ (.ret res) todo => some (s.advance t (if res then .count todo else .next todo))
  | .unblock d utp x todo =>
    let r := unblock cfg d utp s x
    some (r.1.advance t (.unblock d utp r.2 todo))
  | .count todo => some ({ s with unblockCounter := s.unblockCounter + 1 }.advance t (.next todo))
  | .flush [] => some (s.advance t (.clear s.unblockCounter))
  | .flush (k :: ks) =>
    some (s.advance t (if 0 < s.bulkCounter k then .schedule k ks else .zero k ks))
  | .schedule k ks => some ((s.schedule k).advance t (.zero k ks))
  | .zero k ks =>
    some ({ s with bulkCounter := Function.update s.bulkCounter k 0 }.advance t (.flush ks))
  | .clear _ =>
    some ({ s with isPolling := if cfg.nonblocking then false else s.isPolling }.advance t .out)

/-! ## The uThreads -/

/-- The next step of uThread `u`. -/
def run (u : U) (s : State D U K T) : Option (State D U K T) :=
  match s.pos u with
  | .blockRead d utp =>
    some (s.goto u (if s.slot d utp = .ready then .blockClear d utp else .blockFlag d utp))
  | .blockClear d utp => some ((s.setSlot d utp .null).goto u .running)
  | .blockFlag d utp =>
    some ({ s with
      isBlockingOnRead := Function.update s.isBlockingOnRead d (decide (utp = Dir.read)) }.goto u
      (.hookClosing d))
  | .hookClosing d => some (s.goto u (if s.closing d then .dropped else .hookFlag d))
  | .hookFlag d => some (s.goto u (.hookRead d (.of (s.isBlockingOnRead d))))
  | .hookRead d utp =>
    some (s.goto u (if s.slot d utp = .ready then .hookClear d utp else .hookCas d utp))
  | .hookClear d utp => some ((s.setSlot d utp .null).goto u (.hookResume d))
  | .hookResume _ => some (s.resume u)
  | .hookCas d utp =>
    some (if s.slot d utp = .null then (s.setSlot d utp (.parked u)).goto u (.parked d utp)
      else s.goto u (.hookRead d utp))
  | .running | .parked _ _ | .dropped | .taken | .bulkQueue _ | .runQueue _ => none

/-- A kThread takes the next uThread off its run queue. -/
def pop (k : K) (s : State D U K T) : Option (State D U K T) :=
  match s.runQueue k with
  | [] => none
  | u :: l => some ({ s with runQueue := Function.update s.runQueue k l }.goto u .running)

/-! ## The closers -/

/-- The next step of thread `t` in `close`. -/
def close (cfg : Config K) (t : T) (s : State D U K T) : Option (State D U K T) :=
  match s.closer t with
  | .idle => none
  | .testRut d =>
    some (s.setCloser t (if (s.slot d .read).ut?.isSome then .unblockRut d .closing
      else .testWut d))
  | .unblockRut d (.ret _) => some (s.setCloser t (.testWut d))
  | .unblockRut d x =>
    let r := unblock cfg d .read s x
    some (r.1.setCloser t (.unblockRut d r.2))
  -- the condition is followed by an empty statement
  | .testWut d => some (s.setCloser t (.unblockWut d .closing))
  | .unblockWut d (.ret _) => some (s.setCloser t (.cas d))
  | .unblockWut d x =>
    let r := unblock cfg d .read s x
    some (r.1.setCloser t (.unblockWut d r.2))
  | .cas d =>
    some (if s.closing d then s.setCloser t .idle
      else { s with closing := Function.update s.closing d true }.setCloser t (.resetRut d))
  | .resetRut d => some ((s.setSlot d .read .null).setCloser t (.resetWut d))
  | .resetWut d => some ((s.setSlot d .write .null).setCloser t (.resetClosing d))
  -- the `PollData` goes to the cache and may serve another connection
  | .resetClosing d =>
    some ({ s with closing := Function.update s.closing d false }.setCloser t .idle)

/-! ## The machine -/

inductive Action (D U K T : Type*)
  /-- Thread `t` calls `nonblockingPoll`. -/
  | nonblockingPoll (t : T)
  /-- `sem.timedwait(ts)` returns in the poller thread, which puts back a token that it got. -/
  | timedwait
  | epollWait (t : Option T) (r : Wait D)
  /-- Another step of thread `t` in a poll. -/
  | poll (t : Option T)
  /-- uThread `u` calls `block(pd, isRead)`. -/
  | block (u : U) (d : D) (utp : Dir)
  /-- A step of uThread `u` in `block` or `postSwitchFunc`. -/
  | run (u : U)
  | pop (k : K)
  /-- The running uThread `u` goes to another home. -/
  | migrate (u : U) (k : K)
  /-- Thread `t` calls `close(pd)`. -/
  | startClose (t : T) (d : D)
  | close (t : T)

def step (cfg : Config K) (s : State D U K T) : Action D U K T → Option (State D U K T)
  | .nonblockingPoll t =>
    -- without `isPolling` it returns at once
    if cfg.nonblocking = true ∧ s.poller (some t) = .out then some (s.advance (some t) .testAndSet)
    else none
  | .timedwait => if s.poller none = .out then some (s.advance none .testAndSet) else none
  | .epollWait t r => epollWait cfg t r s
  | .poll t => poll cfg t s
  | .block u d utp => if s.pos u = .running then some (s.goto u (.blockRead d utp)) else none
  | .run u => run u s
  | .pop k => pop k s
  | .migrate u k =>
    if s.pos u = .running then some { s with homekThread := Function.update s.homekThread u k }
    else none
  | .startClose t d => if s.closer t = .idle then some (s.setCloser t (.testRut d)) else none
  | .close t => close cfg t s

def initial (home : U → K) : State D U K T where
  slot := fun _ _ => .null
  closing := fun _ => false
  isBlockingOnRead := fun _ => false
  pos := fun _ => .running
  homekThread := home
  isPolling := false
  poller := fun _ => .out
  closer := fun _ => .idle
  unblockCounter := 0
  bulkQueue := fun _ => []
  bulkCounter := fun _ => 0
  runQueue := fun _ => []
  delivered := 0

def machine (D U K T : Type*) [DecidableEq D] [DecidableEq U] [DecidableEq K] [DecidableEq T]
    (cfg : Config K) : Machine (State D U K T) (Action D U K T) where
  init := fun s => ∃ home, s = initial home
  step := step cfg

/-- The `PollData` on which a thread works in `close`. -/
def Closer.pd : Closer D U K → Option D
  | .idle => none
  | .testRut d | .unblockRut d _ | .testWut d | .unblockWut d _ | .cas d | .resetRut d | .resetWut d
  | .resetClosing d => some d

/-- The `PollData` on which a uThread works in `block` or `postSwitchFunc`. -/
def Pos.pd : Pos D K → Option D
  | .blockRead d _ | .blockClear d _ | .blockFlag d _ | .hookClosing d | .hookFlag d | .hookRead d _
  | .hookClear d _
  | .hookResume d | .hookCas d _ => some d
  | _ => none

/-- What the users of the connections guarantee: one uThread at a time is in `block` or
`postSwitchFunc` of a `PollData`, and nobody is parked on a connection that is being closed. -/
def Allowed (s : State D U K T) : Action D U K T → Prop
  | .block _ d _ => ∀ v, (s.pos v).pd ≠ some d
  | .close t => ∀ d, (s.closer t).pd = some d → ∀ utp u, s.slot d utp ≠ .parked u
  | _ => True

end UThreads.Polling
