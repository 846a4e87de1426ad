import UThreads.Io.Poll
import UThreads.Runtime.KThread
import UThreads.Schedulers.Scheduler01

/-!
# How uThreads are handed over: the model

Every way in which a uThread comes to the next container or to the next kThread: `create`, `start`,
`yield`, `migrate`, `suspend`, `resume` and `terminate` of `runtime/uThread.cpp`, the switching of
`runtime/kThread.cpp`, the schedulers `Scheduler_01` and `Scheduler_02`, the blocking queues, the
poll slots and the bulk push of the poller, and the cache.

**Control and containers.** `Ctl` is everything but the containers. A step of the code calls one
operation of a container at most (`Op`): `plan` says which, and how the code goes on with the result
(`Call`). An implementation of the containers (`Impl`) makes a machine of it. `Lists` is the
abstract one, where every container is a list.

**kThreads.** A kThread runs the code of a uThread, or is in the middle of a switch (`Pos`).
`mainUT` is not among the uThreads: it runs `defaultRun` only (`main`), and a switch to it is one to
`none`. What a kThread has taken from a blocking queue and not resumed is in its `hands`, the last
one taken first.

**Blocking.** `wait` and `signal` are the calls of `BlockingQueue::suspend`, `signal` and
`signalAll` in `Mutex`, `Semaphore` and `ConditionVariable`. Their own fields are left out, so these
calls happen whenever the caller likes; `signal` is also called by `postSuspendFunc`, which releases
the mutex of the caller.

**The poller** takes a uThread from its slot, puts it on a bulk queue, and pushes bulk queues, in
any order, but pushes none in a `poll` that has unblocked nobody. The polling of one batch is
modelled in `Poll`.

**What is chosen freely.** The kThread that `assignkThread` returns; whether `try_to_lock` succeeds;
when a kThread that waits in `blockingSwitch` goes on; the value that `bulkCounter` has in a new
`ClusterVar`, which nothing initialises. The fields `jState`, `utvar`, `uThreadID` and the stack are
left out.
-/

namespace UThreads.Handover

open IOHandler (Slot)

/-- Which of the schedulers is compiled. -/
inductive Scheduler
  | one
  | two
  deriving DecidableEq

structure Config (K C : Type*) where
  sched : Scheduler
  localCluster : K → C
  /-- `size` of the `uThreadCache` -/
  cacheSize : BitVec 64

/-! ## The containers -/

/-- Whose bulk queue: that of a kThread (`Scheduler_02`) or of a cluster (`Scheduler_01`). -/
inductive Bulk (K C : Type*)
  | kThread (k : K)
  | cluster (c : C)
  deriving DecidableEq

/-- The `IntrusiveQueue`s: `queue` and `lrq` of `Scheduler_01`, and the bulk queues -/
inductive Queue (K C : Type*)
  | queue (c : C)
  | lrq (k : K)
  | bulkQueue (j : Bulk K C)
  deriving DecidableEq

/-- The containers. `chain` are the uThreads between `bulkQueue.removeAll()` and
`runQueue.push(first, last)`. -/
inductive Cont (K C B : Type*)
  /-- `runQueue` of `Scheduler_02` -/
  | runQueue (k : K)
  | queue (q : Queue K C)
  /-- the `IntrusiveList` of a `BlockingQueue` -/
  | bq (b : B)
  /-- the `IntrusiveStack` of the `uThreadCache` -/
  | cache
  | chain
  deriving DecidableEq

/-- The calls of container operations. -/
inductive Op (U K C B : Type*)
  | none
  /-- `runQueue.push(*ut)` -/
  | runPush (k : K) (u : U)
  /-- `runQueue.pop()` -/
  | runPop (k : K)
  /-- `queue.push(*ut)` -/
  | push (q : Queue K C) (u : U)
  /-- `if (!queue.empty()) { queue.front(); queue.pop(); }` -/
  | tryPop (q : Queue K C)
  /-- `queue.front(); queue.pop()` -/
  | pop (q : Queue K C)
  /-- `nqueue.transferFrom(queue, n)` -/
  | transferFrom (dst src : Queue K C) (n : ℕ)
  /-- `queue.transferAllFrom(utList)` -/
  | transferAllFrom (dst src : Queue K C)
  /-- `first = queue.front(); last = queue.removeAll()` -/
  | removeAll (q : Queue K C)
  /-- `runQueue.push(*first, *last)` -/
  | runPushChain (k : K)
  /-- `queue.push_back(*ut)` -/
  | pushBack (b : B) (u : U)
  /-- `if (!queue.empty()) { queue.front(); queue.pop_front(); }` -/
  | tryPopFront (b : B)
  /-- `stack.push(*ut)` -/
  | cachePush (u : U)
  /-- `stack.pop()` -/
  | cachePop

/-- The result of a call. -/
inductive Res (U : Type*)
  | none
  | elem (u : U)
  | count (n : ℕ)

/-- An implementation of the containers, with the containers `σ`. -/
structure Impl (U K C B σ : Type*) where
  empty : σ
  exec : Op U K C B → σ → Option (Res U × σ)

/-! ## Everything else -/

/-- What a uThread object is in use for. -/
inductive Life
  | absent
  | created
  /-- started, or in the cache -/
  | inUse
  deriving DecidableEq

structure UThread (K C : Type*) where
  life : Life
  state : Runtime.UState
  homekThread : Option K
  currentCluster : Option C
  deriving DecidableEq

/-- The constructor, and `reset`. -/
def newUT : UThread K C := ⟨.created, .initialized, none, none⟩

/-- The argument of `switchContext`: where `postSuspendFunc` parks the uThread. -/
inductive Arg (B D : Type*)
  | bq (b : B)
  | slot (d : D)
  deriving DecidableEq

/-- Where a kThread is. -/
inductive Pos (U B D : Type*)
  /-- not created -/
  | absent
  /-- in `defaultRun`: `blockingSwitch` -/
  | main
  /-- `Scheduler_01::blockingSwitch` after `__popMany` -/
  | mainPop
  /-- in the code of `u` -/
  | run (u : U)
  /-- in `nonBlockingSwitch`, for `u` -/
  | pop (u : U) (args : Option (Arg B D))
  /-- `Scheduler_01::nonBlockingSwitch`: `__tryPopMany` -/
  | fill (u : U) (args : Option (Arg B D))
  /-- `Scheduler_01::nonBlockingSwitch` after `__tryPopMany` -/
  | popFilled (u : U) (args : Option (Arg B D))
  /-- `postSwitchFunc`: what is done for `u` -/
  | post (u : U) (args : Option (Arg B D)) (next : Option U)
  /-- `postSuspendFunc`: `bqp->first->unlock()` -/
  | unlock (next : Option U)
  /-- `ck->currentUT = next; next->state = RUNNING` -/
  | finish (next : Option U)
  deriving DecidableEq

/-- Where the poller is. -/
inductive Poller (U K : Type*)
  | idle
  /-- `unblock`: `Scheduler::prepareBulkPush(old)` -/
  | unblocked (u : U)
  /-- `Scheduler_02::schedule(queue, count)` on kThread `k`: `runQueue.push(*first, *last)` -/
  | chain (k : K)
  deriving DecidableEq

structure Ctl (U K C B D : Type*) where
  ut : U → UThread K C
  initUT : Option U
  /-- bookkeeping: has `initUT` called `switchContext`? -/
  switched : Bool
  pos : K → Pos U B D
  hands : K → List U
  slot : D → Slot U
  poller : Poller U K
  /-- `unblockCounter` of the IO handler -/
  unblockCounter : BitVec 64
  /-- has the cluster been created? -/
  cluster : C → Bool
  ktVector : C → List K
  /-- `size` and `lastPopNum` of `Scheduler_01` -/
  size : C → BitVec 32
  lastPopNum : C → ℕ
  bulkCounter : Bulk K C → BitVec 64
  /-- `count` of the `uThreadCache` -/
  cacheCount : BitVec 64

/-- A call of a container operation, and how the code goes on. -/
structure Call (U K C B D : Type*) where
  op : Op U K C B
  next : Res U → Option (Ctl U K C B D)

variable {U K C B D : Type*} [DecidableEq U] [DecidableEq K] [DecidableEq C] [DecidableEq B]
  [DecidableEq D]

namespace Ctl

variable (s : Ctl U K C B D)

def setUT (u : U) (x : UThread K C) : Ctl U K C B D := { s with ut := Function.update s.ut u x }

def setState (u : U) (x : Runtime.UState) : Ctl U K C B D := s.setUT u { s.ut u with state := x }

def goto (k : K) (p : Pos U B D) : Ctl U K C B D := { s with pos := Function.update s.pos k p }

def setSlot (d : D) (x : Slot U) : Ctl U K C B D := { s with slot := Function.update s.slot d x }

def setHands (k : K) (us : List U) : Ctl U K C B D :=
  { s with hands := Function.update s.hands k us }

/-- `u` is `initUT`, before its first context switch. -/
def unswitched (u : U) : Prop := s.initUT = some u ∧ s.switched = false

/-- No container operation is called. -/
def call : Call U K C B D := ⟨.none, fun _ => some s⟩

/-- The uThread whose code kThread `k` runs, when it is not in the middle of a wake-up. -/
def caller (k : K) : Option U :=
  match s.pos k, s.hands k with
  | .run u, [] => some u
  | _, _ => none

end Ctl

/-- The code goes on with `f`. -/
def Call.andThen (x : Call U K C B D) (f : Ctl U K C B D → Ctl U K C B D) : Call U K C B D :=
  ⟨x.op, fun r => (x.next r).map f⟩

/-! ## Scheduling -/

/-- `Scheduler::schedule(ut, kt)` -/
def schedule (cfg : Config K C) (u : U) (k : K) (s : Ctl U K C B D) : Call U K C B D :=
  match cfg.sched with
  | .one => ⟨.push (.queue (cfg.localCluster k)) u, fun _ =>
      some { s with
        size := Function.update s.size (cfg.localCluster k) (s.size (cfg.localCluster k) + 1) }⟩
  | .two => ⟨.runPush k u, fun _ => some s⟩

/-- `uThread::resume()`; `home` is for `assignkThread`. -/
def resume (cfg : Config K C) (u : U) (home : K) (s : Ctl U K C B D) : Option (Call U K C B D) :=
  if (s.ut u).state.resumable then
    match (s.ut u).homekThread, (s.ut u).currentCluster with
    | some k, _ => some (schedule cfg u k (s.setState u .ready))
    | none, some c =>
      if home ∈ s.ktVector c then
        some (schedule cfg u home
          (s.setUT u { s.ut u with state := .ready, homekThread := some home }))
      else none
    | none, none => none
  else some s.call

/-- `u`, whose code runs on `k`, sets its state to `x` and calls `switchContext(args)`. -/
def switchContext (k : K) (u : U) (x : Runtime.UState) (args : Option (Arg B D))
    (s : Ctl U K C B D) :
    Call U K C B D :=
  ({ s.setState u x with switched := s.switched || s.initUT = some u }.goto k (.pop u args)).call

/-- `uThread::migrate(c)` of `u` on `k`; `home` is for `assignkThread`. -/
def migrate (cfg : Config K C) (k : K) (u : U) (c : C) (home : K) (s : Ctl U K C B D) :
    Option (Call U K C B D) :=
  if cfg.localCluster k = c then some s.call
  else if s.cluster c ∧ home ∈ s.ktVector c then
    some (switchContext k u .migrate none
      (s.setUT u { s.ut u with homekThread := some home, currentCluster := some c }))
  else none

/-- `IOHandler::block` of `u` on `k`, at slot `d` -/
def block (k : K) (u : U) (d : D) (s : Ctl U K C B D) : Call U K C B D :=
  match s.slot d with
  | .ready => (s.setSlot d .null).call
  | .null | .wait | .parked _ => switchContext k u .waiting (some (.slot d)) s

/-! ## Switching -/

/-- `__removeMany` for kThread `k`: the uThreads go to its `lrq`, and `f` is done. -/
def removeMany (cfg : Config K C) (k : K) (f : Ctl U K C B D → Ctl U K C B D) (s : Ctl U K C B D) :
    Call U K C B D :=
  let c := cfg.localCluster k
  let n := Scheduler01.Queues.popnum (s.size c).toNat (s.ktVector c).length (s.lastPopNum c)
  ⟨.transferFrom (.lrq k) (.queue c) n, fun
    | .count m => some (f { s with
        size := Function.update s.size c (s.size c - BitVec.ofNat 32 m)
        lastPopNum := Function.update s.lastPopNum c n })
    | _ => none⟩

/-- There is nothing else to run: `u` goes on if it yielded, or `mainUT` is next. -/
def nothing (k : K) (u : U) (args : Option (Arg B D)) (s : Ctl U K C B D) : Ctl U K C B D :=
  if (s.ut u).state = .yield then s.goto k (.run u) else s.goto k (.post u args none)

/-- `nonBlockingSwitch` for `u` on `k`: the pop of `runQueue` (`Scheduler_02`) or of `lrq`
(`Scheduler_01`) -/
def nonBlockingSwitch (cfg : Config K C) (k : K) (u : U) (args : Option (Arg B D))
    (s : Ctl U K C B D) :
    Call U K C B D :=
  match cfg.sched with
  | .one => ⟨.tryPop (.lrq k), fun
      | .elem v => some (s.goto k (.post u args (some v)))
      | _ => some (s.goto k (.fill u args))⟩
  | .two => ⟨.runPop k, fun
      | .elem v => some (s.goto k (.post u args (some v)))
      | _ => some (nothing k u args s)⟩

/-- `__tryPopMany`; `locked`: does `try_to_lock` succeed? -/
def tryPopMany (cfg : Config K C) (k : K) (u : U) (args : Option (Arg B D)) (locked : Bool)
    (s : Ctl U K C B D) : Call U K C B D :=
  if locked then
    if s.size (cfg.localCluster k) = 0 then (nothing k u args s).call
    else removeMany cfg k (·.goto k (.popFilled u args)) s
  else (s.goto k (.post u args none)).call

/-- `blockingSwitch` in `defaultRun` -/
def blockingSwitch (cfg : Config K C) (k : K) (s : Ctl U K C B D) : Option (Call U K C B D) :=
  match cfg.sched with
  | .one =>
    if s.size (cfg.localCluster k) = 0 then none else some (removeMany cfg k (·.goto k .mainPop) s)
  | .two => some ⟨.runPop k, fun
      | .elem v => some (s.goto k (.finish (some v)))
      | _ => some s⟩

/-- `destory(false)` of `u`: `utCache.push(this)`, or its memory is freed -/
def destory (cfg : Config K C) (u : U) (cached : Bool) (s : Ctl U K C B D) :
    Option (Call U K C B D) :=
  if cached then
    if s.cacheCount = cfg.cacheSize then none
    else some ⟨.cachePush u, fun _ =>
      some { s.setUT u { newUT with life := .inUse } with cacheCount := s.cacheCount + 1 }⟩
  else some (s.setUT u { s.ut u with life := .absent }).call

/-- `postSwitchFunc(next, args)`: what is done for `u`; `home` is for `assignkThread`. -/
def postSwitchFunc (cfg : Config K C) (k : K) (u : U) (args : Option (Arg B D)) (next : Option U)
    (home : K) (cached : Bool) (s : Ctl U K C B D) : Option (Call U K C B D) :=
  match (s.ut u).state with
  | .terminated => (destory cfg u cached s).map (·.andThen (·.goto k (.finish next)))
  | .yield | .migrate => (resume cfg u home s).map (·.andThen (·.goto k (.finish next)))
  | .waiting =>
    match args with
    | some (.bq b) => some ⟨.pushBack b u, fun _ => some (s.goto k (.unlock next))⟩
    | some (.slot d) =>
      match s.slot d with
      | .ready => (resume cfg u home (s.setSlot d .null)).map (·.andThen (·.goto k (.finish next)))
      | .null => some ((s.setSlot d (.parked u)).goto k (.finish next)).call
      -- the compare-and-exchange fails, and is tried again
      | .wait | .parked _ => none
    | none => none
  | .initialized | .ready | .running => some (s.goto k (.finish next)).call

/-- The last lines of `postSwitchFunc` -/
def finish (k : K) (next : Option U) (s : Ctl U K C B D) : Call U K C B D :=
  match next with
  | some v => ((s.setState v .running).goto k (.run v)).call
  | none => (s.goto k .main).call

/-! ## The poller -/

/-- `unblock` of slot `d` by the poller -/
def unblock (d : D) (s : Ctl U K C B D) : Ctl U K C B D :=
  match s.slot d with
  | .ready => s
  | .null | .wait => s.setSlot d .ready
  | .parked u => { s.setSlot d .null with poller := .unblocked u }

omit [DecidableEq U] [DecidableEq K] [DecidableEq C] [DecidableEq B] in
/-- The slot is as it is after the steps of `unblock`, and its uThread is in the hands of the
poller. -/
theorem unblock_alone (d : D) (s : Ctl U K C B D) :
    (unblock d s).slot = Function.update s.slot d ((s.slot d).after 1) ∧
      ∀ u, (s.slot d).ut? = some u → (unblock d s).poller = .unblocked u := by
  unfold unblock
  cases h : s.slot d with
  | ready => exact ⟨(Function.update_eq_self_iff.mpr h.symm).symm, by simp [Slot.ut?]⟩
  | null | wait => exact ⟨rfl, by simp [Slot.ut?]⟩
  | parked v => exact ⟨rfl, by simp [Slot.ut?]⟩

/-- `prepareBulkPush(ut)` in `unblock`, and `unblockCounter++` in `PollReady` -/
def prepareBulkPush (cfg : Config K C) (u : U) (s : Ctl U K C B D) : Option (Call U K C B D) :=
  let push (j : Bulk K C) : Call U K C B D := ⟨.push (.bulkQueue j) u, fun _ => some { s with
    poller := .idle
    unblockCounter := s.unblockCounter + 1
    bulkCounter := Function.update s.bulkCounter j (s.bulkCounter j + 1) }⟩
  match cfg.sched with
  | .one => (s.ut u).currentCluster.map fun c => push (.cluster c)
  | .two => (s.ut u).homekThread.map fun k => push (.kThread k)

/-- `Scheduler_01::bulkPush(cluster)` -/
def bulkPushCluster (c : C) (s : Ctl U K C B D) : Call U K C B D :=
  let n := s.bulkCounter (.cluster c)
  if n = 0 then s.call
  else ⟨.transferAllFrom (.queue c) (.bulkQueue (.cluster c)), fun _ => some { s with
    size := Function.update s.size c (s.size c + n.setWidth 32)
    bulkCounter := Function.update s.bulkCounter (.cluster c) 0 }⟩

/-- `Scheduler_02::bulkPush(cluster)` at kThread `k` -/
def bulkPushkThread (k : K) (s : Ctl U K C B D) : Call U K C B D :=
  if s.bulkCounter (.kThread k) = 0 then s.call
  else ⟨.removeAll (.bulkQueue (.kThread k)), fun _ => some { s with poller := .chain k }⟩

/-- `Scheduler_02::schedule(queue, count)` after `removeAll`, and `bulkCounter = 0` -/
def pushChain (k : K) (s : Ctl U K C B D) : Call U K C B D :=
  ⟨.runPushChain k, fun _ => some { s with
    poller := .idle
    bulkCounter := Function.update s.bulkCounter (.kThread k) 0 }⟩

/-! ## The machine -/

/-- What can happen next; `home` is for `assignkThread`. -/
inductive Action (U K C B D : Type*)
  /-- a cluster is created; the memory of `bulkCounter` has the value `n` -/
  | newCluster (c : C) (n : BitVec 64)
  /-- the default kThread, which runs `initUT` -/
  | defaultKT (k : K) (u : U)
  | newkThread (k : K)
  /-- `uThread::create` without the cache, and with it -/
  | create (k : K) (u : U)
  | createCached (k : K)
  | start (k : K) (u : U) (c : C) (home : K)
  | yield (k : K)
  | migrate (k : K) (c : C) (home : K)
  | terminate (k : K)
  /-- `BlockingQueue::suspend` -/
  | wait (k : K) (b : B)
  | block (k : K) (d : D)
  /-- `signal` and `signalAll`: the first uThread is taken -/
  | signal (k : K) (b : B)
  /-- `owner->resume()` of the uThread that was taken last -/
  | wake (k : K) (home : K)
  /-- the public `resume()`, by anyone -/
  | resume (u : U) (home : K)
  /-- the next step of kThread `k` in a switch -/
  | switch (k : K) (home : K) (choice : Bool)
  /-- `IOHandler::poll` begins -/
  | poll
  | unblock (d : D)
  | prepareBulkPush
  | bulkPush (j : Bulk K C)
  | pushChain

/-- The next step of kThread `k` in a switch; `choice` is whether a lock is free. -/
def switchStep (cfg : Config K C) (k home : K) (choice : Bool) (s : Ctl U K C B D) :
    Option (Call U K C B D) :=
  match s.pos k with
  | .absent | .run _ => none
  | .main => blockingSwitch cfg k s
  | .mainPop => some ⟨.pop (.lrq k), fun
      | .elem v => some (s.goto k (.finish (some v)))
      | _ => none⟩
  | .pop u args => some (nonBlockingSwitch cfg k u args s)
  | .fill u args => some (tryPopMany cfg k u args choice s)
  | .popFilled u args => some ⟨.pop (.lrq k), fun
      | .elem v => some (s.goto k (.post u args (some v)))
      | _ => none⟩
  | .post u args next => postSwitchFunc cfg k u args next home choice s
  | .unlock next => if s.hands k = [] then some (s.goto k (.finish next)).call else none
  | .finish next => some (finish k next s)

/-- May kThread `k` call `signal`? -/
def signals (p : Pos U B D) : Bool :=
  match p with
  | .run _ | .unlock _ => true
  | _ => false

def plan (cfg : Config K C) (s : Ctl U K C B D) : Action U K C B D → Option (Call U K C B D)
  | .newCluster c n =>
    if s.cluster c then none
    else some { s with
      cluster := Function.update s.cluster c true
      bulkCounter := match cfg.sched with
        | .one => Function.update s.bulkCounter (.cluster c) n
        | .two => s.bulkCounter }.call
  | .defaultKT k u =>
    if s.pos k = .absent ∧ s.cluster (cfg.localCluster k) ∧ s.initUT = none ∧
      (s.ut u).life = .absent then
      some ({ s.setUT u ⟨.inUse, .initialized, some k, some (cfg.localCluster k)⟩ with
        initUT := some u
        switched := false
        ktVector := Function.update s.ktVector (cfg.localCluster k)
          (s.ktVector (cfg.localCluster k) ++ [k]) }.goto k (.run u)).call
    else none
  | .newkThread k =>
    if s.pos k = .absent ∧ s.cluster (cfg.localCluster k) then
      some ({ s with
        ktVector := Function.update s.ktVector (cfg.localCluster k)
          (s.ktVector (cfg.localCluster k) ++ [k]) }.goto k .main).call
    else none
  | .create k u =>
    if (s.caller k).isSome ∧ (s.ut u).life = .absent then some (s.setUT u newUT).call else none
  | .createCached k =>
    if (s.caller k).isSome ∧ s.cacheCount ≠ 0 then
      some ⟨.cachePop, fun
        | .elem u =>
          some { s.setUT u { s.ut u with life := .created } with cacheCount := s.cacheCount - 1 }
        | _ => none⟩
    else none
  | .start k u c home =>
    if (s.caller k).isSome ∧ (s.ut u).life = .created ∧ s.cluster c then
      resume cfg u home (s.setUT u { s.ut u with life := .inUse, currentCluster := some c })
    else none
  | .yield k => (s.caller k).map fun u => switchContext k u .yield none s
  | .migrate k c home => (s.caller k).bind fun u => migrate cfg k u c home s
  | .terminate k => (s.caller k).map fun u => switchContext k u .terminated none s
  | .wait k b => (s.caller k).map fun u => switchContext k u .waiting (some (.bq b)) s
  | .block k d => (s.caller k).map fun u => block k u d s
  | .signal k b =>
    if signals (s.pos k) then
      some ⟨.tryPopFront b, fun
        | .elem w => some (s.setHands k (w :: s.hands k))
        | _ => some s⟩
    else none
  | .wake k home =>
    match s.hands k with
    | w :: hs => resume cfg w home (s.setHands k hs)
    | [] => none
  | .resume u home => if (s.ut u).life = .absent then none else resume cfg u home s
  | .switch k home choice => switchStep cfg k home choice s
  | .poll => if s.poller = .idle then some { s with unblockCounter := 0 }.call else none
  | .unblock d => if s.poller = .idle then some (unblock d s).call else none
  | .prepareBulkPush =>
    match s.poller with
    | .unblocked u => prepareBulkPush cfg u s
    | _ => none
  | .bulkPush j =>
    -- `poll` calls `bulkPush` only if it has unblocked a uThread
    if s.poller = .idle ∧ s.unblockCounter ≠ 0 then
      match cfg.sched, j with
      | .one, .cluster c => some (bulkPushCluster c s)
      | .two, .kThread k => some (bulkPushkThread k s)
      | _, _ => none
    else none
  | .pushChain =>
    match s.poller with
    | .chain k => some (pushChain k s)
    | _ => none

def initial : Ctl U K C B D where
  ut := fun _ => { newUT with life := .absent }
  initUT := none
  switched := false
  pos := fun _ => .absent
  hands := fun _ => []
  slot := fun _ => .null
  poller := .idle
  unblockCounter := 0
  cluster := fun _ => false
  ktVector := fun _ => []
  size := fun _ => 0
  lastPopNum := fun _ => 0
  bulkCounter := fun _ => 0
  cacheCount := 0

/-- A step of the code, with the containers of an implementation. -/
def step {σ : Type*} (I : Impl U K C B σ) (cfg : Config K C) (s : Ctl U K C B D × σ)
    (a : Action U K C B D) : Option (Ctl U K C B D × σ) :=
  (plan cfg s.1 a).bind fun x =>
    (I.exec x.op s.2).bind fun r =>
      (x.next r.1).map fun ctl => (ctl, r.2)

def machine {σ : Type*} (I : Impl U K C B σ) (cfg : Config K C) :
    Machine (Ctl U K C B D × σ) (Action U K C B D) where
  init := fun s => s = (initial, I.empty)
  step := step I cfg

/-! ## The abstract containers -/

/-- The contents of the containers: from the front to the back, or from the top down. -/
abbrev Lists (U K C B : Type*) := Cont K C B → List U

namespace Lists

def push (l : Lists U K C B) (x : Cont K C B) (u : U) : Lists U K C B :=
  Function.update l x (l x ++ [u])

/-- The first `n` elements of `src` go to the end of `dst`. -/
def move (l : Lists U K C B) (dst src : Cont K C B) (n : ℕ) : Lists U K C B :=
  Function.update (Function.update l src ((l src).drop n)) dst (l dst ++ (l src).take n)

/-- The first element of `x`, if there is one, is taken out. -/
def tryPop (l : Lists U K C B) (x : Cont K C B) : Res U × Lists U K C B :=
  match l x with
  | u :: us => (.elem u, Function.update l x us)
  | [] => (.none, l)

/-- The first element of `x` is taken out. -/
def pop (l : Lists U K C B) (x : Cont K C B) : Option (Res U × Lists U K C B) :=
  match l x with
  | u :: us => some (.elem u, Function.update l x us)
  | [] => none

/-- The operations; `none` where the container must not be empty and is. -/
def exec (l : Lists U K C B) : Op U K C B → Option (Res U × Lists U K C B)
  | .none => some (.none, l)
  | .runPush k u => some (.none, l.push (.runQueue k) u)
  | .runPop k => some (l.tryPop (.runQueue k))
  | .push q u => some (.none, l.push (.queue q) u)
  | .tryPop q => some (l.tryPop (.queue q))
  | .pop q => l.pop (.queue q)
  | .transferFrom dst src n =>
    if l (.queue src) = [] then none
    -- with `n` 0 one element is moved
    else some (.count (min n (l (.queue src)).length), l.move (.queue dst) (.queue src) (max n 1))
  | .transferAllFrom dst src =>
    if l (.queue src) = [] then none
    else some (.none, l.move (.queue dst) (.queue src) (l (.queue src)).length)
  | .removeAll q =>
    if l (.queue q) = [] then none else some (.none, l.move .chain (.queue q) (l (.queue q)).length)
  | .runPushChain k =>
    if l .chain = [] then none else some (.none, l.move (.runQueue k) .chain (l .chain).length)
  | .pushBack b u => some (.none, l.push (.bq b) u)
  | .tryPopFront b => some (l.tryPop (.bq b))
  | .cachePush u => some (.none, Function.update l .cache (u :: l .cache))
  | .cachePop => l.pop .cache

end Lists

def lists : Impl U K C B (Lists U K C B) := ⟨fun _ => [], fun op l => l.exec op⟩

end UThreads.Handover
