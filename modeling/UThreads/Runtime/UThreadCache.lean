import UThreads.Generic.IntrusiveStack
import UThreads.Runtime.KThread
import Mathlib.Data.BitVec
import Mathlib.Data.Set.Card

/-!
# `uThreadCache`, `uThread::create` and `uThread::destory`

Terminated uThreads are kept in a cache, an `IntrusiveStack` under a mutex that is only tried.
`create` takes a uThread from the cache or allocates one; `destory` puts it into the cache or frees
it. `totalNumberofUTs` is adjusted on all of these paths.

**Objects.** A uThread object stands at an address. `malloc` gives memory that is not in use
(`blocks`); a freed object's address may be used again. The objects of `createMainUT` have no stack
of their own (`stackBottom` 0).

**Operations.** `create`, `destory` and the start of a kThread are one step each. The outcome of
each `try_lock` is free. While a uThread is in use, its state, its clusters and its link change
freely (`use`).

**Bookkeeping.** `made` says that an object was made at an address, and `live`, `main` and `freed`
what has become of it. `freed` says that `destory` has gone through `free(stackBottom)`, after which
the object is used no more; where `stackBottom` is 0 this returns no memory. `pushedAt` is the time
at which a uThread was pushed to the cache; `asked` lists the stack sizes that `create` was called
with, the call for the default `mainUT` apart.
-/

namespace UThreads.UThreadCache

/-- `uThread::JState` -/
inductive JState
  | detached
  | joinable
  | joining
  deriving DecidableEq

structure UThread (K C : Type*) where
  state : Runtime.UState
  jState : JState
  currentCluster : Option C
  homekThread : Option K
  stackBottom : BitVec 64
  stackSize : BitVec 64
  deriving DecidableEq

/-- The address of an object. -/
abbrev Addr := {a : BitVec 64 // a ≠ 0}

structure State (K C : Type*) where
  ut : Addr → UThread K C
  next : Addr → Option Addr
  stack : IntrusiveStack Addr
  count : ℕ
  totalNumberofUTs : BitVec 64
  blocks : List (BitVec 64)
  made : Addr → Bool
  live : Addr → Bool
  main : Addr → Bool
  freed : Addr → Bool
  pushedAt : Addr → ℕ
  clock : ℕ
  asked : List (BitVec 64)

variable {K C : Type*}

/-- `uThread(sb, ss)` -/
def newUT (sb ss : BitVec 64) : UThread K C where
  state := .initialized
  jState := .detached
  currentCluster := none
  homekThread := none
  stackBottom := sb
  stackSize := ss

/-- `reset()` -/
def UThread.reset (x : UThread K C) : UThread K C :=
  { x with state := .initialized, jState := .detached, currentCluster := none, homekThread := none }

namespace State

variable (s : State K C)

/-- The uThreads in the cache, from the top of the stack down. -/
def cached : List Addr := walk s.next s.count s.stack.head

/-- No object stands at this address. -/
def fresh (u : Addr) : Bool := !s.live u && !s.cached.contains u

/-- The constructor of an object at `u`. -/
def construct (u : Addr) (x : UThread K C) : State K C :=
  { s with
    ut := Function.update s.ut u x
    next := Function.update s.next u none
    totalNumberofUTs := s.totalNumberofUTs + 1
    made := Function.update s.made u true
    live := Function.update s.live u true
    main := Function.update s.main u false
    freed := Function.update s.freed u false }

end State

/-! ## The cache -/

/-- `uThreadCache::push(ut)`, with the outcome of `try_lock`; `none` is the result -1. -/
def push (size : ℕ) (lock : Bool) (u : Addr) (s : State K C) : Option (State K C) :=
  if lock = false ∨ s.count = size then none
  else
    let (next, stack) := s.stack.push s.next u
    some { s with
      ut := Function.update s.ut u (s.ut u).reset
      next := next
      stack := stack
      count := s.count + 1
      pushedAt := Function.update s.pushedAt u s.clock
      clock := s.clock + 1 }

/-- What `uThreadCache::pop()` returns, and the state after it; `none` where it would go through a
null pointer. -/
def pop (lock : Bool) (s : State K C) : Option (Option Addr × State K C) :=
  if lock = false ∨ s.count = 0 then some (none, s)
  else (s.stack.pop s.next).map fun (u, next, stack) =>
    (some u, { s with count := s.count - 1, next := next, stack := stack })

/-! ## uThreads -/

/-- `if(joinable) ut->jState = JState::JOINABLE` -/
def State.setJoinable (s : State K C) (u : Addr) (joinable : Bool) : State K C :=
  if joinable then { s with ut := Function.update s.ut u { s.ut u with jState := .joinable } }
  else s

/-- `uThread::create(ss, joinable)`: the uThread it returns, and the state after it. When the cache
gives none, the object is made at `u` in the memory at `mem`. -/
def create (ss : BitVec 64) (joinable lock : Bool) (u : Addr) (mem : BitVec 64) (s : State K C) :
    Option (Addr × State K C) :=
  let s := { s with asked := ss :: s.asked }
  match pop lock s with
  | none => none
  | some (some v, s) =>
    some (v, { s with
      totalNumberofUTs := s.totalNumberofUTs + 1
      live := Function.update s.live v true }.setJoinable v joinable)
  | some (none, s) =>
    if s.fresh u = true ∧ mem ≠ 0 ∧ mem ∉ s.blocks then
      some (u, ({ s with blocks := mem :: s.blocks }.construct u (newUT mem ss)).setJoinable
        u joinable)
    else none

/-- `free(stackBottom)` -/
def State.free (s : State K C) (u : Addr) : State K C :=
  { s with
    blocks := s.blocks.erase (s.ut u).stackBottom
    freed := Function.update s.freed u true }

/-- `uThread::destory(force)` -/
def destory (size : ℕ) (force lock : Bool) (u : Addr) (s : State K C) : State K C :=
  let s := { s with
    totalNumberofUTs := s.totalNumberofUTs - 1
    live := Function.update s.live u false }
  if force then s.free u
  else
    match push size lock u s with
    | some s => s
    | none => s.free u

/-- `createMainUT(c)`, and the rest of `initializeMainUT(false)` -/
def newMainUT (u : Addr) (c : C) (s : State K C) : State K C :=
  let s := s.construct u
    { (newUT 0 0 : UThread K C) with state := .running, currentCluster := some c }
  { s with
    totalNumberofUTs := s.totalNumberofUTs - 1
    main := Function.update s.main u true }

/-! ## The machine -/

inductive Action (K C : Type*)
  | create (ss : BitVec 64) (joinable lock : Bool) (u : Addr) (mem : BitVec 64)
  | destory (u : Addr) (force lock : Bool)
  /-- a kThread of cluster `c` starts, with its `mainUT` at `u` -/
  | startkThread (u : Addr) (c : C)
  /-- a uThread in use gets other values, but keeps its stack -/
  | use (u : Addr) (x : UThread K C) (link : Option Addr)

/-- The size limit of the cache is `size`. -/
def step (size : ℕ) (s : State K C) : Action K C → Option (State K C)
  | .create ss joinable lock u mem => (create ss joinable lock u mem s).map Prod.snd
  | .destory u force lock =>
    if s.live u = true ∧ s.main u = false then some (destory size force lock u s) else none
  | .startkThread u c => if s.fresh u then some (newMainUT u c s) else none
  | .use u x link =>
    if s.live u then
      some { s with
        ut := Function.update s.ut u
          { x with stackBottom := (s.ut u).stackBottom, stackSize := (s.ut u).stackSize }
        next := Function.update s.next u link }
    else none

def defaultStackSize : BitVec 64 := 8 * 1024

/-- `kThread()`: the `mainUT` of the default kThread, made by `create`, and `initUT`. -/
def initial (mainUT initUT : Addr) (mem : BitVec 64) (k : K) (c : C) : State K C where
  ut := Function.update (Function.update (fun _ => newUT 0 0) mainUT
    { (newUT mem defaultStackSize : UThread K C) with state := .ready }) initUT
    { (newUT 0 0 : UThread K C) with currentCluster := some c, homekThread := some k }
  next := fun _ => none
  stack := .new
  count := 0
  totalNumberofUTs := 1
  blocks := [mem]
  made := fun u => u = mainUT ∨ u = initUT
  live := fun u => u = mainUT ∨ u = initUT
  main := fun u => u = mainUT
  freed := fun _ => false
  pushedAt := fun _ => 0
  clock := 0
  asked := []

def machine (K C : Type*) (size : ℕ) : Machine (State K C) (Action K C) where
  init := fun s => ∃ mainUT initUT mem k c, mainUT ≠ initUT ∧ mem ≠ 0 ∧
    s = initial mainUT initUT mem k c
  step := step size

end UThreads.UThreadCache
