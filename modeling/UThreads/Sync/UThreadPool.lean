import UThreads.Sync.ConditionVariable
import Mathlib.Algebra.Group.Nat.Defs

/-!
# `uThreadPool`: the model

A pool of worker uThreads with a `taskList`, a mutex and a condition variable. `uThreadExecute`
reads the atomic `idleuThreads` without the mutex: at 0 it creates a worker for the task, else it
queues the task and signals the condition variable. A worker runs its first task, and then, in a
loop, waits for a task and runs it; it counts itself idle from the end of one task to the moment it
takes the next.

**The agents.** `pos u` is the position of uThread `u` in the code of the pool. Any uThread that is
in no call may call `uThreadExecute`, a worker that runs a task included. The steps inside the mutex
and the condition variable are those of the machine `cv`.

**Tasks.** `F` is the type of the pairs `(func, args)`. A task carries the number of its submission,
so that two submissions of one pair are two tasks.

**Bookkeeping.** `submitted` lists the tasks in the order in which they were submitted, `workers`
the uThreads that `uThreadExecute` has created, `taken` the tasks that workers have taken, from
their argument or from `taskList`, and `ran` the tasks in the order in which `func(args)` was
called. `pending` counts the submitters that have decided to queue their task and have not done so
yet.
-/

namespace UThreads.UThreadPool

structure Task (F : Type*) where
  number : ℕ
  call : F
  deriving DecidableEq

/-- The position of a uThread in `uThreadExecute`. -/
inductive Submit (F : Type*)
  /-- `if (idleuThreads.load() == 0)` -/
  | load (t : Task F)
  /-- `uThread::create()`, `ut->start(...)` -/
  | create (t : Task F)
  /-- `totalnumuThreads++` -/
  | total
  /-- `mutex.acquire()`, the call -/
  | acquire (t : Task F)
  /-- in `mutex.acquire()` -/
  | acquiring (t : Task F)
  /-- `taskList.emplace(func, args)` -/
  | push (t : Task F)
  /-- `cv.signal(mutex)`, the call -/
  | signal
  /-- in `cv.signal(mutex)` -/
  | signalling
  deriving DecidableEq

/-- The position of a worker in `run`. -/
inductive Work (F : Type*)
  /-- created, with its argument -/
  | created (t : Task F)
  /-- `func(args)` -/
  | running (t : Task F)
  /-- `idleuThreads++` -/
  | incr
  /-- `mutex.acquire()`, the call -/
  | acquire
  /-- in `mutex.acquire()` -/
  | acquiring
  /-- `while (taskList.empty())` -/
  | test
  /-- in `cv.wait(mutex)` -/
  | wait
  /-- `idleuThreads--` -/
  | decr
  /-- `task = taskList.front(); taskList.pop()` -/
  | take
  /-- `mutex.release()`, the call -/
  | release (t : Task F)
  /-- in `mutex.release()` -/
  | releasing (t : Task F)
  deriving DecidableEq

/-- The position of a uThread. -/
inductive Pos (F : Type*)
  /-- in no code of the pool -/
  | user
  | work (x : Work F)
  /-- in `uThreadExecute`, called from a task or not -/
  | submit (from? : Option (Task F)) (x : Submit F)
  deriving DecidableEq

/-- Where `uThreadExecute` returns to. -/
def Pos.back {F : Type*} : Option (Task F) → Pos F
  | none => .user
  | some t => .work (.running t)

structure State (K U F : Type*) where
  /-- `mutex` and `cv` -/
  cv : ConditionVariable.State K U
  taskList : List (Task F)
  idleuThreads : BitVec 32
  totalnumuThreads : BitVec 32
  pos : U → Pos F
  submitted : List (Task F)
  workers : List U
  taken : List (Task F × U)
  ran : List (Task F)
  pending : ℕ

variable {K U F : Type*} [DecidableEq K] [DecidableEq U]

/-- The constructor. -/
def initial : State K U F where
  cv := ConditionVariable.initial
  taskList := []
  idleuThreads := 0
  totalnumuThreads := 0
  pos := fun _ => .user
  submitted := []
  workers := []
  taken := []
  ran := []
  pending := 0

namespace State

variable (s : State K U F)

/-- The task of the next submission. -/
def newTask (f : F) : Task F := ⟨s.submitted.length, f⟩

/-- uThread `u` comes to `x`. -/
def goto (u : U) (x : Pos F) : State K U F := { s with pos := Function.update s.pos u x }

/-- A call on the mutex or the condition variable, after which `u` is at `x`. -/
def onCv (a : ConditionVariable.Action K U) (u : U) (x : Pos F) : Option (State K U F) :=
  (ConditionVariable.step s.cv a).map fun c => { s with cv := c }.goto u x

/-- `u` comes to `x` when its call on the mutex or the condition variable is at `p`. -/
def await (u : U) (p : ConditionVariable.Pc) (x : Pos F) : Option (State K U F) :=
  if s.cv.pc u = p then some (s.goto u x) else none

end State

/-- The next step of uThread `u` in `uThreadExecute`, on kThread `k`. The creation of a worker is an
action of its own. -/
def submit (k : K) (u : U) (b : Option (Task F)) (s : State K U F) : Submit F → Option (State K U F)
  | .load t =>
    if s.idleuThreads = 0 then some (s.goto u (.submit b (.create t)))
    else some ({ s with pending := s.pending + 1 }.goto u (.submit b (.acquire t)))
  | .create _ => none
  | .total => some ({ s with totalnumuThreads := s.totalnumuThreads + 1 }.goto u (.back b))
  | .acquire t => s.onCv (.acquire k u) u (.submit b (.acquiring t))
  | .acquiring t => s.await u .own (.submit b (.push t))
  | .push t =>
    some ({ s with taskList := s.taskList ++ [t], pending := s.pending - 1 }.goto u
      (.submit b .signal))
  | .signal => s.onCv (.signal u) u (.submit b .signalling)
  | .signalling => s.await u .out (.back b)

/-- The next step of worker `u` in `run`, on kThread `k`. -/
def work (k : K) (u : U) (s : State K U F) : Work F → Option (State K U F)
  | .created t =>
    some ({ s with taken := s.taken ++ [(t, u)], ran := s.ran ++ [t] }.goto u (.work (.running t)))
  | .running _ => some (s.goto u (.work .incr))
  | .incr => some ({ s with idleuThreads := s.idleuThreads + 1 }.goto u (.work .acquire))
  | .acquire => s.onCv (.acquire k u) u (.work .acquiring)
  | .acquiring => s.await u .own (.work .test)
  | .test =>
    if s.taskList = [] then s.onCv (.wait u) u (.work .wait) else some (s.goto u (.work .decr))
  | .wait => s.await u .own (.work .test)
  | .decr => some ({ s with idleuThreads := s.idleuThreads - 1 }.goto u (.work .take))
  | .take =>
    match s.taskList with
    | [] => none
    | t :: ts =>
      some ({ s with taskList := ts, taken := s.taken ++ [(t, u)] }.goto u (.work (.release t)))
  | .release t => s.onCv (.release u) u (.work (.releasing t))
  | .releasing t =>
    ({ s with ran := s.ran ++ [t] } : State K U F).await u .out (.work (.running t))

inductive Action (K U F : Type*)
  /-- uThread `u` calls `uThreadExecute(func, args)`. -/
  | execute (u : U) (f : F)
  /-- A step of uThread `u`, on kThread `k`. -/
  | run (k : K) (u : U)
  /-- uThread `u`, in `uThreadExecute`, creates and starts the worker `w`, a uThread in no code of
  the pool. -/
  | create (u w : U)
  /-- A step inside the mutex or the condition variable. -/
  | cv (a : ConditionVariable.Action K U)

def step (s : State K U F) : Action K U F → Option (State K U F)
  | .execute u f =>
    match s.pos u with
    | .user =>
      some ({ s with submitted := s.submitted ++ [s.newTask f] }.goto u
        (.submit none (.load (s.newTask f))))
    | .work (.running t) =>
      some ({ s with submitted := s.submitted ++ [s.newTask f] }.goto u
        (.submit (some t) (.load (s.newTask f))))
    | _ => none
  | .run k u =>
    match s.pos u with
    | .user => none
    | .work x => work k u s x
    | .submit b x => submit k u b s x
  | .create u w =>
    match s.pos u, s.pos w with
    | .submit b (.create t), .user =>
      some (({ s with workers := s.workers ++ [w] }.goto w (.work (.created t))).goto u
        (.submit b .total))
    | _, _ => none
  | .cv a =>
    if a.internal then (ConditionVariable.step s.cv a).map fun c => { s with cv := c } else none

def machine (K U F : Type*) [DecidableEq K] [DecidableEq U] :
    Machine (State K U F) (Action K U F) where
  init := fun s => s = initial
  step := step

end UThreads.UThreadPool
