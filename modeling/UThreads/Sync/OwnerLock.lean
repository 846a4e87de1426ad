import UThreads.Sync.Mutex

/-!
# `OwnerLock`

The recursive lock of `runtime/BlockingSync.h`: a `Mutex` whose owner may acquire it again, with a
`counter` of the acquisitions still to be released. `acquire` is `internalAcquire<true>` and then
`++counter`, outside the internal lock; `release` decrements the counter under the internal lock
and calls `internalRelease` when it comes to 0.

**The agents.** `base` is the state of the inherited `Mutex`; its code runs on the kThreads as
there. `rel k` is the position of kThread `k` in `release` before `internalRelease`, and `pos u`
says which call uThread `u` is in. `++counter` and `return counter` are steps of the uThread.

**Bookkeeping.** `depth u` is the nesting depth of the calls of `u`: one more when `acquire`
returns, one less when `release` is called. `incs u` and `decs u` count the steps `++counter` and
`--counter` of `u` since it last obtained the lock. `arrivals` lists the uThreads in the order in
which they took the internal lock in `acquire` without owning the lock, `grants` in the order in
which they became its owner. `result u` is what the last call of `u` returned.
-/

namespace UThreads.OwnerLock

variable {K U : Type*} [DecidableEq K] [DecidableEq U]

/-- The call a uThread is in. -/
inductive Pos
  | user
  /-- in `acquire` -/
  | acquire
  /-- in `release`, before `--counter` -/
  | release
  /-- in `release`, after `--counter` -/
  | released
  deriving DecidableEq

/-- The position of a kThread in `release`, and the uThread it acts for. -/
inductive Rel (U : Type*)
  | idle
  /-- `lock.lock()` -/
  | lock (u : U)
  /-- `if (--counter == 0)` -/
  | dec (u : U)
  /-- `else lock.unlock()` -/
  | unlock (u : U)
  deriving DecidableEq

structure State (K U : Type*) where
  base : Mutex.State K U
  counter : BitVec 64
  rel : K → Rel U
  pos : U → Pos
  result : U → BitVec 64
  depth : U → ℕ
  incs : U → ℕ
  decs : U → ℕ
  arrivals : List U
  grants : List U

/-- The constructor: `counter(0)`. -/
def initial : State K U where
  base := Mutex.initial
  counter := 0
  rel := fun _ => .idle
  pos := fun _ => .user
  result := fun _ => 0
  depth := fun _ => 0
  incs := fun _ => 0
  decs := fun _ => 0
  arrivals := []
  grants := []

namespace State

variable (s : State K U)

def setPos (u : U) (p : Pos) : State K U := { s with pos := Function.update s.pos u p }

def setRel (k : K) (r : Rel U) : State K U := { s with rel := Function.update s.rel k r }

/-- The mutex comes to `b` by a step of kThread `k`. The bookkeeping notes who arrives, and who
becomes the owner. -/
def onBase (k : K) (b : Mutex.State K U) : State K U where
  base := b
  counter := s.counter
  rel := s.rel
  pos := s.pos
  result := s.result
  depth := s.depth
  incs := fun u => if b.owner = some u ∧ s.base.owner ≠ some u then 0 else s.incs u
  decs := fun u => if b.owner = some u ∧ s.base.owner ≠ some u then 0 else s.decs u
  arrivals :=
    match s.base.act k with
    | .acqLock u => if s.base.owner = some u then s.arrivals else s.arrivals ++ [u]
    | _ => s.arrivals
  grants := if b.owner = s.base.owner then s.grants else s.grants ++ b.owner.toList

/-- `++counter`, executed by `u`. -/
def incr (u : U) : State K U :=
  { s with
    counter := s.counter + 1
    incs := Function.update s.incs u (s.incs u + 1)
    depth := Function.update s.depth u (s.depth u + 1)
    result := Function.update s.result u (s.counter + 1) }

/-- `--counter`, executed by `u`. -/
def decr (u : U) : State K U :=
  { s with
    counter := s.counter - 1
    decs := Function.update s.decs u (s.decs u + 1) }

end State

/-- The next step of kThread `k`. -/
def run (k : K) (s : State K U) : Option (State K U) :=
  match s.rel k with
  | .idle => (Mutex.run true k s.base).map (s.onBase k)
  | .lock u =>
    if s.base.lock = none then
      some ({ s with base := { s.base with lock := some k } }.setRel k (.dec u))
    else none
  | .dec u =>
    let s := (s.decr u).setPos u .released
    -- `internalRelease` is entered with the lock held
    if s.counter = 0 then some ({ s with base := s.base.goto k (.relTest u) }.setRel k .idle)
    else some (s.setRel k (.unlock u))
  | .unlock u =>
    some ({ s with base := { s.base with lock := none }.setStatus u .inside }.setRel k .idle)

inductive Action (K U : Type*)
  /-- uThread `u` calls `acquire` on kThread `k`. -/
  | acquire (k : K) (u : U)
  /-- uThread `u` calls `release` on kThread `k`. -/
  | release (k : K) (u : U)
  /-- A step of kThread `k`. -/
  | run (k : K)
  /-- A kThread switches to `u`, and its `internalAcquire` returns. -/
  | dispatch (u : U)
  /-- uThread `u` executes `return ++counter`. -/
  | incr (u : U)
  /-- uThread `u` executes `return counter`. -/
  | ret (u : U)

/-- Calls are properly nested: a uThread calls `release` only at a depth above 0. -/
def step (s : State K U) : Action K U → Option (State K U)
  | .acquire k u =>
    if s.base.act k = .idle ∧ s.rel k = .idle ∧ s.pos u = .user then
      some ({ s with base := (s.base.setStatus u .acquiring).goto k (.acqLock u) }.setPos
        u .acquire)
    else none
  | .release k u =>
    if s.base.act k = .idle ∧ s.rel k = .idle ∧ s.pos u = .user ∧ 0 < s.depth u then
      some ({ s with
        base := s.base.setStatus u .releasing
        depth := Function.update s.depth u (s.depth u - 1) }.setPos u .release |>.setRel k
          (.lock u))
    else none
  | .run k => run k s
  | .dispatch u =>
    if s.base.status u = .ready then some { s with base := s.base.setStatus u .inside } else none
  | .incr u =>
    if s.pos u = .acquire ∧ s.base.status u = .inside then some ((s.incr u).setPos u .user)
    else none
  | .ret u =>
    if s.pos u = .released ∧ (s.base.status u = .out ∨ s.base.status u = .inside) then
      some ({ s with result := Function.update s.result u s.counter }.setPos u .user)
    else none

def machine (K U : Type*) [DecidableEq K] [DecidableEq U] : Machine (State K U) (Action K U) where
  init := fun s => s = initial
  step := step

end UThreads.OwnerLock
