import UThreads.Generic.IntrusiveQueue
import UThreads.Io.IOHandler

/-!
# `PollCache`: the model

`PollData` objects are recycled: a new `Connection` takes one from the cache, and `IOHandler::close`
puts it back. The flag `closing` is to elect one of several concurrent `close` calls on a
connection, but `reset` clears it before the object is back in the cache.

**The agents.** `C` is the type of the `Connection` objects, and `T` that of the threads that call
`close`: `closer t` is the connection that `t` closes and its position. Every access to a field of a
`PollData` is a step of its own. The two functions of `PollCache` hold a mutex and are one step
each.

**Objects.** A `PollData` is named by the number of its allocation, and `fresh` is the next one.
`conn c` is the `pd` of connection `c`, which keeps its value when the connection is closed.

**The others.** The poller and the uThreads that read and write may give the slots and `opened` of
an allocated object any value at any time.

**Bookkeeping.** `phase c` tells how far the connection has come, and `tried c` and `passed c` count
the `close` calls on it that came to the check of `closing`, and that passed it.
-/

namespace UThreads.PollCache

open IOHandler (Dir Slot Unblock Closer)

structure PollData where
  /-- `rut` and `wut` -/
  slot : Dir → Slot Dir
  closing : Bool
  opened : Bool

namespace PollData

/-- The constructor. -/
def new : PollData := ⟨fun _ => .null, false, false⟩

def setSlot (d : PollData) (utp : Dir) (x : Slot Dir) : PollData :=
  { d with slot := Function.update d.slot utp x }

/-- The next step of a thread in `unblock`, and where it comes to. -/
def unblock (d : PollData) (u : Unblock Dir) : PollData × Unblock Dir :=
  let r := Unblock.step d.closing (d.slot, u)
  ({ d with slot := r.1 }, r.2)

/-- The next step of `close` on the object, up to `pushPollData`. -/
def close (d : PollData) : Closer → PollData × Closer
  | .idle => (d, .testRut)
  | .testRut =>
    (d, if (d.slot .read).ut?.isSome then .unblockRut (.closing .read) else .testWut)
  | .unblockRut (.ret _) => (d, .testWut)
  | .unblockRut u => ((d.unblock u).1, .unblockRut (d.unblock u).2)
  -- the condition is followed by an empty statement
  | .testWut => (d, .unblockWut (.closing .read))
  | .unblockWut (.ret _) => (d, .cas)
  | .unblockWut u => ((d.unblock u).1, .unblockWut (d.unblock u).2)
  | .cas => if d.closing then (d, .done) else ({ d with closing := true }, .delete)
  | .delete => (d, .resetRut)
  | .resetRut => (d.setSlot .read .null, .resetWut)
  | .resetWut => (d.setSlot .write .null, .resetClosing)
  | .resetClosing => ({ d with closing := false }, .resetOpened)
  | .resetOpened => ({ d with opened := false }, .recycle)
  | .recycle | .done => (d, .done)

/-- The fields of the `PollData` in `Io.IOHandler`, the model of one connection. -/
def of {K : Type*} (s : IOHandler.State K) : PollData := ⟨s.slot, s.closing, s.opened⟩

section

variable {K : Type*} [DecidableEq K] {home : Dir → K} {s s' : IOHandler.State K}

/-- A step of `unblock` there is one here. -/
theorem unblock_of (home : Dir → K) (u : Unblock Dir) :
    (of s).unblock u = (of (IOHandler.unblock home s u).1, (IOHandler.unblock home s u).2) := by
  have hslots := IOHandler.unblock_slots home s u
  have hsame : (IOHandler.unblock home s u).1.closing = s.closing ∧
      (IOHandler.unblock home s u).1.opened = s.opened := by
    cases u with
    | cas utp old =>
      simp only [IOHandler.unblock]
      split_ifs
      · cases old <;> exact ⟨rfl, rfl⟩
      · exact ⟨rfl, rfl⟩
    | closing | read | push | pushing | ret => exact ⟨rfl, rfl⟩
  simp only [unblock, of, ← hslots, hsame.1, hsame.2]

/-- A step of `close` there is one here. -/
theorem close_of (hs : IOHandler.close home s = some s') :
    (of s).close s.closer = (of s', s'.closer) := by
  unfold IOHandler.close at hs
  cases hc : s.closer with
  | unblockRut u | unblockWut u =>
    cases u with
    | ret res =>
      simp only [hc] at hs
      cases hs
      rfl
    | _ =>
      simp only [hc] at hs
      cases hs
      simp only [close, unblock_of home]
      rfl
  | cas =>
    simp only [hc] at hs
    cases hs
    simp only [close]
    by_cases hcl : s.closing = true <;> simp [of, hcl]
  | done => simp [hc] at hs
  | _ =>
    simp only [hc] at hs
    cases hs
    rfl

end

end PollData

/-- How far a connection has come. -/
inductive Phase
  /-- not constructed -/
  | none
  | opened
  /-- a `close` call has passed the check of `closing` -/
  | closing
  /-- it has cleared `closing` -/
  | reset
  /-- it has put the object in the cache -/
  | closed
  deriving DecidableEq

structure State (C T : Type*) where
  pd : ℕ → PollData
  next : ℕ → Option ℕ
  cache : IntrusiveQueue ℕ
  fresh : ℕ
  conn : C → Option ℕ
  closer : T → Option (C × Closer)
  phase : C → Phase
  tried : C → ℕ
  passed : C → ℕ

variable {C T : Type*} [DecidableEq C] [DecidableEq T]

def initial : State C T where
  pd := fun _ => .new
  next := fun _ => none
  cache := .new
  fresh := 0
  conn := fun _ => none
  closer := fun _ => none
  phase := fun _ => .none
  tried := fun _ => 0
  passed := fun _ => 0

/-- `new PollData()`, and the push of it on the cache. -/
def allocate (s : State C T) : Option (State C T) :=
  (s.cache.push (Function.update s.next s.fresh none) s.fresh).map fun r =>
    { s with
      pd := Function.update s.pd s.fresh .new
      next := r.1
      cache := r.2
      fresh := s.fresh + 1 }

/-- The loop of `getPollData`, with `n` rounds to go. -/
def fill : ℕ → State C T → Option (State C T)
  | 0, s => some s
  | n + 1, s => (allocate s).bind (fill n)

/-- `getPollData()` -/
def getPollData (s : State C T) : Option (ℕ × State C T) :=
  (if s.cache.head = none then fill 128 s else some s).bind fun s =>
    (s.cache.pop s.next).map fun r => (r.1, { s with next := r.2.1, cache := r.2.2 })

/-- `pushPollData(pd)` -/
def pushPollData (p : ℕ) (s : State C T) : Option (State C T) :=
  (s.cache.push s.next p).map fun r => { s with next := r.1, cache := r.2 }

/-- Thread `t` comes to `x` in `close` on connection `c`. -/
def State.goto (s : State C T) (t : T) (c : C) (x : Closer) : State C T :=
  { s with closer := Function.update s.closer t (some (c, x)) }

/-- Thread `t`, in `close` on connection `c` with the object `p`, takes the step at `x`. -/
def closeStep (t : T) (c : C) (p : ℕ) (s : State C T) : Closer → Option (State C T)
  | .cas =>
    let r := (s.pd p).close .cas
    let s := { s with
      pd := Function.update s.pd p r.1
      tried := Function.update s.tried c (s.tried c + 1) }.goto t c r.2
    some (if r.2 = .delete then
      { s with
        phase := Function.update s.phase c .closing
        passed := Function.update s.passed c (s.passed c + 1) }
      else s)
  | .resetClosing =>
    some ({ s with
      pd := Function.update s.pd p ((s.pd p).close .resetClosing).1
      phase := Function.update s.phase c .reset }.goto t c .resetOpened)
  | .recycle =>
    (pushPollData p s).map fun s =>
      { s with phase := Function.update s.phase c .closed }.goto t c .done
  -- `close` returns
  | .done => some { s with closer := Function.update s.closer t none }
  | x =>
    some ({ s with pd := Function.update s.pd p ((s.pd p).close x).1 }.goto t c
      ((s.pd p).close x).2)

inductive Action (C T : Type*)
  /-- Connection `c` is constructed. -/
  | construct (c : C)
  /-- Thread `t` calls `close` on connection `c`. -/
  | close (t : T) (c : C)
  /-- A step of thread `t`. -/
  | run (t : T)
  /-- The poller or a uThread writes fields of object `p`. -/
  | write (p : ℕ) (slot : Dir → Slot Dir) (opened : Bool)

def step (s : State C T) : Action C T → Option (State C T)
  | .construct c =>
    if s.conn c = none then
      (getPollData s).map fun r =>
        { r.2 with
          conn := Function.update s.conn c (some r.1)
          phase := Function.update s.phase c .opened }
    else none
  | .close t c =>
    match s.closer t, s.conn c with
    | none, some _ => some (s.goto t c .idle)
    | _, _ => none
  | .run t =>
    match s.closer t with
    | none => none
    | some (c, x) =>
      match s.conn c with
      | none => none
      | some p => closeStep t c p s x
  | .write p slot opened =>
    if p < s.fresh then
      some { s with pd := Function.update s.pd p { s.pd p with slot := slot, opened := opened } }
    else none

def machine (C T : Type*) [DecidableEq C] [DecidableEq T] : Machine (State C T) (Action C T) where
  init := fun s => s = initial
  step := step

end UThreads.PollCache
