import UThreads.Lib.Machine
import UThreads.Lib.Word
import UThreads.Lib.GapChain

/-!
# `BlockingMPSCQueue`: the model

The multi-producer single-consumer queue of `generic/IntrusiveContainers.h`. Producers call
`push`, one consumer calls `pop`; every access to shared memory is a step of its own, and the
steps of all threads interleave freely.

**The store.** A node is known by its address, a machine word. `next` is the `Link::next` field
of every node, `head` and `tail` are the fields of the queue. The low bit of `tail` is the mark
that says the queue is empty.

**The threads.** `insert` runs in any producer and, to put the stub back, in the consumer: its
position is `ins t`, with `t = some p` for producer `p` and `t = none` for the consumer. The
consumer's position in `pop` is `pop`.

**Bookkeeping.** `place` says who has each node: a node may be pushed when it is `free`, that is,
when it was never pushed or `pop` has returned it. `pushed` are the elements in the order of
their producers' exchanges, `results` the values `pop` has returned.
-/

namespace UThreads.BlockingMPSCQueue

variable {P : Type*} [DecidableEq P]

/-- Who has a node. -/
inductive Place (P : Type*)
  | free
  | pushing (p : P)
  | queued
  | popping
  | stub
  deriving DecidableEq

/-- The position of a thread in `insert(first, last)`. The nodes from `first` to `last` are
`chain`. -/
inductive Insert
  | idle
  /-- `last.next = nullptr` -/
  | clear (first last : Word) (chain : List Word)
  /-- `prev = tail.exchange(&last)` -/
  | exchange (first last : Word) (chain : List Word)
  /-- `prev->next = &first; return was_empty` -/
  | link (prev first : Word) (wasEmpty : Bool)
  deriving DecidableEq

/-- The position of the consumer in `pop()`. -/
inductive Pop
  | idle
  /-- `if (head == &stub)` -/
  | readHead
  /-- `ttail = tail; if ((ttail & 1) != 0) return nullptr` -/
  | readTail
  /-- `if (tail.compare_exchange_strong(expected, xchg)) return nullptr` -/
  | cas
  /-- `while (stub.next == nullptr)` -/
  | waitStub
  /-- `head = stub.next` -/
  | takeStub
  /-- `insert(stub, stub)` -/
  | reinsert
  /-- `while (head->next == nullptr)` -/
  | waitHead
  /-- `l = head; head = head->next` -/
  | advance
  /-- `l->next = nullptr; return l` -/
  | clear (l : Word)
  deriving DecidableEq

structure State (P : Type*) where
  head : Word
  tail : Word
  next : Word → Word
  ins : Option P → Insert
  pop : Pop
  place : Word → Place P
  pushed : List Word
  results : List (Option Word)

/-- The elements `pop` has returned. -/
def State.popped (s : State P) : List Word := s.results.filterMap id

/-- The constructor: `tail` is the marked stub, `head` the stub. -/
def initial (stub : Word) : State P where
  head := stub
  tail := stub.mark
  next := fun _ => 0#64
  ins := fun _ => .idle
  pop := .idle
  place := fun a => if a = stub then .stub else .free
  pushed := []
  results := []

/-- `push(first, last)` on a linked chain of free nodes; `push(elem)` is the chain `[elem]`. -/
def push (p : P) (chain : List Word) (s : State P) : Option (State P) :=
  match chain.head?, chain.getLast? with
  | some first, some last =>
    if s.ins (some p) = .idle ∧ chain.Nodup ∧ chain.all (fun a => a.IsAddr ∧ s.place a = .free) ∧
        chain.IsChain (fun a b => s.next a = b) then
      some { s with
        ins := Function.update s.ins (some p) (.clear first last chain)
        place := fun a => if a ∈ chain then .pushing p else s.place a }
    else none
  | _, _ => none

/-- An exchange by a producer puts its chain in the queue; the consumer's only moves the stub. -/
def enqueue (t : Option P) (chain : List Word) (s : State P) : State P :=
  match t with
  | some _ => { s with
      place := fun a => if a ∈ chain then .queued else s.place a
      pushed := s.pushed ++ chain }
  | none => s

/-- The next step of thread `t` in `insert`. -/
def insert (t : Option P) (s : State P) : Option (State P) :=
  match s.ins t with
  | .idle => none
  | .clear first last chain => some { s with
      next := Function.update s.next last 0#64
      ins := Function.update s.ins t (.exchange first last chain) }
  | .exchange first last chain =>
    let prev := s.tail
    some { enqueue t chain s with
      tail := last
      ins := Function.update s.ins t (.link prev.unmark first prev.marked) }
  | .link prev first _ => some { s with
      next := Function.update s.next prev first
      ins := Function.update s.ins t .idle }

/-- `pop` returns `r`. -/
def State.ret (s : State P) (r : Option Word) : State P :=
  { s with pop := .idle, results := s.results ++ [r] }

/-- The next step of the consumer in `pop`. -/
def popStep (stub : Word) (s : State P) : Option (State P) :=
  match s.pop with
  | .idle => some { s with pop := .readHead }
  | .readHead => some { s with pop := if s.head = stub then .readTail else .waitHead }
  | .readTail => some (if s.tail.marked then s.ret none else { s with pop := .cas })
  | .cas =>
    some (if s.tail = stub then { s.ret none with tail := stub.mark }
      else { s with pop := .waitStub })
  | .waitStub => some { s with pop := if s.next stub = 0#64 then .waitStub else .takeStub }
  | .takeStub => some { s with
      head := s.next stub
      ins := Function.update s.ins none (.clear stub stub [stub])
      pop := .reinsert }
  | .reinsert => if s.ins none = .idle then some { s with pop := .waitHead } else none
  | .waitHead => some { s with pop := if s.next s.head = 0#64 then .waitHead else .advance }
  | .advance => some { s with
      head := s.next s.head
      pop := .clear s.head
      place := Function.update s.place s.head .popping }
  | .clear l => some { s.ret (some l) with
      next := Function.update s.next l 0#64
      place := Function.update s.place l .free }

inductive Action (P : Type*)
  /-- The owner of a free node sets its link, to build a chain or otherwise. -/
  | write (a v : Word)
  /-- Producer `p` calls `push`. -/
  | push (p : P) (chain : List Word)
  /-- A step of `insert`. -/
  | insert (t : Option P)
  /-- A step of `pop`. -/
  | pop

def step (stub : Word) (s : State P) : Action P → Option (State P)
  | .write a v =>
    if s.place a = .free then some { s with next := Function.update s.next a v } else none
  | .push p chain => push p chain s
  | .insert t => insert t s
  | .pop => popStep stub s

/-- The queue with its stub at `stub`. -/
def machine (P : Type*) [DecidableEq P] (stub : Word.Addr) : Machine (State P) (Action P) where
  init := fun s => s = initial stub
  step := step stub

end UThreads.BlockingMPSCQueue
