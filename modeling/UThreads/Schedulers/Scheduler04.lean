import UThreads.Lib.GapChain
import UThreads.Schedulers.Scheduler02

/-!
# `Scheduler_04`: the model

The scheduler with a non-intrusive run queue, `NIBlockingMPSCQueue`. The queue links nodes, not
uThreads. A uThread brings a node of its own to `schedule` and is given another one when it is
popped.

**The queue.** `head` points to a node whose value is used up; the queued uThreads are in the
nodes behind it. `pop` copies the value of `head->next` into the old head, returns the old head
and leaves `head->next` as the new one. The low bit of `tail` marks the queue empty.

**The recycling.** The kThread hands the node it kept from its last pop (`tmpNode`) to the popped
uThread, or a new one if it has none, and keeps the node that `pop` returned.

**The threads.** Any number of producers run `schedule`; `producer p` is the position of `p` in it.
Each scheduler has one kThread, with its position in `nonBlockingSwitch` or `blockingSwitch`. Every
access to shared memory is a step of its own.

**Bookkeeping.** `place` says where each uThread is: `schedule` is called on a `free` one. `queue`
are the nodes from the head to the tail, `pushed` the uThreads in the order of the exchanges, and
`results` what `pop` has returned: `nullptr`, or a node with its value.
-/

namespace UThreads.Scheduler04

open Scheduler02 (semValueMax)

variable {S U P : Type*} [DecidableEq S] [DecidableEq U] [DecidableEq P]

/-- The memory: a stub in each scheduler, and a heap for `new Node`. -/
structure Layout (S : Type*) where
  stub : S → Word
  heap : Word → Bool
  stub_addr : ∀ k, (stub k).IsAddr
  stub_injective : Function.Injective stub
  heap_addr : ∀ a, heap a = true → a.IsAddr
  stub_not_heap : ∀ k, heap (stub k) = false

/-- The position of a producer in `schedule(ut, kt)`. -/
inductive Schedule (S U : Type*)
  | idle
  /-- `node->setState(ut)` -/
  | setState (kt : S) (ut : U) (node : Word)
  /-- `ut->utvar->node = nullptr` -/
  | release (kt : S) (ut : U) (node : Word)
  /-- `last.next = nullptr` -/
  | clear (kt : S) (ut : U) (node : Word)
  /-- `prev = tail.exchange(&last)` -/
  | exchange (kt : S) (ut : U) (node : Word)
  /-- `prev->next = &first; return was_empty` -/
  | link (kt : S) (prev first : Word) (wasEmpty : Bool)
  /-- `if (push(*node)) sem.post()` -/
  | post (kt : S)
  deriving DecidableEq

/-- The function that pops; in `nonBlockingSwitch`, does the current uThread yield? -/
inductive Switch
  | nonBlocking (yield : Bool)
  | blocking
  deriving DecidableEq

/-- What a kThread is doing. -/
inductive Consumer (U : Type*)
  /-- It executes a uThread. -/
  | running
  /-- It executes `mainUT`, before its next `blockingSwitch`. -/
  | mainUT
  /-- In `blockingSwitch`, at `sem.wait()`. -/
  | wait
  /-- `next = head->next; if (next)` -/
  | readNext (w : Switch) (hhead : Word)
  /-- `head = next` -/
  | setHead (w : Switch) (hhead next : Word)
  /-- `hhead->state = next->state; return hhead` -/
  | copy (w : Switch) (hhead next : Word)
  /-- `ttail = tail; if ((ttail & 1) != 0) return nullptr; if (head != ttail)` -/
  | readTail (w : Switch) (hhead : Word)
  /-- `while (head->next == nullptr)` -/
  | spin (w : Switch) (hhead : Word)
  /-- `if (tail.compare_exchange_strong(expected, xchg)) return nullptr` -/
  | cas (w : Switch) (hhead : Word)
  /-- In `blockingSwitch`, at `while (!iohandler.sem.trywait())`. -/
  | leave (node : Word)
  /-- `ut = node->getState()` -/
  | getState (node : Word)
  /-- `ut->utvar->node = tmpNode`, or a new node -/
  | give (ut : U) (node : Word)
  /-- `tmpNode = node` -/
  | keep (ut : U) (node : Word)
  /-- It has dereferenced a null pointer. -/
  | crashed
  deriving DecidableEq

/-- Where a uThread is. -/
inductive Place (S P : Type*)
  /-- Not created yet. -/
  | fresh
  | free
  | scheduling (p : P)
  /-- In the queue of `kt`, in `node`. -/
  | queued (kt : S) (node : Word)
  | popping (kt : S)
  deriving DecidableEq

/-- A scheduler and its kThread. -/
structure Scheduler (U : Type*) where
  head : Word
  tail : Word
  tmpNode : Word
  sem : ℕ
  consumer : Consumer U
  queue : List Word
  pushed : List U
  results : List (Option (Option U))

/-- The values of the nodes `pop` has returned. -/
def Scheduler.popped (c : Scheduler U) : List (Option U) := c.results.filterMap id

structure State (S U P : Type*) where
  sched : S → Scheduler U
  /-- `Node::next` and `Node::state` -/
  next : Word → Word
  state : Word → Option U
  /-- `utvar->node` -/
  node : U → Word
  /-- `IOHandler::iohandler.sem`, shared with the poller. -/
  ioSem : ℕ
  producer : P → Schedule S U
  place : U → Place S P
  /-- The addresses `new Node` has returned. -/
  used : Word → Bool

/-- The scheduler's constructor, with `tail` the marked stub. -/
def newScheduler (stub : Word) (start : Consumer U) : Scheduler U where
  head := stub
  tail := stub.mark
  tmpNode := 0#64
  sem := 0
  consumer := start
  queue := [stub]
  pushed := []
  results := []

def initial (L : Layout S) (start : S → Consumer U) : State S U P where
  sched := fun k => newScheduler (L.stub k) (start k)
  next := fun _ => 0#64
  state := fun _ => none
  node := fun _ => 0#64
  ioSem := 0
  producer := fun _ => .idle
  place := fun _ => .fresh
  used := fun _ => false

/-! ## The producers -/

/-- `new Node(ut)`, at address `a`. -/
def State.newNode (s : State S U P) (a : Word) (ut : Option U) : State S U P :=
  { s with
    next := Function.update s.next a 0#64
    state := Function.update s.state a ut
    used := Function.update s.used a true }

/-- A uThread is created: `UTVar()` allocates its node. -/
def create (L : Layout S) (u : U) (a : Word) (s : State S U P) : Option (State S U P) :=
  if s.place u = .fresh ∧ L.heap a = true ∧ s.used a = false then
    some { s.newNode a none with
      node := Function.update s.node u a
      place := Function.update s.place u .free }
  else none

/-- Producer `p` calls `schedule(ut, kt)` and reads `node = ut->utvar->node`. -/
def schedule (p : P) (ut : U) (kt : S) (s : State S U P) : Option (State S U P) :=
  if s.producer p = .idle ∧ s.place ut = .free then
    some { s with
      producer := Function.update s.producer p (.setState kt ut (s.node ut))
      place := Function.update s.place ut (.scheduling p) }
  else none

/-- Scheduler and kThread `k` become `c`. -/
def State.set (s : State S U P) (k : S) (c : Scheduler U) : State S U P :=
  { s with sched := Function.update s.sched k c }

/-- `tail.exchange(&last)`: the node is the new end of the queue. -/
def Scheduler.exchange (c : Scheduler U) (ut : U) (node : Word) : Scheduler U :=
  { c with tail := node, queue := c.queue ++ [node], pushed := c.pushed ++ [ut] }

/-- The next step of producer `p` in `schedule`. -/
def scheduleStep (p : P) (s : State S U P) : Option (State S U P) :=
  match s.producer p with
  | .idle => none
  | .setState kt ut node => some { s with
      state := Function.update s.state node (some ut)
      producer := Function.update s.producer p (.release kt ut node) }
  | .release kt ut node => some { s with
      node := Function.update s.node ut 0#64
      producer := Function.update s.producer p (.clear kt ut node) }
  | .clear kt ut node => some { s with
      next := Function.update s.next node 0#64
      producer := Function.update s.producer p (.exchange kt ut node) }
  | .exchange kt ut node =>
    let c := s.sched kt
    some { s.set kt (c.exchange ut node) with
      producer := Function.update s.producer p (.link kt c.tail.unmark node c.tail.marked)
      place := Function.update s.place ut (.queued kt node) }
  | .link kt prev first wasEmpty => some { s with
      next := Function.update s.next prev first
      producer := Function.update s.producer p (if wasEmpty then .post kt else .idle) }
  | .post kt =>
    let c := s.sched kt
    -- `sem_post` fails at `SEM_VALUE_MAX` and is tried again
    if c.sem < semValueMax then
      some { s.set kt { c with sem := c.sem + 1 } with
        producer := Function.update s.producer p .idle }
    else some s

/-! ## The kThreads -/

/-- Where the caller of `pop` goes on with its result. -/
def afterPop (node : Word) : Switch → Consumer U
  | .nonBlocking yield =>
    if node = 0#64 then if yield then .running else .mainUT else .getState node
  | .blocking => .leave node

/-- `pop` returns `node`, and `r` is what that means. -/
def Scheduler.ret (c : Scheduler U) (w : Switch) (node : Word) (r : Option (Option U)) :
    Scheduler U :=
  { c with consumer := afterPop node w, results := c.results ++ [r] }

/-- `head = next` -/
def Scheduler.setHead (c : Scheduler U) (w : Switch) (hhead next : Word) : Scheduler U :=
  { c with head := next, consumer := .copy w hhead next, queue := c.queue.tail }

/-- A uThread leaves the queue of `kt`. -/
def State.startPop (s : State S U P) (kt : S) (ut : Option U) : State S U P :=
  match ut with
  | some u => { s with place := Function.update s.place u (.popping kt) }
  | none => s

/-- The next step of kThread `k` in `nonBlockingSwitch` or `blockingSwitch`, `new Node` apart. -/
def switchStep (k : S) (s : State S U P) : Option (State S U P) :=
  let c := s.sched k
  match c.consumer with
  | .running | .mainUT | .crashed => none
  | .wait =>
    if 0 < c.sem then
      some (s.set k { c with sem := c.sem - 1, consumer := .readNext .blocking c.head })
    else none
  | .readNext w hhead => some (s.set k { c with
      consumer := if s.next c.head = 0#64 then .readTail w hhead
        else .setHead w hhead (s.next c.head) })
  | .setHead w hhead next =>
    some ((s.startPop k (s.state next)).set k (c.setHead w hhead next))
  | .copy w hhead next =>
    some { s.set k (c.ret w hhead (some (s.state next))) with
      state := Function.update s.state hhead (s.state next) }
  | .readTail w hhead =>
    some (s.set k (if c.tail.marked then c.ret w 0#64 none
      else { c with consumer := if c.head ≠ c.tail then .spin w hhead else .cas w hhead }))
  | .spin w hhead => some (s.set k { c with
      consumer := if s.next c.head = 0#64 then .spin w hhead else .readNext w hhead })
  | .cas w hhead =>
    some (s.set k (if c.tail = c.head then { c.ret w 0#64 none with tail := c.head.mark }
      else { c with consumer := .readNext w hhead }))
  | .leave node =>
    if 0 < s.ioSem then
      some { s.set k { c with consumer := .getState node } with ioSem := s.ioSem - 1 }
    else some s
  | .getState node => some (s.set k { c with
      consumer := if node = 0#64 then .crashed
        else match s.state node with
          | some ut => .give ut node
          | none => .crashed })
  | .give ut node =>
    if c.tmpNode ≠ 0#64 then
      some { s.set k { c with consumer := .keep ut node } with
        node := Function.update s.node ut c.tmpNode }
    else none
  | .keep ut node => some { s.set k { c with tmpNode := node, consumer := .running } with
      place := Function.update s.place ut .free }

/-- `ut->utvar->node = new Node(ut)`, when there is no `tmpNode`. -/
def giveNew (L : Layout S) (k : S) (a : Word) (s : State S U P) : Option (State S U P) :=
  let c := s.sched k
  match c.consumer with
  | .give ut node =>
    if c.tmpNode = 0#64 ∧ L.heap a = true ∧ s.used a = false then
      some { (s.newNode a (some ut)).set k { c with consumer := .keep ut node } with
        node := Function.update s.node ut a }
    else none
  | _ => none

inductive Action (S U P : Type*)
  /-- uThread `u` is created, with its node at `a`. -/
  | create (u : U) (a : Word)
  /-- Producer `p` calls `schedule(ut, kt)`. -/
  | schedule (p : P) (ut : U) (kt : S)
  /-- A step of producer `p` in `schedule`. -/
  | producer (p : P)
  /-- The running uThread yields, blocks, migrates or terminates: `nonBlockingSwitch`. -/
  | nonBlockingSwitch (k : S) (yield : Bool)
  /-- `mainUT` calls `blockingSwitch`: `iohandler.sem.post()`. -/
  | blockingSwitch (k : S)
  /-- A step of kThread `k` in one of the two. -/
  | switch (k : S)
  /-- kThread `k` allocates a node at `a`. -/
  | giveNew (k : S) (a : Word)
  /-- Other threads change the semaphore of the IO handler. -/
  | io (v : ℕ)

def step (L : Layout S) (s : State S U P) : Action S U P → Option (State S U P)
  | .create u a => create L u a s
  | .schedule p ut kt => schedule p ut kt s
  | .producer p => scheduleStep p s
  | .nonBlockingSwitch k yield =>
    if (s.sched k).consumer = .running then
      some (s.set k { s.sched k with
        consumer := .readNext (.nonBlocking yield) (s.sched k).head })
    else none
  | .blockingSwitch k =>
    if (s.sched k).consumer = .mainUT then
      some { s.set k { s.sched k with consumer := .wait } with ioSem := s.ioSem + 1 }
    else none
  | .switch k => switchStep k s
  | .giveNew k a => giveNew L k a s
  | .io v => some { s with ioSem := v }

/-- The schedulers `S`. A kThread starts on its `mainUT` or, for `defaultKT`, on `initUT`. -/
def machine (U P : Type*) [DecidableEq U] [DecidableEq P] (L : Layout S) :
    Machine (State S U P) (Action S U P) where
  init := fun s => ∃ start : S → Consumer U,
    (∀ k, start k = .mainUT ∨ start k = .running) ∧ s = initial L start
  step := step L

end UThreads.Scheduler04
