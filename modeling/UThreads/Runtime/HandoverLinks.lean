import UThreads.Generic.IntrusiveQueue
import UThreads.Generic.IntrusiveStack
import UThreads.Generic.MPSCQueue
import UThreads.Generic.ListStore
import UThreads.Runtime.Handover

/-!
# How uThreads are handed over: the links

The containers of `Handover` as they are in memory: every uThread has one pair of links, which all
of them use. The nodes are the uThreads, the stubs of the run queues and the anchors of the blocking
queues.

**`Store.exec`** is the implementation of the container operations by the code of
`generic/IntrusiveContainers.h`. It returns `none` where the code would go through a null pointer or
take a stub or an anchor for a uThread.

**`Asserts`** are the preconditions that are compiled away in a release build, at each call. Where
an operation calls another, the preconditions of both are there. `BlockingMPSCQueue` asserts
nothing.
-/

namespace UThreads.Handover

/-- A `Link` -/
inductive Node (U K B : Type*)
  | ut (u : U)
  | stub (k : K)
  | anchor (b : B)
  deriving DecidableEq

structure Store (U K C B : Type*) where
  links : Node U K B → Link (Node U K B)
  runQueue : K → MPSCQueue (Node U K B)
  queue : Queue K C → IntrusiveQueue (Node U K B)
  stack : IntrusiveStack (Node U K B)
  /-- `first` and `last` of `Scheduler_02::schedule(queue, count)` -/
  chain : Option (Node U K B × Node U K B)

variable {U K C B D : Type*} [DecidableEq U] [DecidableEq K] [DecidableEq C] [DecidableEq B]
  [DecidableEq D]

/-- The `next` links. -/
def nextOf (m : Node U K B → Link (Node U K B)) (x : Node U K B) : Option (Node U K B) := (m x).next

/-- The `next` links are written. -/
def withNext (m : Node U K B → Link (Node U K B)) (next : Node U K B → Option (Node U K B)) :
    Node U K B → Link (Node U K B) :=
  fun x => { m x with next := next x }

/-- `(uThread*)` -/
def Node.cast : Node U K B → Option U
  | .ut u => some u
  | .stub _ | .anchor _ => none

namespace Store

/-- All containers are constructed, and no uThread has been linked. -/
def empty : Store U K C B where
  links
    | .anchor b => ⟨some (.anchor b), some (.anchor b)⟩
    | .ut _ | .stub _ => ⟨none, none⟩
  runQueue k := .new (.stub k)
  queue _ := .new
  stack := .new
  chain := none

variable (st : Store U K C B)

/-- `runQueue.push(*first, *last)` -/
def runPush (k : K) (first last : Node U K B) : Store U K C B :=
  let r := (st.runQueue k).insert (nextOf st.links) first last
  { st with links := withNext st.links r.2.1, runQueue := Function.update st.runQueue k r.2.2 }

/-- `runQueue.pop()` -/
def runPop (k : K) : Option (Res U × Store U K C B) :=
  ((st.runQueue k).pop (.stub k) (nextOf st.links)).bind fun (x, next, q) =>
    let st' :=
      { st with links := withNext st.links next, runQueue := Function.update st.runQueue k q }
    match x with
    | none => some (.none, st')
    | some x => x.cast.map fun u => (.elem u, st')

/-- `queue.pop()` -/
def pop (q : Queue K C) : Option (Res U × Store U K C B) :=
  ((st.queue q).pop (nextOf st.links)).bind fun (x, next, q') =>
    x.cast.map fun u =>
      (.elem u, { st with links := withNext st.links next, queue := Function.update st.queue q q' })

/-- `first = queue.front(); last = queue.removeAll()` -/
def removeAll (q : Queue K C) : Option (Store U K C B) :=
  (st.queue q).head.bind fun first =>
    ((st.queue q).removeAll (nextOf st.links)).map fun (last, next, q') =>
      { st with
        links := withNext st.links next
        queue := Function.update st.queue q q'
        chain := some (first, last) }

/-- `queue.front(); queue.pop_front()` -/
def popFront (b : B) : Option (Res U × Store U K C B) :=
  (ListStore.popFront st.links (.anchor b)).bind fun (x, links) =>
    x.cast.map fun u => (.elem u, { st with links := links })

def exec (st : Store U K C B) : Op U K C B → Option (Res U × Store U K C B)
  | .none => some (.none, st)
  | .runPush k u => some (.none, st.runPush k (.ut u) (.ut u))
  | .runPop k => st.runPop k
  | .push q u =>
    ((st.queue q).push (nextOf st.links) (.ut u)).map fun (next, q') =>
      (.none, { st with links := withNext st.links next, queue := Function.update st.queue q q' })
  | .tryPop q => if (st.queue q).head = none then some (.none, st) else st.pop q
  | .pop q => st.pop q
  | .transferFrom dst src n =>
    ((st.queue dst).transferFrom (nextOf st.links) (st.queue src) n).map fun (m, next, q, eq) =>
      (.count m, { st with
        links := withNext st.links next
        queue := Function.update (Function.update st.queue src eq) dst q })
  | .transferAllFrom dst src =>
    ((st.queue dst).transferAllFrom (nextOf st.links) (st.queue src)).map fun (next, q, eq) =>
      (.none, { st with
        links := withNext st.links next
        queue := Function.update (Function.update st.queue src eq) dst q })
  | .removeAll q => (st.removeAll q).map fun st' => (.none, st')
  | .runPushChain k =>
    st.chain.map fun (first, last) => (.none, { st.runPush k first last with chain := none })
  | .pushBack b u =>
    (ListStore.pushBack st.links (.anchor b) (.ut u)).map fun links =>
      (.none, { st with links := links })
  | .tryPopFront b =>
    if ListStore.empty st.links (.anchor b) then some (.none, st) else st.popFront b
  | .cachePush u =>
    let r := st.stack.push (nextOf st.links) (.ut u)
    some (.none, { st with links := withNext st.links r.1, stack := r.2 })
  | .cachePop =>
    (st.stack.pop (nextOf st.links)).bind fun (x, next, stack) =>
      x.cast.map fun u => (.elem u, { st with links := withNext st.links next, stack := stack })

end Store

/-- The containers in memory. -/
def store : Impl U K C B (Store U K C B) := ⟨.empty, fun op st => st.exec op⟩

/-! ## Assertions -/

/-- The assertion of `IntrusiveQueue::empty()`; that of `push`, `tail != nullptr`, follows from
it. -/
def QueueOk (q : IntrusiveQueue (Node U K B)) : Prop := q.head = none ↔ q.tail = none

/-- `onList(elem)`, with the assertion that is in it. -/
def OnList (st : Store U K C B) (x : Node U K B) : Prop :=
  (st.links x).prev ≠ none ∧ (st.links x).next ≠ none

def Asserts (st : Store U K C B) : Op U K C B → Prop
  | .none | .runPush .. | .runPop _ | .runPushChain _ => True
  -- `!onQueue(last)`
  | .push q u => QueueOk (st.queue q) ∧ (st.links (.ut u)).next = none
  | .tryPop q => QueueOk (st.queue q)
  | .pop q | .removeAll q => QueueOk (st.queue q) ∧ (st.queue q).head ≠ none
  -- `!onQueue(last)` again, after `pop(count)`
  | .transferFrom dst src n =>
    QueueOk (st.queue dst) ∧ QueueOk (st.queue src) ∧ (st.queue src).head ≠ none ∧
      ∀ last m next q, (st.queue src).popMany (nextOf st.links) n = some (last, m, next, q) →
        next last = none
  | .transferAllFrom dst src =>
    QueueOk (st.queue dst) ∧ QueueOk (st.queue src) ∧ (st.queue src).head ≠ none
  -- `first.prev == nullptr`, `last.next == nullptr`, `onList(prev)`
  | .pushBack b u =>
    st.links (.ut u) = ⟨none, none⟩ ∧ ∃ back, (st.links (.anchor b)).prev = some back ∧
    OnList st back
  -- `onList(elem)`
  | .tryPopFront b =>
    ListStore.empty st.links (.anchor b) = false →
      ∃ front, (st.links (.anchor b)).next = some front ∧ OnList st front
  -- `!onStack(last)`
  | .cachePush u => (st.links (.ut u)).next = none
  | .cachePop => st.stack.head ≠ none

end UThreads.Handover
