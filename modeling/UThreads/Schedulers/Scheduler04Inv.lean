import UThreads.Schedulers.Scheduler04
import UThreads.Lib.Placement
import UThreads.Lib.Update

/-!
# `Scheduler_04`: steps, holders of nodes, and the invariant

**Steps** (`Step`, `Move`). Everything a step can do, guards included. A `Move` is a step of a
kThread that changes only its own position, its semaphore and the mark of the tail.

**Holders** (`Held`). A node is with a uThread, with a producer between taking it and its exchange,
queued, the head of a scheduler, its `tmpNode`, or in the hand of a kThread that has popped it and
not yet kept it.

**The invariant** (`Inv`). Each node has one holder. The nodes of each scheduler form a chain with
gaps (`GapChain`), and the values behind the head are the uThreads exchanged in and not yet popped
(`Scheduler.Inv`). The place of a uThread agrees with the positions of the threads and the queues
(`Places`).

At the end, what the invariant says about single nodes, and the two kinds of steps that move no
node: writes to a node in no queue (`Inv.write`), and changes of a scheduler that keep its nodes
(`Inv.like`).
-/

namespace UThreads.Scheduler04

variable {S U P : Type*}

/-! ## What a step can do -/

section Steps

variable [DecidableEq S]

/-- A step of kThread `k` that changes only its own position, its semaphore, and the mark. -/
inductive Move (s : State S U P) (k : S) : Action S U P → Scheduler U → Prop
  | start (yield : Bool) (h : (s.sched k).consumer = .running) :
      Move s k (.nonBlockingSwitch k yield)
        { s.sched k with consumer := .readNext (.nonBlocking yield) (s.sched k).head }
  | enter (h : (s.sched k).consumer = .mainUT) :
      Move s k (.blockingSwitch k) { s.sched k with consumer := .wait }
  | wait (h : (s.sched k).consumer = .wait) (hs : 0 < (s.sched k).sem) :
      Move s k (.switch k) { s.sched k with
        sem := (s.sched k).sem - 1
        consumer := .readNext .blocking (s.sched k).head }
  | noNext {w : Switch} {hhead : Word} (h : (s.sched k).consumer = .readNext w hhead)
      (hn : s.next (s.sched k).head = 0#64) :
      Move s k (.switch k) { s.sched k with consumer := .readTail w hhead }
  | next {w : Switch} {hhead : Word} (h : (s.sched k).consumer = .readNext w hhead)
      (hn : s.next (s.sched k).head ≠ 0#64) :
      Move s k (.switch k)
        { s.sched k with consumer := .setHead w hhead (s.next (s.sched k).head) }
  | marked {w : Switch} {hhead : Word} (h : (s.sched k).consumer = .readTail w hhead)
      (hm : (s.sched k).tail.marked = true) :
      Move s k (.switch k) ((s.sched k).ret w 0#64 none)
  | behind {w : Switch} {hhead : Word} (h : (s.sched k).consumer = .readTail w hhead)
      (hne : (s.sched k).head ≠ (s.sched k).tail) :
      Move s k (.switch k) { s.sched k with consumer := .spin w hhead }
  | last {w : Switch} {hhead : Word} (h : (s.sched k).consumer = .readTail w hhead)
      (he : (s.sched k).head = (s.sched k).tail) :
      Move s k (.switch k) { s.sched k with consumer := .cas w hhead }
  | spin {w : Switch} {hhead : Word} (h : (s.sched k).consumer = .spin w hhead) :
      Move s k (.switch k) { s.sched k with consumer := .spin w hhead }
  | linked {w : Switch} {hhead : Word} (h : (s.sched k).consumer = .spin w hhead) :
      Move s k (.switch k) { s.sched k with consumer := .readNext w hhead }
  | mark {w : Switch} {hhead : Word} (h : (s.sched k).consumer = .cas w hhead)
      (he : (s.sched k).tail = (s.sched k).head) :
      Move s k (.switch k)
        { (s.sched k).ret w 0#64 none with tail := (s.sched k).head.mark }
  | retry {w : Switch} {hhead : Word} (h : (s.sched k).consumer = .cas w hhead) :
      Move s k (.switch k) { s.sched k with consumer := .readNext w hhead }
  | leave {node : Word} (h : (s.sched k).consumer = .leave node) :
      Move s k (.switch k) { s.sched k with consumer := .getState node }
  | null (h : (s.sched k).consumer = .getState 0#64) :
      Move s k (.switch k) { s.sched k with consumer := .crashed }
  | noValue {node : Word} (h : (s.sched k).consumer = .getState node) (hn : node ≠ 0#64)
      (hv : s.state node = none) :
      Move s k (.switch k) { s.sched k with consumer := .crashed }
  | value {node : Word} {ut : U} (h : (s.sched k).consumer = .getState node) (hn : node ≠ 0#64)
      (hv : s.state node = some ut) :
      Move s k (.switch k) { s.sched k with consumer := .give ut node }

variable [DecidableEq U] [DecidableEq P]

/-- Everything a step can do. -/
inductive Step (L : Layout S) (s : State S U P) : Action S U P → State S U P → Prop
  | create {u : U} {a : Word} (hu : s.place u = .fresh) (ha : L.heap a = true)
      (hfree : s.used a = false) :
      Step L s (.create u a) { s.newNode a none with
        node := Function.update s.node u a
        place := Function.update s.place u .free }
  | schedule {p : P} {ut : U} {kt : S} (hp : s.producer p = .idle) (hu : s.place ut = .free) :
      Step L s (.schedule p ut kt) { s with
        producer := Function.update s.producer p (.setState kt ut (s.node ut))
        place := Function.update s.place ut (.scheduling p) }
  | setState {p : P} {kt : S} {ut : U} {node : Word} (hp : s.producer p = .setState kt ut node) :
      Step L s (.producer p) { s with
        state := Function.update s.state node (some ut)
        producer := Function.update s.producer p (.release kt ut node) }
  | release {p : P} {kt : S} {ut : U} {node : Word} (hp : s.producer p = .release kt ut node) :
      Step L s (.producer p) { s with
        node := Function.update s.node ut 0#64
        producer := Function.update s.producer p (.clear kt ut node) }
  | clear {p : P} {kt : S} {ut : U} {node : Word} (hp : s.producer p = .clear kt ut node) :
      Step L s (.producer p) { s with
        next := Function.update s.next node 0#64
        producer := Function.update s.producer p (.exchange kt ut node) }
  | exchange {p : P} {kt : S} {ut : U} {node : Word} (hp : s.producer p = .exchange kt ut node) :
      Step L s (.producer p) { s.set kt ((s.sched kt).exchange ut node) with
        producer := Function.update s.producer p
          (.link kt (s.sched kt).tail.unmark node (s.sched kt).tail.marked)
        place := Function.update s.place ut (.queued kt node) }
  | link {p : P} {kt : S} {prev first : Word} {wasEmpty : Bool}
      (hp : s.producer p = .link kt prev first wasEmpty) :
      Step L s (.producer p) { s with
        next := Function.update s.next prev first
        producer := Function.update s.producer p (if wasEmpty then .post kt else .idle) }
  | post {p : P} {kt : S} (hp : s.producer p = .post kt) :
      Step L s (.producer p) { s.set kt { s.sched kt with sem := (s.sched kt).sem + 1 } with
        producer := Function.update s.producer p .idle }
  | move {k : S} {a : Action S U P} {c : Scheduler U} (h : Move s k a c) (v : ℕ) :
      Step L s a { s.set k c with ioSem := v }
  | setHead {k : S} {w : Switch} {hhead next : Word}
      (h : (s.sched k).consumer = .setHead w hhead next) :
      Step L s (.switch k)
        ((s.startPop k (s.state next)).set k ((s.sched k).setHead w hhead next))
  | copy {k : S} {w : Switch} {hhead next : Word} (h : (s.sched k).consumer = .copy w hhead next) :
      Step L s (.switch k) { s.set k ((s.sched k).ret w hhead (some (s.state next))) with
        state := Function.update s.state hhead (s.state next) }
  | give {k : S} {ut : U} {node : Word} (h : (s.sched k).consumer = .give ut node)
      (ht : (s.sched k).tmpNode ≠ 0#64) :
      Step L s (.switch k) { s.set k { s.sched k with consumer := .keep ut node } with
        node := Function.update s.node ut (s.sched k).tmpNode }
  | giveNew {k : S} {ut : U} {node a : Word} (h : (s.sched k).consumer = .give ut node)
      (ht : (s.sched k).tmpNode = 0#64) (ha : L.heap a = true) (hfree : s.used a = false) :
      Step L s (.giveNew k a)
        { (s.newNode a (some ut)).set k { s.sched k with consumer := .keep ut node } with
          node := Function.update s.node ut a }
  | keep {k : S} {ut : U} {node : Word} (h : (s.sched k).consumer = .keep ut node) :
      Step L s (.switch k)
        { s.set k { s.sched k with tmpNode := node, consumer := .running } with
          place := Function.update s.place ut .free }
  /-- Only the semaphore of the IO handler changes, if anything. -/
  | io {a : Action S U P} (v : ℕ) : Step L s a { s with ioSem := v }

theorem scheduleStep_cases {L : Layout S} {s s' : State S U P} {p : P}
    (hs : scheduleStep p s = some s') : Step L s (.producer p) s' := by
  unfold scheduleStep at hs
  split at hs
  · cases hs
  · next kt ut node hp => cases hs; exact .setState hp
  · next kt ut node hp => cases hs; exact .release hp
  · next kt ut node hp => cases hs; exact .clear hp
  · next kt ut node hp => cases hs; exact .exchange hp
  · next kt prev first w hp => cases hs; exact .link hp
  · next kt hp =>
    simp only at hs
    split_ifs at hs
    · cases hs; exact .post hp
    · cases hs; exact .io s.ioSem

theorem switchStep_cases {L : Layout S} {s s' : State S U P} {k : S}
    (hs : switchStep k s = some s') : Step L s (.switch k) s' := by
  unfold switchStep at hs
  simp only at hs
  cases hc : (s.sched k).consumer with
  | running | mainUT | crashed => simp [hc] at hs
  | wait =>
    simp only [hc, Option.ite_none_right_eq_some, Option.some.injEq] at hs
    obtain ⟨hsem, rfl⟩ := hs
    exact .move (.wait hc hsem) s.ioSem
  | readNext w hhead =>
    simp only [hc, Option.some.injEq] at hs
    subst hs
    split_ifs with hn
    · exact .move (.noNext hc hn) s.ioSem
    · exact .move (.next hc hn) s.ioSem
  | setHead w hhead next =>
    simp only [hc, Option.some.injEq] at hs
    subst hs
    exact .setHead hc
  | copy w hhead next =>
    simp only [hc, Option.some.injEq] at hs
    subst hs
    exact .copy hc
  | readTail w hhead =>
    simp only [hc, Option.some.injEq] at hs
    subst hs
    split_ifs with hm hne
    · exact .move (.marked hc hm) s.ioSem
    · exact .move (.behind hc hne) s.ioSem
    · exact .move (.last hc (not_not.mp hne)) s.ioSem
  | spin w hhead =>
    simp only [hc, Option.some.injEq] at hs
    subst hs
    split_ifs
    · exact .move (.spin hc) s.ioSem
    · exact .move (.linked hc) s.ioSem
  | cas w hhead =>
    simp only [hc, Option.some.injEq] at hs
    subst hs
    split_ifs with he
    · exact .move (.mark hc he) s.ioSem
    · exact .move (.retry hc) s.ioSem
  | leave node =>
    simp only [hc] at hs
    split_ifs at hs
    · cases hs; exact .move (.leave hc) _
    · cases hs; exact .io s.ioSem
  | getState node =>
    simp only [hc, Option.some.injEq] at hs
    subst hs
    split_ifs with hn
    · subst hn; exact .move (.null hc) s.ioSem
    · cases hv : s.state node with
      | none => exact .move (.noValue hc hn hv) s.ioSem
      | some ut => exact .move (.value hc hn hv) s.ioSem
  | give ut node =>
    simp only [hc, Option.ite_none_right_eq_some, Option.some.injEq] at hs
    obtain ⟨ht, rfl⟩ := hs
    exact .give hc ht
  | keep ut node =>
    simp only [hc, Option.some.injEq] at hs
    subst hs
    exact .keep hc

theorem step_cases {L : Layout S} {s s' : State S U P} {a : Action S U P}
    (hs : step L s a = some s') : Step L s a s' := by
  cases a with
  | create u a =>
    simp only [step, create, Option.ite_none_right_eq_some, Option.some.injEq] at hs
    obtain ⟨⟨hu, ha, hfree⟩, rfl⟩ := hs
    exact .create hu ha hfree
  | schedule p ut kt =>
    simp only [step, schedule, Option.ite_none_right_eq_some, Option.some.injEq] at hs
    obtain ⟨⟨hp, hu⟩, rfl⟩ := hs
    exact .schedule hp hu
  | producer p => exact scheduleStep_cases hs
  | nonBlockingSwitch k yield =>
    simp only [step, Option.ite_none_right_eq_some, Option.some.injEq] at hs
    obtain ⟨hc, rfl⟩ := hs
    exact .move (.start yield hc) s.ioSem
  | blockingSwitch k =>
    simp only [step, Option.ite_none_right_eq_some, Option.some.injEq] at hs
    obtain ⟨hc, rfl⟩ := hs
    exact .move (.enter hc) (s.ioSem + 1)
  | switch k => exact switchStep_cases hs
  | giveNew k a =>
    simp only [step, giveNew] at hs
    split at hs
    · next ut node hc =>
      simp only [Option.ite_none_right_eq_some, Option.some.injEq] at hs
      obtain ⟨⟨ht, ha, hfree⟩, rfl⟩ := hs
      exact .giveNew hc ht ha hfree
    · cases hs
  | io v =>
    simp only [step, Option.some.injEq] at hs
    subst hs
    exact .io v

end Steps

/-! ## Holders of nodes -/

/-- The node a pointer points to. -/
def nonNull (a : Word) : Option Word := if a = 0#64 then none else some a

@[simp] theorem nonNull_zero : nonNull 0#64 = none := if_pos rfl

theorem nonNull_of_ne {a : Word} (h : a ≠ 0#64) : nonNull a = some a := if_neg h

/-- The node a kThread has popped and not yet kept. -/
def Consumer.hand : Consumer U → Option Word
  | .copy _ hhead _ => some hhead
  | .leave node | .getState node => nonNull node
  | .give _ node | .keep _ node => some node
  | _ => none

/-- `tmpNode` has been given away, and the popped node has not taken its place yet. -/
def Consumer.given : Consumer U → Bool
  | .keep _ _ => true
  | _ => false

def Scheduler.tmp (c : Scheduler U) : Option Word :=
  if c.consumer.given = true then none else nonNull c.tmpNode

/-- The uThread whose `schedule` has not come to its exchange. -/
def Schedule.ut : Schedule S U → Option U
  | .setState _ ut _ | .release _ ut _ | .clear _ ut _ | .exchange _ ut _ => some ut
  | _ => none

/-- The uThread still has its node. -/
def Schedule.unreleased : Schedule S U → Bool
  | .setState _ _ _ | .release _ _ _ => true
  | _ => false

/-- The node with which `schedule` was called, until its exchange. -/
def Schedule.node : Schedule S U → Option Word
  | .setState _ _ node | .release _ _ node | .clear _ _ node | .exchange _ _ node => some node
  | _ => none

/-- The node a producer has taken from its uThread and not yet put into the queue. -/
def Schedule.carried : Schedule S U → Option Word
  | .clear _ _ node | .exchange _ _ node => some node
  | _ => none

inductive Holder (S U P : Type*)
  | owner (u : U)
  | producer (p : P)
  | queued (k : S)
  | head (k : S)
  | tmp (k : S)
  | hand (k : S)

/-- Node `n` is with the holder. -/
def State.Held (s : State S U P) (n : Word) : Holder S U P → Prop
  | .owner u => nonNull (s.node u) = some n
  | .producer p => (s.producer p).carried = some n
  | .queued k => n ∈ (s.sched k).queue.tail
  | .head k => (s.sched k).head = n
  | .tmp k => (s.sched k).tmp = some n
  | .hand k => (s.sched k).consumer.hand = some n

/-- The nodes there are: the stubs and those that were allocated. -/
def State.IsNode (L : Layout S) (s : State S U P) (n : Word) : Prop :=
  s.used n = true ∨ ∃ k, n = L.stub k

/-! ## The invariant -/

section Invariant

/-- What the position of the kThread says about the first node. -/
def Scheduler.Position (next : Word → Word) (c : Scheduler U) : Prop :=
  match c.consumer with
  | .readNext _ hhead | .readTail _ hhead | .spin _ hhead | .cas _ hhead => hhead = c.head
  | .setHead _ hhead n => hhead = c.head ∧ next c.head = n ∧ n ≠ 0#64
  | .copy _ _ n => n = c.head
  | _ => True

/-- The value that has left the queue and not yet been returned. -/
def Scheduler.transit (state : Word → Option U) (c : Scheduler U) : List (Option U) :=
  match c.consumer with
  | .copy _ _ next => [state next]
  | _ => []

/-- The values in the queue, in order. -/
def Scheduler.values (state : Word → Option U) (c : Scheduler U) : List (Option U) :=
  c.transit state ++ c.queue.tail.map state

/-- The queue of a scheduler, over the store of nodes and the promises of the producers. -/
structure Scheduler.Inv (next : Word → Word) (state : Word → Option U)
    (pend : P → Option (Word × Word)) (c : Scheduler U) : Prop where
  chain : GapChain 0#64 next pend c.queue
  head : c.queue.head? = some c.head
  tail : c.queue.getLast? = some c.tail.unmark
  marked : c.tail.marked = true → c.queue = [c.head]
  content : c.popped ++ c.values state = c.pushed.map some
  position : c.Position next

/-- The uThread a kThread is popping. -/
def Consumer.taken (state : Word → Option U) : Consumer U → Option U
  | .copy _ _ next => state next
  | .leave node | .getState node => (nonNull node).bind state
  | .give ut _ | .keep ut _ => some ut
  | _ => none

def State.taken (s : State S U P) (k : S) : Option U := (s.sched k).consumer.taken s.state

/-- By its place, the uThread has a node. -/
def State.Owns (s : State S U P) (u : U) : Prop :=
  match s.place u with
  | .fresh | .queued _ _ => False
  | .free => True
  | .scheduling p => (s.producer p).unreleased = true
  | .popping k => (s.sched k).consumer.given = true

/-- The places of the uThreads agree with the threads and the queues. -/
structure Places (s : State S U P) : Prop where
  scheduling : ∀ u p, s.place u = .scheduling p ↔ (s.producer p).ut = some u
  queued : ∀ u k n, s.place u = .queued k n ↔ n ∈ (s.sched k).queue.tail ∧ s.state n = some u
  popping : ∀ u k, s.place u = .popping k ↔ s.taken k = some u
  owns : ∀ u, s.node u ≠ 0#64 ↔ s.Owns u
  value : ∀ k, ∀ n ∈ (s.sched k).queue.tail, s.state n ≠ none
  hand : ∀ k, (s.sched k).consumer.hand ≠ none → s.taken k ≠ none

/-- What a producer has done to its node. -/
def State.Prepared (s : State S U P) (p : P) : Prop :=
  match s.producer p with
  | .setState _ ut node => s.node ut = node
  | .release _ ut node => s.node ut = node ∧ s.state node = some ut
  | .clear _ ut node => s.state node = some ut
  | .exchange _ ut node => s.state node = some ut ∧ s.next node = 0#64
  | .idle | .link _ _ _ _ | .post _ => True

variable [DecidableEq S]

/-- The pointer a producer has still to write in the queue of `k`. -/
def Schedule.promise (k : S) : Schedule S U → Option (Word × Word)
  | .link kt prev first _ => if kt = k then some (prev, first) else none
  | _ => none

def State.pend (s : State S U P) (k : S) (p : P) : Option (Word × Word) :=
  (s.producer p).promise k

structure Inv (L : Layout S) (s : State S U P) : Prop where
  sched : ∀ k, (s.sched k).Inv s.next s.state (s.pend k)
  held : Placement s.Held (s.IsNode L)
  used : ∀ a, s.used a = true → L.heap a = true
  places : Places s
  prepared : ∀ p, s.Prepared p

end Invariant

namespace Scheduler.Inv

variable {next next' : Word → Word} {state state' : Word → Option U}
  {pend : P → Option (Word × Word)} {c : Scheduler U}

theorem queue_eq (h : c.Inv next state pend) : c.queue = c.head :: c.queue.tail := by
  have hh := h.head
  cases hq : c.queue with
  | nil => simp [hq] at hh
  | cons a l =>
    rw [hq, List.head?_cons, Option.some.injEq] at hh
    rw [hh, List.tail_cons]

theorem head_mem (h : c.Inv next state pend) : c.head ∈ c.queue := List.mem_of_head? h.head

/-- A tail at the head means that nothing is queued. -/
theorem eq_single (h : c.Inv next state pend) (ht : c.tail.unmark = c.head) :
    c.queue.tail = [] := by
  have htail := h.tail
  have hnd := h.chain.nodup
  rw [h.queue_eq] at htail hnd
  cases hq : c.queue.tail with
  | nil => rfl
  | cons b l =>
    rw [hq, List.getLast?_cons_cons, ht] at htail
    rw [hq] at hnd
    exact absurd (List.mem_of_getLast? htail) (List.nodup_cons.mp hnd).1

/-- Writes to nodes outside the queue. -/
theorem frame (h : c.Inv next state pend) (hn : ∀ n ∈ c.queue, next' n = next n)
    (hs : ∀ n ∈ c.queue, state' n = state n) : c.Inv next' state' pend where
  chain := h.chain.frame hn
  head := h.head
  tail := h.tail
  marked := h.marked
  content := by
    rw [← h.content]
    have hmap : c.queue.tail.map state' = c.queue.tail.map state :=
      List.map_congr_left fun n hm => hs n (List.mem_of_mem_tail hm)
    have hpos := h.position
    unfold values transit
    rw [hmap]
    cases hc : c.consumer with
    | copy w hhead n =>
      simp only [Position, hc] at hpos
      simp only [hpos, hs c.head h.head_mem]
    | _ => rfl
  position := by
    have hpos := h.position
    unfold Position at hpos ⊢
    rw [hn c.head h.head_mem]
    exact hpos

end Scheduler.Inv

/-! ## The holders of single nodes -/

section Frames

variable [DecidableEq S] {L : Layout S} {s : State S U P}

namespace Inv

theorem addr (h : Inv L s) {n : Word} {y : Holder S U P} (hn : s.Held n y) : n.IsAddr := by
  rcases h.held.item n y hn with hu | ⟨k, rfl⟩
  · exact L.heap_addr n (h.used n hu)
  · exact L.stub_addr k

theorem mem_queue (h : Inv L s) {k : S} {n : Word} (hn : n ∈ (s.sched k).queue) :
    s.Held n (.head k) ∨ s.Held n (.queued k) := by
  rw [(h.sched k).queue_eq, List.mem_cons] at hn
  exact hn.imp Eq.symm id

/-- A node with another holder is not in the queue. -/
theorem not_mem_queue (h : Inv L s) {k : S} {n : Word} {y : Holder S U P} (hn : s.Held n y)
    (hh : y ≠ .head k) (hq : y ≠ .queued k) : n ∉ (s.sched k).queue := by
  intro hm
  rcases h.mem_queue hm with hm | hm
  · exact hh (h.held.unique hn hm)
  · exact hq (h.held.unique hn hm)

theorem owned_eq (h : Inv L s) {u : U} (ho : s.Owns u) : s.Held (s.node u) (.owner u) :=
  nonNull_of_ne ((h.places.owns u).mpr ho)

theorem not_owned (h : Inv L s) {u : U} (ho : ¬s.Owns u) : s.node u = 0#64 :=
  not_not.mp fun hn => ho ((h.places.owns u).mp hn)

/-- The node of a producer is still with its uThread, or with the producer. -/
theorem held_of_node (h : Inv L s) {p : P} {n : Word} (hn : (s.producer p).node = some n) :
    s.Held n (.producer p) ∨ ∃ u, s.Held n (.owner u) ∧ s.place u = .scheduling p := by
  have hprep := h.prepared p
  have hplace := fun u => (h.places.scheduling u p).mpr
  unfold State.Prepared at hprep
  cases hp : s.producer p with
  | setState kt ut node | release kt ut node =>
    simp only [hp, Schedule.node, Option.some.injEq] at hn hprep
    have hut := hplace ut (by simp [hp, Schedule.ut])
    have howns : s.Owns ut := by simp [State.Owns, hut, hp, Schedule.unreleased]
    have hnode : s.node ut = n := by simp [hprep, hn]
    exact .inr ⟨ut, hnode ▸ h.owned_eq howns, hut⟩
  | clear kt ut node | exchange kt ut node =>
    rw [hp] at hn
    exact .inl (by simpa only [State.Held, hp, Schedule.carried, Schedule.node] using hn)
  | idle | link | post => simp [hp, Schedule.node] at hn

theorem node_inj (h : Inv L s) {p q : P} {n : Word} (hp : (s.producer p).node = some n)
    (hq : (s.producer q).node = some n) : p = q := by
  rcases h.held_of_node hp with hp | ⟨u, hp, hu⟩ <;> rcases h.held_of_node hq with hq | ⟨v, hq, hv⟩
  · cases h.held.unique hp hq; rfl
  · cases h.held.unique hp hq
  · cases h.held.unique hp hq
  · cases h.held.unique hp hq
    rw [hu] at hv
    cases hv
    rfl

end Inv

omit [DecidableEq S] in
theorem not_isNode {a : Word} (ha : L.heap a = true) (hfree : s.used a = false) :
    ¬s.IsNode L a := by
  rintro (hu | ⟨k, rfl⟩)
  · rw [hfree] at hu; cases hu
  · rw [L.stub_not_heap k] at ha; cases ha

/-! ## Writes, and steps that move no node -/

/-- The node is in no queue and in no hand. -/
def State.Away (s : State S U P) (m : Word) : Prop :=
  ∀ k, m ∉ (s.sched k).queue ∧ (s.sched k).consumer.hand ≠ some m

theorem Inv.away (h : Inv L s) {m : Word} {y : Holder S U P} (hm : s.Held m y)
    (hy : ∀ k, y ≠ .head k ∧ y ≠ .queued k ∧ y ≠ .hand k) : s.Away m := by
  intro k
  obtain ⟨hh, hq, hd⟩ := hy k
  refine ⟨h.not_mem_queue hm hh hq, fun hk => ?_⟩
  have hk : s.Held m (.hand k) := hk
  exact hd (h.held.unique hm hk)

theorem Inv.away_fresh (h : Inv L s) {a : Word} (ha : ¬s.IsNode L a) : s.Away a :=
  fun _ => ⟨fun hm => ha ((h.mem_queue hm).elim (h.held.item a _) (h.held.item a _)),
    fun hk => ha (h.held.item a (.hand _) hk)⟩

omit [DecidableEq S] in
theorem State.Prepared.congr {s' : State S U P} {q : P} (h : s.Prepared q)
    (hp : s'.producer q = s.producer q)
    (hu : ∀ u, (s.producer q).ut = some u → s'.node u = s.node u)
    (hn : ∀ n, (s.producer q).node = some n → s'.state n = s.state n ∧ s'.next n = s.next n) :
    s'.Prepared q := by
  unfold State.Prepared at h ⊢
  rw [hp]
  cases hq : s.producer q with
  | setState kt ut node =>
    simp only [hq] at h ⊢
    rw [hu ut (by rw [hq]; rfl)]
    exact h
  | release kt ut node =>
    simp only [hq] at h ⊢
    rw [hu ut (by rw [hq]; rfl), (hn node (by rw [hq]; rfl)).1]
    exact h
  | clear kt ut node =>
    simp only [hq] at h ⊢
    rw [(hn node (by rw [hq]; rfl)).1]
    exact h
  | exchange kt ut node =>
    simp only [hq] at h ⊢
    rw [(hn node (by rw [hq]; rfl)).1, (hn node (by rw [hq]; rfl)).2]
    exact h
  | idle | link | post => trivial

omit [DecidableEq S] in
theorem State.taken_congr {s' : State S U P} {k : S}
    (hc : (s'.sched k).consumer = (s.sched k).consumer) (hs : s'.state = s.state) :
    s.taken k = s'.taken k := by
  unfold State.taken
  rw [hc, hs]

omit [DecidableEq S] in
theorem State.owns_congr {s' : State S U P} {u : U} (hp : s'.place u = s.place u)
    (hs : ∀ p, s.place u = .scheduling p →
      (s'.producer p).unreleased = (s.producer p).unreleased)
    (hg : ∀ k, s.place u = .popping k →
      (s'.sched k).consumer.given = (s.sched k).consumer.given) : s.Owns u ↔ s'.Owns u := by
  unfold State.Owns
  rw [hp]
  cases hu : s.place u with
  | scheduling p => simp only [hs p hu]
  | popping k => simp only [hg k hu]
  | _ => exact Iff.rfl

theorem Inv.taken_write (h : Inv L s) {k : S} {m : Word} (hm : m ∉ (s.sched k).queue)
    (hhand : (s.sched k).consumer.hand ≠ some m) {state' : Word → Option U}
    (hs : ∀ n, n ≠ m → state' n = s.state n) :
    s.taken k = (s.sched k).consumer.taken state' := by
  have hpos := (h.sched k).position
  unfold Scheduler.Position at hpos
  unfold State.taken
  cases hc : (s.sched k).consumer with
  | copy w hhead n =>
    simp only [hc] at hpos ⊢
    refine (hs n fun e => hm ?_).symm
    rw [← e, hpos]
    exact (h.sched k).head_mem
  | leave node | getState node =>
    simp only [hc, Consumer.hand, Consumer.taken] at hhand ⊢
    refine Option.bind_congr fun n hn => (hs n fun e => hhand ?_).symm
    rw [hn, e]
  | _ => rfl

/-- A write to a node that is in no queue and in no hand. -/
theorem Inv.write (h : Inv L s) {m : Word} (hm : s.Away m) {next' : Word → Word}
    {state' : Word → Option U} (hn : ∀ n, n ≠ m → next' n = s.next n)
    (hs : ∀ n, n ≠ m → state' n = s.state n)
    (hprep : ∀ q, State.Prepared { s with next := next', state := state' } q) :
    Inv L { s with next := next', state := state' } := by
  have hstate : ∀ k, ∀ n ∈ (s.sched k).queue, state' n = s.state n := fun k n hk =>
    hs n (ne_of_mem_of_not_mem hk (hm k).1)
  have htail : ∀ k, ∀ n ∈ (s.sched k).queue.tail, state' n = s.state n := fun k n hk =>
    hstate k n (List.mem_of_mem_tail hk)
  have htaken : ∀ k, s.taken k = (s.sched k).consumer.taken state' := fun k =>
    h.taken_write (hm k).1 (hm k).2 hs
  exact {
    sched := fun k => (h.sched k).frame
      (fun n hk => hn n (ne_of_mem_of_not_mem hk (hm k).1)) (hstate k)
    held := h.held
    used := h.used
    places := {
      scheduling := h.places.scheduling
      queued := fun u k n => (h.places.queued u k n).trans
        (and_congr_right fun hk => by rw [← htail k n hk])
      popping := fun u k => (h.places.popping u k).trans (Eq.congr_left (htaken k))
      owns := h.places.owns
      value := fun k n hk => by
        show state' n ≠ none
        rw [htail k n hk]
        exact h.places.value k n hk
      hand := fun k hk ht => h.places.hand k hk ((htaken k).trans ht) }
    prepared := hprep }

/-- Two schedulers with the same nodes in the same places. -/
structure Scheduler.Like (c c' : Scheduler U) : Prop where
  queue : c'.queue = c.queue
  head : c'.head = c.head
  tmp : c'.tmp = c.tmp
  hand : c'.consumer.hand = c.consumer.hand
  given : c'.consumer.given = c.consumer.given

/-- A scheduler changes, but no node and no uThread moves. -/
theorem Inv.like (h : Inv L s) {k : S} {c : Scheduler U} (hl : (s.sched k).Like c)
    (htaken : c.consumer.taken s.state = (s.sched k).consumer.taken s.state)
    (hinv : c.Inv s.next s.state (s.pend k)) (v : ℕ) :
    Inv L { s.set k c with ioSem := v } := by
  have hsame : ∀ j, (s.sched j).Like (Function.update s.sched k c j) ∧
      (Function.update s.sched k c j).consumer.taken s.state = s.taken j := by
    intro j
    by_cases hj : j = k
    · subst hj
      rw [Function.update_self]
      exact ⟨hl, htaken⟩
    · rw [Function.update_of_ne hj]
      exact ⟨⟨rfl, rfl, rfl, rfl, rfl⟩, rfl⟩
  exact {
    sched := fun j => by
      by_cases hj : j = k
      · subst hj
        simp only [State.set, Function.update_self]
        exact hinv
      · simp only [State.set, Function.update_of_ne hj]
        exact h.sched j
    held := by
      refine h.held.frame fun n y => ?_
      cases y with
      | owner u => exact Iff.rfl
      | producer p => exact Iff.rfl
      | queued j => simp only [State.Held, State.set, (hsame j).1.queue]
      | head j => simp only [State.Held, State.set, (hsame j).1.head]
      | tmp j => simp only [State.Held, State.set, (hsame j).1.tmp]
      | hand j => simp only [State.Held, State.set, (hsame j).1.hand]
    used := h.used
    places := {
      scheduling := h.places.scheduling
      queued := fun u j n => by
        simpa only [State.set, (hsame j).1.queue] using h.places.queued u j n
      popping := fun u j => (h.places.popping u j).trans (Eq.congr_left (hsame j).2.symm)
      owns := fun u => (h.places.owns u).trans
        (State.owns_congr rfl (fun _ _ => rfl) fun j _ => (hsame j).1.given)
      value := fun j => by simpa only [State.set, (hsame j).1.queue] using h.places.value j
      hand := fun j hj ht => h.places.hand j ((hsame j).1.hand.symm.trans_ne hj)
        ((hsame j).2.symm.trans ht) }
    prepared := h.prepared }

end Frames

end UThreads.Scheduler04
