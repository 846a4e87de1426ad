import UThreads.Generic.BlockingMPSCQueueProof

/-!
# `Scheduler_02`

Each kThread has a scheduler with a run queue and a semaphore. A producer pushes to the run queue
and posts the semaphore when the push found the queue marked empty. The kThread pops without
touching the semaphore while it switches between uThreads (`nonBlockingSwitch`), and waits on the
semaphore before it pops while it is on its `mainUT` (`blockingSwitch`).

Tokens and queue contents drift apart: a pop in `nonBlockingSwitch` takes an element and leaves
the token of its push behind. What holds is weaker (`Wakes`): while the kThread is on its `mainUT`
and has not passed `sem.wait`, the queue is marked empty, or the producer that took the mark away
has still to post, or a token is there.

Main result: `no_lost_wakeup`.
-/

namespace UThreads.Scheduler02

open BlockingMPSCQueue (Insert Pop)

variable {P : Type*} [DecidableEq P]

/-- The largest value of a POSIX semaphore; `sem_post` fails there. -/
def semValueMax : ℕ := 2 ^ 31 - 1

/-- What the kThread is doing. -/
inductive Consumer
  /-- It executes a uThread. -/
  | running
  /-- In `nonBlockingSwitch`, at `runQueue.pop()`; does the current uThread yield? -/
  | nonBlocking (yield : Bool)
  /-- It executes `mainUT`, before its next `blockingSwitch`. -/
  | mainUT
  /-- In `blockingSwitch`, at `sem.wait()`. -/
  | wait
  /-- In `blockingSwitch`, at `runQueue.pop()`. -/
  | blocking
  /-- In `blockingSwitch` with `ut`, at the loop on `iohandler.sem.trywait()`. -/
  | leave (ut : Word)
  deriving DecidableEq

structure State (P : Type*) where
  runQueue : BlockingMPSCQueue.State P
  sem : ℕ
  /-- `IOHandler::iohandler.sem`, shared with the poller and all other kThreads. -/
  ioSem : ℕ
  /-- The producer's push has returned true, and it has still to post. -/
  posting : P → Bool
  consumer : Consumer
  /-- What `blockingSwitch` has returned. -/
  returned : List Word

/-- The value of the last finished `pop`, as a pointer. -/
def popResult (q : BlockingMPSCQueue.State P) : Word := (q.results.getLast?.join).getD 0#64

/-- The next step of `runQueue.pop()`, its `insert(stub, stub)` included. -/
def popNext (stub : Word) (q : BlockingMPSCQueue.State P) : Option (BlockingMPSCQueue.State P) :=
  if q.pop = .reinsert ∧ q.ins none ≠ .idle then BlockingMPSCQueue.insert none q
  else BlockingMPSCQueue.popStep stub q

/-- `nonBlockingSwitch` after its pop returned `ut`: switch to it; without one, go on with the
uThread that yields, else to `mainUT`. -/
def afterNonBlocking (yield : Bool) (ut : Word) : Consumer :=
  if ut = 0#64 then if yield then .running else .mainUT else .running

/-- `blockingSwitch` after its pop returned `ut`: `while (ut == nullptr)`. -/
def afterBlocking (ut : Word) : Consumer := if ut = 0#64 then .wait else .leave ut

inductive Action (P : Type*)
  /-- The owner of a free uThread sets its link (it is on a bulk queue, or elsewhere). -/
  | write (a v : Word)
  /-- `schedule(ut)`, `schedule(ut, kt)` (one element) or `schedule(queue, count)`. -/
  | schedule (p : P) (chain : List Word)
  /-- A step of producer `p` in `push`. -/
  | push (p : P)
  /-- `if (push(..)) sem.post()`. -/
  | post (p : P)
  /-- The running uThread yields, blocks, migrates or terminates: `nonBlockingSwitch`. -/
  | switch (yield : Bool)
  /-- A step of `runQueue.pop()`. -/
  | pop
  /-- `mainUT` calls `blockingSwitch`: `iohandler.sem.post()`. -/
  | enter
  /-- `sem.wait()` succeeds. -/
  | wait
  /-- `while (!iohandler.sem.trywait())`. -/
  | trywait
  /-- Other threads change the semaphore of the IO handler. -/
  | io (v : ℕ)

def step (stub : Word) (s : State P) : Action P → Option (State P)
  | .write a v => do
    let q ← BlockingMPSCQueue.step stub s.runQueue (.write a v)
    some { s with runQueue := q }
  | .schedule p chain =>
    if s.posting p = false then do
      let q ← BlockingMPSCQueue.push p chain s.runQueue
      some { s with runQueue := q }
    else none
  | .push p => do
    let q ← BlockingMPSCQueue.insert (some p) s.runQueue
    some { s with
      runQueue := q
      posting := match s.runQueue.ins (some p) with
        | .link _ _ wasEmpty => Function.update s.posting p wasEmpty
        | _ => s.posting }
  | .post p =>
    if s.posting p = true then
      -- `sem_post` fails at `SEM_VALUE_MAX` and is tried again
      if s.sem < semValueMax then
        some { s with sem := s.sem + 1, posting := Function.update s.posting p false }
      else some s
    else none
  | .switch yield =>
    if s.consumer = .running then some { s with consumer := .nonBlocking yield } else none
  | .pop =>
    match s.consumer with
    | .nonBlocking yield => do
      let q ← popNext stub s.runQueue
      some { s with
        runQueue := q
        consumer := if q.pop = .idle then afterNonBlocking yield (popResult q)
          else .nonBlocking yield }
    | .blocking => do
      let q ← popNext stub s.runQueue
      some { s with
        runQueue := q
        consumer := if q.pop = .idle then afterBlocking (popResult q) else .blocking }
    | _ => none
  | .enter =>
    if s.consumer = .mainUT then some { s with ioSem := s.ioSem + 1, consumer := .wait } else none
  | .wait =>
    if s.consumer = .wait ∧ 0 < s.sem then some { s with sem := s.sem - 1, consumer := .blocking }
    else none
  | .trywait =>
    match s.consumer with
    | .leave ut =>
      if 0 < s.ioSem then
        some { s with
          ioSem := s.ioSem - 1
          consumer := .running
          returned := s.returned ++ [ut] }
      else some s
    | _ => none
  | .io v => some { s with ioSem := v }

/-- The scheduler of a kThread that starts on its `mainUT` or, for `defaultKT`, on `initUT`. -/
def initial (stub : Word) (start : Consumer) : State P where
  runQueue := BlockingMPSCQueue.initial stub
  sem := 0
  ioSem := 0
  posting := fun _ => false
  consumer := start
  returned := []

def machine (P : Type*) [DecidableEq P] (stub : Word.Addr) : Machine (State P) (Action P) where
  init := fun s => s = initial stub .mainUT ∨ s = initial stub .running
  step := step stub

/-! ## The run queue -/

theorem popNext_step {stub : Word} {q q' : BlockingMPSCQueue.State P}
    (hs : popNext stub q = some q') : ∃ a, BlockingMPSCQueue.step stub q a = some q' := by
  unfold popNext at hs
  split_ifs at hs
  · exact ⟨.insert none, hs⟩
  · exact ⟨.pop, hs⟩

/-- A step of the scheduler is a step of its run queue, or leaves it alone. -/
theorem runQueue_step {stub : Word} {s s' : State P} {a : Action P}
    (hs : step stub s a = some s') :
    s'.runQueue = s.runQueue ∨ ∃ b, BlockingMPSCQueue.step stub s.runQueue b =
    some s'.runQueue := by
  cases a with
  | write a v =>
    simp only [step, Option.bind_eq_bind, Option.bind_eq_some_iff, Option.some.injEq] at hs
    obtain ⟨q, hq, rfl⟩ := hs
    exact .inr ⟨.write a v, hq⟩
  | schedule p c =>
    simp only [step] at hs
    split_ifs at hs
    simp only [Option.bind_eq_bind, Option.bind_eq_some_iff, Option.some.injEq] at hs
    obtain ⟨q, hq, rfl⟩ := hs
    exact .inr ⟨.push p c, hq⟩
  | push p =>
    simp only [step, Option.bind_eq_bind, Option.bind_eq_some_iff, Option.some.injEq] at hs
    obtain ⟨q, hq, rfl⟩ := hs
    exact .inr ⟨.insert (some p), hq⟩
  | pop =>
    simp only [step] at hs
    split at hs
    · simp only [Option.bind_eq_bind, Option.bind_eq_some_iff, Option.some.injEq] at hs
      obtain ⟨q, hq, rfl⟩ := hs
      exact .inr (popNext_step hq)
    · simp only [Option.bind_eq_bind, Option.bind_eq_some_iff, Option.some.injEq] at hs
      obtain ⟨q, hq, rfl⟩ := hs
      exact .inr (popNext_step hq)
    · cases hs
  | trywait =>
    simp only [step] at hs
    split at hs
    · split_ifs at hs <;> cases hs <;> exact .inl rfl
    · cases hs
  | io v => cases hs; exact .inl rfl
  | _ =>
    simp only [step] at hs
    split_ifs at hs <;> cases hs <;> exact .inl rfl

theorem runQueue_reachable {stub : Word.Addr} {s : State P} (h : (machine P stub).Reachable s) :
    (BlockingMPSCQueue.machine P stub).Reachable s.runQueue :=
  h.map State.runQueue (fun s h0 => by rcases h0 with rfl | rfl <;> rfl)
    fun _ _ _ _ hs => runQueue_step hs

/-- A step of `pop` leaves the producers alone. When `pop` returns `nullptr`, the tail is marked. -/
theorem popNext_spec {stub : Word} {q q' : BlockingMPSCQueue.State P}
    (hs : popNext stub q = some q') :
    (∀ p, q'.ins (some p) = q.ins (some p)) ∧
      ((q'.pop ≠ .idle ∧ q'.results = q.results) ∨
        (q'.pop = .idle ∧ ∃ l, q'.results = q.results ++ [some l]) ∨
        (q'.pop = .idle ∧ q'.results = q.results ++ [none] ∧ q'.tail.marked = true)) := by
  unfold popNext at hs
  split_ifs at hs with hre
  · -- Inside `insert(stub, stub)` the position in `pop` does not move.
    unfold BlockingMPSCQueue.insert at hs
    cases hi : q.ins none <;> simp only [hi] at hs <;> cases hs
    · exact ⟨fun p => by simp, .inl ⟨by simp [hre.1], rfl⟩⟩
    · exact ⟨fun p => by simp, .inl ⟨by simp [BlockingMPSCQueue.enqueue, hre.1], rfl⟩⟩
    · exact ⟨fun p => by simp, .inl ⟨by simp [hre.1], rfl⟩⟩
  · unfold BlockingMPSCQueue.popStep at hs
    cases hp : q.pop with
    | readTail =>
      simp only [hp] at hs
      by_cases hm : q.tail.marked
      · simp only [hm, if_true] at hs
        cases hs
        exact ⟨fun _ => rfl, .inr (.inr ⟨rfl, rfl, hm⟩)⟩
      · simp only [hm] at hs
        cases hs
        exact ⟨fun _ => rfl, .inl ⟨nofun, rfl⟩⟩
    | cas =>
      simp only [hp] at hs
      by_cases ht : q.tail = stub
      · rw [if_pos ht] at hs
        cases hs
        exact ⟨fun _ => rfl, .inr (.inr ⟨rfl, rfl, Word.marked_mark stub⟩)⟩
      · rw [if_neg ht] at hs
        cases hs
        exact ⟨fun _ => rfl, .inl ⟨nofun, rfl⟩⟩
    | clear l =>
      simp only [hp] at hs
      cases hs
      exact ⟨fun _ => rfl, .inr (.inl ⟨rfl, l, rfl⟩)⟩
    | takeStub =>
      simp only [hp] at hs
      cases hs
      exact ⟨fun p => by simp, .inl ⟨nofun, rfl⟩⟩
    | reinsert =>
      simp only [hp] at hs
      split_ifs at hs
      cases hs
      exact ⟨fun _ => rfl, .inl ⟨nofun, rfl⟩⟩
    | readHead | waitStub | waitHead =>
      simp only [hp] at hs
      cases hs
      refine ⟨fun _ => rfl, .inl ⟨?_, rfl⟩⟩
      show (if _ then _ else _) ≠ Pop.idle
      split_ifs <;> exact nofun
    | _ =>
      simp only [hp] at hs
      cases hs
      exact ⟨fun _ => rfl, .inl ⟨nofun, rfl⟩⟩

/-- A popped element is not null. -/
theorem popped_ne_zero {stub : Word.Addr} {q : BlockingMPSCQueue.State P}
    (h : (BlockingMPSCQueue.machine P stub).Reachable q) {a : Word} (ha : a ∈ q.popped) :
    a ≠ 0#64 := by
  obtain ⟨Q, hQ⟩ := BlockingMPSCQueue.inv_reachable h
  refine (hQ.elements a ?_).1.ne_zero
  rw [← hQ.content, List.append_assoc]
  exact List.mem_append_left _ ha

/-- When `pop` has returned, its value is an element it popped, or null with the queue marked. -/
theorem popResult_spec {stub : Word.Addr} {q q' : BlockingMPSCQueue.State P}
    (hr : (BlockingMPSCQueue.machine P stub).Reachable q') (hs : popNext stub q = some q')
    (hidle : q'.pop = .idle) :
    (popResult q' ≠ 0#64 ∧ popResult q' ∈ q'.popped) ∨
      (popResult q' = 0#64 ∧ q'.tail.marked = true) := by
  rcases (popNext_spec hs).2 with ⟨hne, -⟩ | ⟨-, l, hl⟩ | ⟨-, hn, hm⟩
  · exact absurd hidle hne
  · have hres : popResult q' = l := by simp [popResult, hl]
    have hmem : l ∈ q'.popped := by simp [BlockingMPSCQueue.State.popped, hl]
    rw [hres]
    exact .inl ⟨popped_ne_zero hr hmem, hmem⟩
  · exact .inr ⟨by simp [popResult, hn], hm⟩

theorem push_spec {p : P} {c : List Word} {q q' : BlockingMPSCQueue.State P}
    (hs : BlockingMPSCQueue.push p c q = some q') :
    q.ins (some p) = .idle ∧ q'.pop = q.pop ∧ q'.tail = q.tail ∧ q'.results = q.results ∧
      ∀ t, t ≠ p → q'.ins (some t) = q.ins (some t) := by
  unfold BlockingMPSCQueue.push at hs
  split at hs
  · split_ifs at hs with hg
    cases hs
    exact ⟨hg.1, rfl, rfl, rfl, fun t ht => by simp [ht]⟩
  · cases hs

/-- A step of a producer in `push`: the exchange takes the mark and remembers it, the link is the
last step. -/
theorem insert_spec {p : P} {q q' : BlockingMPSCQueue.State P}
    (hs : BlockingMPSCQueue.insert (some p) q = some q') :
    q'.pop = q.pop ∧ q'.results = q.results ∧ (∀ t, t ≠ p → q'.ins (some t) = q.ins (some t)) ∧
      ((∃ f l c, q.ins (some p) = .clear f l c ∧ q'.tail = q.tail ∧
          q'.ins (some p) = .exchange f l c) ∨
        (∃ f l c, q.ins (some p) = .exchange f l c ∧
          q'.ins (some p) = .link q.tail.unmark f q.tail.marked) ∨
        (∃ a f w, q.ins (some p) = .link a f w ∧ q'.tail = q.tail ∧ q'.ins (some p) = .idle)) := by
  unfold BlockingMPSCQueue.insert at hs
  cases hi : q.ins (some p) with
  | idle => simp [hi] at hs
  | clear f l c =>
    simp only [hi] at hs
    cases hs
    exact ⟨rfl, rfl, fun t ht => by simp [ht], .inl ⟨f, l, c, rfl, rfl, by simp⟩⟩
  | exchange f l c =>
    simp only [hi] at hs
    cases hs
    exact ⟨rfl, rfl, fun t ht => by simp [ht], .inr (.inl ⟨f, l, c, rfl, by simp⟩)⟩
  | link a f w =>
    simp only [hi] at hs
    cases hs
    exact ⟨rfl, rfl, fun t ht => by simp [ht], .inr (.inr ⟨a, f, w, rfl, rfl, by simp⟩)⟩

/-! ## The invariant -/

/-- Producer `p` has exchanged the mark away and has still to post. -/
def Owes (s : State P) (p : P) : Prop :=
  s.posting p = true ∨ ∃ prev first, s.runQueue.ins (some p) = .link prev first true

/-- The kThread can be woken: the queue is marked empty, or a post is due, or one was made. -/
def Wakes (s : State P) : Prop :=
  s.runQueue.tail.marked = true ∨ (∃ p, Owes s p) ∨ 0 < s.sem

/-- The kThread is in `runQueue.pop()`. -/
def Consumer.popping : Consumer → Prop
  | .nonBlocking _ | .blocking => True
  | _ => False

/-- The kThread is on `mainUT` and has not passed `sem.wait()`. -/
def Consumer.parking : Consumer → Prop
  | .mainUT | .wait => True
  | _ => False

/-- A uThread that was popped. -/
def Popped (s : State P) (ut : Word) : Prop := ut ≠ 0#64 ∧ ut ∈ s.runQueue.popped

structure Inv (stub : Word.Addr) (s : State P) : Prop where
  queue : (BlockingMPSCQueue.machine P stub).Reachable s.runQueue
  /-- A producer posts after its push. -/
  posts : ∀ p, s.posting p = true → s.runQueue.ins (some p) = .idle
  pops : s.runQueue.pop = .idle ∨ s.consumer.popping
  wakes : s.consumer.parking → Wakes s
  leave : ∀ ut, s.consumer = .leave ut → Popped s ut
  returned : ∀ ut ∈ s.returned, Popped s ut

section Steps

variable {stub : Word.Addr} {s s' : State P}

/-- What a step keeps that leaves the kThread where it is: it must keep the kThread wakeable. -/
theorem Inv.of_producer (h : Inv stub s) {a : Action P} (hs : step stub s a = some s')
    (hpop : s'.runQueue.pop = s.runQueue.pop) (hres : s'.runQueue.results = s.runQueue.results)
    (hcons : s'.consumer = s.consumer) (hret : s'.returned = s.returned)
    (hposts : ∀ p, s'.posting p = true → s'.runQueue.ins (some p) = .idle)
    (hwakes : Wakes s → Wakes s') : Inv stub s' := by
  have hpopped : ∀ ut, Popped s ut → Popped s' ut := by
    intro ut hut
    unfold Popped BlockingMPSCQueue.State.popped at hut ⊢
    rw [hres]
    exact hut
  refine ⟨?_, hposts, ?_, ?_, ?_, ?_⟩
  · rcases runQueue_step hs with he | ⟨b, hb⟩
    · rw [he]; exact h.queue
    · exact h.queue.next hb
  · rw [hpop, hcons]; exact h.pops
  · intro hc
    rw [hcons] at hc
    exact hwakes (h.wakes hc)
  · intro ut hut
    rw [hcons] at hut
    exact hpopped ut (h.leave ut hut)
  · intro ut hut
    rw [hret] at hut
    exact hpopped ut (h.returned ut hut)

theorem inv_schedule (h : Inv stub s) {p : P} {c : List Word}
    (hs : step stub s (.schedule p c) = some s') : Inv stub s' := by
  have hs' := hs
  simp only [step] at hs'
  split_ifs at hs' with hpost
  simp only [Option.bind_eq_bind, Option.bind_eq_some_iff, Option.some.injEq] at hs'
  obtain ⟨q, hq, rfl⟩ := hs'
  obtain ⟨hidle, hpop, htail, hres, hins⟩ := push_spec hq
  refine h.of_producer hs hpop hres rfl rfl ?_ ?_
  · intro t ht
    have hne : t ≠ p := by
      rintro rfl
      rw [hpost] at ht
      cases ht
    show q.ins (some t) = .idle
    rw [hins t hne]
    exact h.posts t ht
  · rintro (hm | ⟨t, ht⟩ | hsem)
    · exact .inl (by rw [← hm, ← htail])
    · have hne : t ≠ p := by
        rintro rfl
        rcases ht with ht | ⟨prev, first, ht⟩
        · rw [hpost] at ht; cases ht
        · rw [hidle] at ht; cases ht
      refine .inr (.inl ⟨t, ht.imp id fun ⟨prev, first, hl⟩ => ⟨prev, first, ?_⟩⟩)
      rw [← hl, ← hins t hne]
    · exact .inr (.inr hsem)

/-- The exchange that takes the mark away leaves a producer that owes a post. -/
theorem inv_push (h : Inv stub s) {p : P} (hs : step stub s (.push p) = some s') :
    Inv stub s' := by
  have hs' := hs
  simp only [step, Option.bind_eq_bind, Option.bind_eq_some_iff, Option.some.injEq] at hs'
  obtain ⟨q, hq, rfl⟩ := hs'
  obtain ⟨hpop, hres, hins, hstage⟩ := insert_spec hq
  -- In `push` the producer has no post pending.
  have hnot : s.posting p = false := by
    cases hb : s.posting p with
    | false => rfl
    | true =>
      have hi := h.posts p hb
      rcases hstage with ⟨f, l, c, hc, -⟩ | ⟨f, l, c, hc, -⟩ | ⟨a, f, w, hc, -⟩ <;>
        rw [hi] at hc <;> cases hc
  refine h.of_producer hs hpop hres rfl rfl ?_ ?_
  · intro t ht
    by_cases hne : t = p
    · subst hne
      rcases hstage with ⟨f, l, c, hc, -⟩ | ⟨f, l, c, hc, -⟩ | ⟨a, f, w, -, -, hi⟩
      · simp [hc, hnot] at ht
      · simp [hc, hnot] at ht
      · exact hi
    · have hold : s.posting t = true := by
        rcases hstage with ⟨f, l, c, hc, -⟩ | ⟨f, l, c, hc, -⟩ | ⟨a, f, w, hc, -, -⟩ <;>
          simpa [hc, hne] using ht
      show q.ins (some t) = .idle
      rw [hins t hne]
      exact h.posts t hold
  · rintro (hm | ⟨t, ht⟩ | hsem)
    · rcases hstage with ⟨f, l, c, hc, htail, -⟩ | ⟨f, l, c, hc, hl⟩ | ⟨a, f, w, hc, htail, -⟩
      · exact .inl (by rw [← hm, ← htail])
      · exact .inr (.inl ⟨p, .inr ⟨_, f, by rw [← hm]; exact hl⟩⟩)
      · exact .inl (by rw [← hm, ← htail])
    · refine .inr (.inl ⟨t, ?_⟩)
      by_cases hne : t = p
      · subst hne
        rcases ht with ht | ⟨prev, first, hl⟩
        · rw [hnot] at ht; cases ht
        · left
          simp [hl]
      · rcases ht with ht | ⟨prev, first, hl⟩
        · left
          rcases hstage with ⟨f, l, c, hc, -⟩ | ⟨f, l, c, hc, -⟩ | ⟨a, f, w, hc, -, -⟩ <;>
            simpa [hc, hne] using ht
        · exact .inr ⟨prev, first, by rw [← hl, ← hins t hne]⟩
    · exact .inr (.inr hsem)

theorem inv_post (h : Inv stub s) {p : P} (hs : step stub s (.post p) = some s') :
    Inv stub s' := by
  have hs' := hs
  simp only [step] at hs'
  split_ifs at hs' with hp hmax
  · cases hs'
    refine h.of_producer hs rfl rfl rfl rfl ?_ fun _ => .inr (.inr (Nat.succ_pos _))
    intro t ht
    by_cases hne : t = p
    · simp [hne] at ht
    · exact h.posts t (by simpa [hne] using ht)
  · cases hs'
    exact h

/-- The consumer's step in `pop`: it goes on, it has an element, or it goes to wait and leaves the
queue marked. -/
theorem inv_pop (h : Inv stub s) {q : BlockingMPSCQueue.State P}
    (hq : popNext stub s.runQueue = some q) {next : Consumer}
    (hnext : (q.pop ≠ .idle ∧ next = s.consumer) ∨
      (q.pop = .idle ∧ (next.parking → popResult q = 0#64) ∧
        ∀ ut, next = .leave ut → ut ≠ 0#64 ∧ ut = popResult q))
    (hc : s.consumer.popping) : Inv stub { s with runQueue := q, consumer := next } := by
  have hqr : (BlockingMPSCQueue.machine P stub).Reachable q := by
    obtain ⟨b, hb⟩ := popNext_step hq
    exact h.queue.next hb
  obtain ⟨hins, hres⟩ := popNext_spec hq
  have hret : ∀ ut ∈ s.returned, Popped { s with runQueue := q, consumer := next } ut := by
    intro ut hut
    obtain ⟨hne, hmem⟩ := h.returned ut hut
    refine ⟨hne, ?_⟩
    show ut ∈ q.popped
    unfold BlockingMPSCQueue.State.popped at hmem ⊢
    rcases hres with ⟨-, hr⟩ | ⟨-, l, hr⟩ | ⟨-, hr, -⟩ <;> rw [hr]
    · exact hmem
    · rw [List.filterMap_append]
      exact List.mem_append_left _ hmem
    · rw [List.filterMap_append]
      exact List.mem_append_left _ hmem
  have hposts : ∀ p, s.posting p = true → q.ins (some p) = .idle := by
    intro p hp
    rw [hins p]
    exact h.posts p hp
  rcases hnext with ⟨hgo, rfl⟩ | ⟨hdone, hpark, hleave⟩
  · refine ⟨hqr, hposts, .inr hc, ?_, ?_, hret⟩
    · intro hpk
      exact absurd hpk (by cases hcs : s.consumer <;> simp_all [Consumer.popping, Consumer.parking])
    · intro ut hut
      have hut' : s.consumer = .leave ut := hut
      rw [hut'] at hc
      exact hc.elim
  · refine ⟨hqr, hposts, .inl hdone, ?_, ?_, hret⟩
    · intro hpk
      rcases popResult_spec hqr hq hdone with ⟨hne, -⟩ | ⟨-, hm⟩
      · exact absurd (hpark hpk) hne
      · exact .inl hm
    · intro ut hut
      obtain ⟨hne, heq⟩ := hleave ut hut
      subst heq
      rcases popResult_spec hqr hq hdone with hpopped | ⟨hz, -⟩
      · exact hpopped
      · exact absurd hz hne

theorem inv_write (h : Inv stub s) {a v : BitVec 64} (hs : step stub s (.write a v) = some s') :
    Inv stub s' := by
  have hs' := hs
  simp only [step, Option.bind_eq_bind, Option.bind_eq_some_iff, Option.some.injEq,
    BlockingMPSCQueue.step] at hs'
  obtain ⟨q, hq, rfl⟩ := hs'
  split_ifs at hq
  cases hq
  exact h.of_producer hs rfl rfl rfl rfl h.posts id

theorem inv_step (h : Inv stub s) {a : Action P} (hs : step stub s a = some s') :
    Inv stub s' := by
  have hs' := hs
  cases a with
  | write a v => exact inv_write h hs
  | schedule p c => exact inv_schedule h hs
  | push p => exact inv_push h hs
  | post p => exact inv_post h hs
  | switch y =>
    simp only [step] at hs'
    split_ifs at hs' with hc
    cases hs'
    have hpop : s.runQueue.pop = .idle := h.pops.resolve_right (by simp [hc, Consumer.popping])
    exact { h with pops := .inl hpop, wakes := nofun, leave := nofun }
  | pop =>
    simp only [step] at hs'
    split at hs' <;> rename_i hc
    · simp only [Option.bind_eq_bind, Option.bind_eq_some_iff, Option.some.injEq] at hs'
      obtain ⟨q, hq, rfl⟩ := hs'
      refine inv_pop h hq ?_ (by simp [hc, Consumer.popping])
      split_ifs with hi
      · refine .inr ⟨hi, ?_, ?_⟩ <;> unfold afterNonBlocking <;> split_ifs <;>
          simp_all [Consumer.parking]
      · exact .inl ⟨hi, hc.symm⟩
    · simp only [Option.bind_eq_bind, Option.bind_eq_some_iff, Option.some.injEq] at hs'
      obtain ⟨q, hq, rfl⟩ := hs'
      refine inv_pop h hq ?_ (by simp [hc, Consumer.popping])
      split_ifs with hi
      · refine .inr ⟨hi, ?_, ?_⟩ <;> unfold afterBlocking <;> split_ifs with hz
        · exact fun _ => hz
        · exact nofun
        · exact nofun
        · rintro ut ⟨rfl⟩
          exact ⟨hz, rfl⟩
      · exact .inl ⟨hi, hc.symm⟩
    · cases hs'
  | enter =>
    simp only [step] at hs'
    split_ifs at hs' with hc
    cases hs'
    have hw : Wakes s := h.wakes (by simp [hc, Consumer.parking])
    have hpop : s.runQueue.pop = .idle := h.pops.resolve_right (by simp [hc, Consumer.popping])
    exact { h with pops := .inl hpop, wakes := fun _ => hw, leave := nofun }
  | wait =>
    simp only [step] at hs'
    split_ifs at hs' with hc
    cases hs'
    exact { h with pops := .inr trivial, wakes := nofun, leave := nofun }
  | trywait =>
    simp only [step] at hs'
    split at hs' <;> rename_i hc
    · split_ifs at hs'
      · cases hs'
        rename_i ut _
        have hpop : s.runQueue.pop = .idle := h.pops.resolve_right (by simp [hc, Consumer.popping])
        refine { h with pops := .inl hpop, wakes := nofun, leave := nofun, returned := ?_ }
        intro v hv
        rcases List.mem_append.mp hv with hv | hv
        · exact h.returned v hv
        · rw [List.mem_singleton.mp hv]
          exact h.leave ut hc
      · cases hs'
        exact h
    · cases hs'
  | io v =>
    cases hs'
    exact { h with }

end Steps

theorem inv_reachable {stub : Word.Addr} {s : State P} (h : (machine P stub).Reachable s) :
    Inv stub s := by
  refine Machine.Reachable.invariant (I := Inv stub) ?_ (fun _ _ _ hI hs => inv_step hI hs) h
  rintro s (rfl | rfl)
  · exact ⟨.of_init rfl, nofun, .inl rfl, fun _ => .inl (Word.marked_mark stub.1), nofun, nofun⟩
  · exact ⟨.of_init rfl, nofun, .inl rfl, nofun, nofun, nofun⟩

/-- **No wake-up is lost.** A kThread at `sem.wait()` with no token finds the queue marked and all
elements popped, or some producer has taken the mark and has still to post; and `blockingSwitch`
returns only uThreads, which it popped. -/
theorem no_lost_wakeup (stub : Word.Addr) {s : State P} (h : (machine P stub).Reachable s) :
    (s.consumer = .wait → s.sem = 0 →
      (s.runQueue.tail.marked = true ∧ s.runQueue.popped = s.runQueue.pushed) ∨
        ∃ p, Owes s p) ∧
      ∀ ut ∈ s.returned, ut ≠ 0#64 ∧ ut ∈ s.runQueue.popped := by
  have hI := inv_reachable h
  refine ⟨fun hw hsem => ?_, hI.returned⟩
  rcases hI.wakes (by simp [hw, Consumer.parking]) with hm | ho | hpos
  · obtain ⟨Q, hQ⟩ := BlockingMPSCQueue.inv_reachable hI.queue
    have hpop : s.runQueue.pop = .idle := hI.pops.resolve_right (by simp [hw, Consumer.popping])
    obtain rfl := hQ.marked hm
    exact .inl ⟨hm, hQ.popped_eq (by simp [BlockingMPSCQueue.State.inHand, hpop])⟩
  · exact .inr ho
  · omega

/-- Producer `0` schedules a uThread; `blockingSwitch` waits for it and returns it. The uThread
blocks, and the kThread is back at `sem.wait()` when producer `1` exchanges a second one in. -/
def secondWait : List (Action ℕ) :=
  List.flatten [[.enter, .schedule 0 [32], .push 0, .push 0, .push 0, .post 0, .wait],
    List.replicate 13 .pop, [.trywait, .switch false], List.replicate 4 .pop,
    [.enter, .schedule 1 [48], .push 1, .push 1]]

theorem no_lost_wakeup_secondWait :
    ∃ s, (machine ℕ ⟨16, by decide⟩).Reachable s ∧ s.consumer = .wait ∧ s.sem = 0 ∧
      s.returned = [32] ∧
      ((s.runQueue.tail.marked = true ∧ s.runQueue.popped = s.runQueue.pushed) ∨
        ∃ p, Owes s p) := by
  have hinit : (machine ℕ ⟨16, by decide⟩).Reachable (initial 16 .mainUT) := .of_init (.inl rfl)
  have hr := hinit.get secondWait (by decide +kernel)
  exact ⟨_, hr, by decide +kernel, by decide +kernel, by decide +kernel,
    (no_lost_wakeup _ hr).1 (by decide +kernel) (by decide +kernel)⟩

end UThreads.Scheduler02
