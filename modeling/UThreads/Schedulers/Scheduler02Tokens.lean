import UThreads.Schedulers.Scheduler02

/-!
# `Scheduler_02`: the tokens of the semaphore

A push that takes the mark of the empty queue away posts a token. The kThread marks the queue again
each time its pop finds nothing, and it takes a token only in `blockingSwitch`. So a token is left
over each time a uThread yields, finds that the queue has been emptied, marks it and goes on
(`Counted` counts these yields): there are never more tokens than such yields and two
(`sem_bounded`), and a kThread that is kept busy by one yielding uThread collects them until
`sem_post` fails (`sem_overflows`).
-/

namespace UThreads.Scheduler02

open BlockingMPSCQueue (Insert Pop)

/-! ## Counting the yields that fall through -/

section Counting

variable {P : Type*} [DecidableEq P]

/-- The scheduler, with the number of yields that found the queue empty and marked it. -/
structure Counted (P : Type*) where
  state : State P
  fallThroughs : ℕ

/-- The pop of a `nonBlockingSwitch` for a yield marks the queue and returns null. -/
def fallsThrough (s : State P) : Action P → State P → Bool
  | .pop, s' => s.consumer = .nonBlocking true ∧ s.runQueue.pop = .cas ∧ s'.runQueue.pop = .idle
  | _, _ => false

def countedMachine (P : Type*) [DecidableEq P] (stub : Word.Addr) :
    Machine (Counted P) (Action P) where
  init := fun s => (machine P stub).init s.state ∧ s.fallThroughs = 0
  step := fun s a => (step stub s.state a).map fun s' =>
    ⟨s', s.fallThroughs + (fallsThrough s.state a s').toNat⟩

/-- The kThread will pass `sem.wait()` before its next pop. -/
def Consumer.waits : Consumer → ℕ
  | .mainUT | .wait => 1
  | _ => 0

/-- The mark, the producers `L` that owe a post, and the tokens. -/
structure Tokens (n : ℕ) (s : State P) (L : List P) : Prop where
  nodup : L.Nodup
  owes : ∀ p, p ∈ L ↔ Owes s p
  bound : s.runQueue.tail.marked.toNat + L.length + s.sem ≤ 1 + n + s.consumer.waits

variable {stub : Word.Addr} {s s' : State P} {L : List P} {n : ℕ} {p : P}

omit [DecidableEq P] in
/-- A step that leaves the mark, the posts that are due and the semaphore. -/
theorem Tokens.frame (h : Tokens n s L) (howes : ∀ p, Owes s' p ↔ Owes s p)
    (hmark : s'.runQueue.tail.marked.toNat + s'.sem + s.consumer.waits ≤
      s.runQueue.tail.marked.toNat + s.sem + s'.consumer.waits) : Tokens n s' L where
  nodup := h.nodup
  owes := fun p => (h.owes p).trans (howes p).symm
  bound := by
    have hbound := h.bound
    omega

theorem tokens_schedule {chain : List Word} (h : Tokens n s L)
    (hs : step stub s (.schedule p chain) = some s') : Tokens n s' L := by
  simp only [step] at hs
  split_ifs at hs with hpost
  simp only [Option.bind_eq_bind, Option.bind_eq_some_iff, Option.some.injEq] at hs
  obtain ⟨q, hq, rfl⟩ := hs
  obtain ⟨hidle, -, htail, -, hins⟩ := push_spec hq
  have hclear : ∀ prev first w, q.ins (some p) ≠ .link prev first w := by
    unfold BlockingMPSCQueue.push at hq
    split at hq
    · split_ifs at hq
      cases hq
      simp
    · exact absurd hq (by simp)
  refine h.frame (fun t => ?_) (by simp [htail])
  by_cases ht : t = p
  · simp [Owes, ht, hpost, hidle, hclear]
  · simp [Owes, hins t ht]

/-- After its exchange, the tail is the last element of the producer's chain, and not marked. -/
theorem exchange_unmarked {q q' : BlockingMPSCQueue.State P} {f l : Word} {c : List Word}
    (hr : (BlockingMPSCQueue.machine P stub).Reachable q) (hc : q.ins (some p) = .exchange f l c)
    (hs : BlockingMPSCQueue.insert (some p) q = some q') : q'.tail.marked = false := by
  obtain ⟨Q, hQ⟩ := BlockingMPSCQueue.inv_reachable hr
  obtain ⟨-, hlast, -, hplace, -⟩ := hQ.producer p f l c (.inr hc)
  have hl := hplace l (List.mem_of_getLast? hlast)
  have haddr : l.IsAddr := hQ.addr l (by simp [hl])
  simp only [BlockingMPSCQueue.insert, hc, Option.some.injEq] at hs
  subst hs
  exact haddr.even

/-- The exchange takes the mark away and makes the producer owe a post. -/
theorem tokens_push (h : Tokens n s L) (hI : Inv stub s) (hs : step stub s (.push p) = some s') :
    ∃ L', Tokens n s' L' := by
  simp only [step, Option.bind_eq_bind, Option.bind_eq_some_iff, Option.some.injEq] at hs
  obtain ⟨q, hq, rfl⟩ := hs
  obtain ⟨-, -, hins, hstage⟩ := insert_spec hq
  have hnot : s.posting p = false := by
    by_contra hp
    have hidle := hI.posts p (by simpa using hp)
    rcases hstage with ⟨f, l, c, hc, -⟩ | ⟨f, l, c, hc, -⟩ | ⟨a, f, w, hc, -⟩ <;> simp [hidle] at hc
  rcases hstage with ⟨f, l, c, hc, htail, hnew⟩ | ⟨f, l, c, hc, hnew⟩ | ⟨a, f, w, hc, htail, hnew⟩
  · refine ⟨L, h.frame (fun t => ?_) (by simp [htail])⟩
    by_cases ht : t = p
    · simp [Owes, ht, hc, hnew]
    · simp [Owes, hc, hins t ht]
  · have hunmarked := exchange_unmarked hI.queue hc hq
    have hout : p ∉ L := by
      rw [h.owes]
      simp [Owes, hnot, hc]
    by_cases hm : s.runQueue.tail.marked = true
    · refine ⟨p :: L, List.nodup_cons.mpr ⟨hout, h.nodup⟩, fun t => ?_, ?_⟩
      · by_cases ht : t = p
        · simp [Owes, ht, hnew, hm]
        · simp [Owes, hc, hins t ht, ht, h.owes t]
      · have hbound := h.bound
        simp only [hm, Bool.toNat_true] at hbound
        simp only [hunmarked, Bool.toNat_false, List.length_cons]
        omega
    · refine ⟨L, h.frame (fun t => ?_) (by simp [hunmarked])⟩
      by_cases ht : t = p
      · simp [Owes, ht, hc, hnew, hm]
      · simp [Owes, hc, hins t ht]
  · refine ⟨L, h.frame (fun t => ?_) (by simp [htail])⟩
    by_cases ht : t = p
    · subst ht
      simp [Owes, hc, hnew, hnot]
    · simp [Owes, hc, hins t ht, ht]

theorem tokens_post (h : Tokens n s L) (hI : Inv stub s) (hs : step stub s (.post p) = some s') :
    ∃ L', Tokens n s' L' := by
  simp only [step] at hs
  split_ifs at hs with hp hmax
  · cases hs
    have hmem : p ∈ L := (h.owes p).mpr (.inl hp)
    have hidle := hI.posts p hp
    refine ⟨L.erase p, h.nodup.erase p, fun t => ?_, ?_⟩
    · rw [h.nodup.mem_erase_iff, h.owes t]
      by_cases ht : t = p
      · simp [Owes, ht, hidle]
      · simp [Owes, ht]
    · have hbound := h.bound
      have hlen := List.length_erase_add_one hmem
      simp only
      omega
  · cases hs
    exact ⟨L, h⟩

/-- A step of `pop` marks the tail only when it returns null. -/
theorem popNext_mark {q q' : BlockingMPSCQueue.State P}
    (hr : (BlockingMPSCQueue.machine P stub).Reachable q) (hs : popNext stub q = some q') :
    q'.tail.marked.toNat ≤ q.tail.marked.toNat ∨
      q.pop = .cas ∧ q'.pop = .idle ∧ popResult q' = 0#64 := by
  obtain ⟨Q, hQ⟩ := BlockingMPSCQueue.inv_reachable hr
  have hconsumer := hQ.consumer
  unfold popNext at hs
  split_ifs at hs with hre
  · unfold BlockingMPSCQueue.insert at hs
    simp only [BlockingMPSCQueue.ConsumerInv, hre.1] at hconsumer
    cases hi : q.ins none with
    | idle => exact absurd hi hre.2
    | clear f l c =>
      simp only [hi, Option.some.injEq] at hs
      subst hs
      exact .inl le_rfl
    | exchange f l c =>
      -- the stub goes back
      simp only [hi] at hconsumer
      obtain ⟨-, rfl, -⟩ := hconsumer
      simp only [hi, Option.some.injEq] at hs
      subst hs
      simp [stub.2.even]
    | link a f w =>
      simp only [hi, Option.some.injEq] at hs
      subst hs
      exact .inl le_rfl
  · unfold BlockingMPSCQueue.popStep at hs
    cases hp : q.pop with
    | readTail =>
      simp only [hp, Option.some.injEq] at hs
      subst hs
      left
      split_ifs <;> exact le_rfl
    | cas =>
      simp only [hp, Option.some.injEq] at hs
      subst hs
      split_ifs with ht
      · exact .inr ⟨rfl, rfl, by simp [popResult, BlockingMPSCQueue.State.ret]⟩
      · exact .inl le_rfl
    | reinsert =>
      simp only [hp] at hs
      split_ifs at hs
      cases hs
      exact .inl le_rfl
    | _ =>
      simp only [hp, Option.some.injEq] at hs
      subst hs
      exact .inl le_rfl

/-- A step of `pop` that is not followed by a wait, or counted, does not return null. -/
theorem Tokens.pop (h : Tokens n s L) (hI : Inv stub s) (hc : s.consumer.waits = 0)
    {q : BlockingMPSCQueue.State P} (hq : popNext stub s.runQueue = some q)
    {next : Consumer} {k : ℕ}
    (hnull : s.runQueue.pop = .cas → q.pop = .idle → popResult q = 0#64 → k + next.waits = 1) :
    Tokens (n + k) { s with runQueue := q, consumer := next } L := by
  refine ⟨h.nodup, fun p => ?_, ?_⟩
  · rw [h.owes p]
    simp [Owes, (popNext_spec hq).1 p]
  · have hbound := h.bound
    have hbit := Bool.toNat_le q.tail.marked
    simp only
    rcases popNext_mark hI.queue hq with hmark | ⟨hcas, hidle, hzero⟩
    · omega
    · have hone := hnull hcas hidle hzero
      omega

/-- A pop that returns null leads to `sem.wait()`, unless the uThread yields and goes on. -/
theorem tokens_pop (h : Tokens n s L) (hI : Inv stub s) (hs : step stub s .pop = some s') :
    Tokens (n + (fallsThrough s .pop s').toNat) s' L := by
  simp only [step] at hs
  split at hs <;> rename_i hc
  · simp only [Option.bind_eq_bind, Option.bind_eq_some_iff, Option.some.injEq] at hs
    obtain ⟨q, hq, rfl⟩ := hs
    rename_i yield
    refine h.pop hI (by simp [hc, Consumer.waits]) hq fun hcas hidle hnull => ?_
    cases yield <;> simp [hcas, hidle, hnull, afterNonBlocking, Consumer.waits, fallsThrough, hc]
  · simp only [Option.bind_eq_bind, Option.bind_eq_some_iff, Option.some.injEq] at hs
    obtain ⟨q, hq, rfl⟩ := hs
    refine h.pop hI (by simp [hc, Consumer.waits]) hq fun _ hidle hnull => ?_
    simp [hidle, hnull, afterBlocking, Consumer.waits, fallsThrough, hc]
  · exact absurd hs (by simp)

theorem tokens_step {a : Action P} (h : Tokens n s L) (hI : Inv stub s)
    (hs : step stub s a = some s') :
    ∃ L', Tokens (n + (fallsThrough s a s').toNat) s' L' := by
  cases a with
  | pop => exact ⟨L, tokens_pop h hI hs⟩
  | schedule p chain => exact ⟨L, tokens_schedule h hs⟩
  | push p => exact tokens_push h hI hs
  | post p => exact tokens_post h hI hs
  | write b v =>
    simp only [step, Option.bind_eq_bind, Option.bind_eq_some_iff, Option.some.injEq,
      BlockingMPSCQueue.step] at hs
    obtain ⟨q, hq, rfl⟩ := hs
    split_ifs at hq
    cases hq
    exact ⟨L, h.frame (fun p => Iff.rfl) le_rfl⟩
  | switch yield | enter =>
    simp only [step] at hs
    split_ifs at hs with hc
    cases hs
    exact ⟨L, h.frame (fun p => Iff.rfl) (by simp [hc, Consumer.waits])⟩
  | wait =>
    simp only [step] at hs
    split_ifs at hs with hc
    cases hs
    refine ⟨L, h.frame (fun p => Iff.rfl) ?_⟩
    simp only [hc.1, Consumer.waits]
    omega
  | trywait =>
    simp only [step] at hs
    split at hs <;> rename_i hc
    · split_ifs at hs <;> cases hs
      · exact ⟨L, h.frame (fun p => Iff.rfl) (by simp [hc, Consumer.waits])⟩
      · exact ⟨L, h⟩
    · exact absurd hs (by simp)
  | io v =>
    cases hs
    exact ⟨L, h.frame (fun p => Iff.rfl) le_rfl⟩

theorem tokens_reached {s : Counted P} (h : (countedMachine P stub).Reachable s) :
    (machine P stub).Reachable s.state ∧ ∃ L, Tokens s.fallThroughs s.state L := by
  refine h.invariant (I := fun s => (machine P stub).Reachable s.state ∧
    ∃ L, Tokens s.fallThroughs s.state L) ?_ ?_
  · rintro ⟨s, n⟩ ⟨hinit, rfl⟩
    refine ⟨.of_init hinit, [], .nil, fun p => ?_, ?_⟩
    · rcases hinit with rfl | rfl <;> simp [Owes, initial, BlockingMPSCQueue.initial]
    · rcases hinit with rfl | rfl <;>
        simp [initial, BlockingMPSCQueue.initial, Consumer.waits]
  · rintro ⟨s, n⟩ a s' ⟨hr, L, hL⟩ hs
    obtain ⟨s₁, hstep, rfl⟩ := Option.map_eq_some_iff.mp hs
    exact ⟨hr.next hstep, tokens_step hL (inv_reachable hr) hstep⟩

/-- **The semaphore does not overflow** while fewer than `2 ^ 31 - 2` yields have marked the queue:
the tokens, and the posts that are due or in progress, are at most `SEM_VALUE_MAX`, so a post
succeeds at the first try. -/
theorem sem_bounded {s : Counted P} (h : (countedMachine P stub).Reachable s)
    (hfew : s.fallThroughs + 2 ≤ semValueMax) :
    (∀ L : List P, L.Nodup → (∀ p ∈ L, Owes s.state p) → s.state.sem + L.length ≤ semValueMax) ∧
    ∀ p, s.state.posting p = true → step stub s.state (.post p) = some { s.state with
      sem := s.state.sem + 1
      posting := Function.update s.state.posting p false } := by
  obtain ⟨-, L, hL⟩ := tokens_reached h
  have hwaits : s.state.consumer.waits ≤ 1 := by
    cases s.state.consumer <;> simp [Consumer.waits]
  have hbound := hL.bound
  refine ⟨fun L' hnodup howes => ?_, fun p hp => ?_⟩
  · have hsub : L' ⊆ L := fun p hp => (hL.owes p).mpr (howes p hp)
    have hlen := (List.subperm_of_subset hnodup hsub).length_le
    omega
  · have hpos := List.length_pos_of_mem ((hL.owes p).mpr (.inl hp))
    have hlt : s.state.sem < semValueMax := by omega
    simp [step, hp, hlt]

/-- A uThread is pushed and yielded to, and stops; the yielding one goes on. Then producer `0`
pushes again, and has still to post. -/
def oneLeftOver : List (Action ℕ) :=
  List.flatten [[.schedule 0 [32], .push 0, .push 0, .push 0, .post 0, .switch true],
    List.replicate 13 .pop,
    [.switch true], List.replicate 4 .pop, [.schedule 0 [32], .push 0, .push 0, .push 0]]

theorem sem_bounded_oneLeftOver :
    ∃ s : Counted ℕ, (countedMachine ℕ ⟨16, by decide⟩).Reachable s ∧ s.fallThroughs = 1 ∧
      s.state.sem = 1 ∧ s.state.posting 0 = true ∧
      (step 16 s.state (.post 0)).map State.sem = some 2 := by
  have h0 : (countedMachine ℕ ⟨16, by decide⟩).Reachable ⟨initial 16 .running, 0⟩ :=
    .of_init ⟨.inr rfl, rfl⟩
  have hrun := h0.get oneLeftOver (by decide +kernel)
  have hone : (((countedMachine ℕ ⟨16, by decide⟩).run ⟨initial 16 .running, 0⟩ oneLeftOver).get
      (by decide +kernel)).fallThroughs = 1 := by decide +kernel
  have hsem : (((countedMachine ℕ ⟨16, by decide⟩).run ⟨initial 16 .running, 0⟩ oneLeftOver).get
      (by decide +kernel)).state.sem = 1 := by decide +kernel
  have hposting : (((countedMachine ℕ ⟨16, by decide⟩).run ⟨initial 16 .running, 0⟩ oneLeftOver).get
      (by decide +kernel)).state.posting 0 = true := by decide +kernel
  have hpost := (sem_bounded hrun (by rw [hone]; decide)).2 0 hposting
  refine ⟨_, hrun, hone, hsem, hposting, ?_⟩
  rw [hpost, Option.map_some, hsem]

end Counting

/-! ## A busy kThread -/

section Busy

/-- The kThread executes a uThread, no push is in progress, and the queue is empty, with tail
`t`. -/
structure Empty (t : Word) (n : ℕ) (s : State ℕ) : Prop where
  head : s.runQueue.head = 16#64
  tail : s.runQueue.tail = t
  ins : ∀ t, s.runQueue.ins t = .idle
  pop : s.runQueue.pop = .idle
  place : ∀ e, e ≠ 16#64 → s.runQueue.place e = .free
  posting : ∀ p, s.posting p = false
  consumer : s.consumer = .running
  sem : s.sem = n

/-- The same, with `e` in the queue. -/
structure Loaded (e : Word) (n : ℕ) (s : State ℕ) : Prop where
  head : s.runQueue.head = 16#64
  tail : s.runQueue.tail = e
  next : s.runQueue.next 16#64 = e
  ins : ∀ t, s.runQueue.ins t = .idle
  pop : s.runQueue.pop = .idle
  place : ∀ a, a ≠ 16#64 → a ≠ e → s.runQueue.place a = .free
  posting : ∀ p, s.posting p = false
  consumer : s.consumer = .running
  sem : s.sem = n

/-- The kThread has taken the stub off the queue with `e`, and is about to put it back behind
`e`. -/
structure Popping (e : Word) (n : ℕ) (yield : Bool) (s : State ℕ) : Prop where
  head : s.runQueue.head = e
  tail : s.runQueue.tail = e
  inserting : s.runQueue.ins none = .clear 16#64 16#64 [16#64]
  ins : ∀ p, s.runQueue.ins (some p) = .idle
  pop : s.runQueue.pop = .reinsert
  place : ∀ a, a ≠ 16#64 → a ≠ e → s.runQueue.place a = .free
  posting : ∀ p, s.posting p = false
  consumer : s.consumer = .nonBlocking yield
  sem : s.sem = n

variable {n : ℕ} {s : State ℕ} {e : Word}

abbrev stub : Word.Addr := ⟨16#64, by decide⟩

/-- Producer `0` pushes `e` to the marked queue, and posts. -/
def arrive (e : Word) : List (Action ℕ) := [.schedule 0 [e], .push 0, .push 0, .push 0, .post 0]

/-- Producer `1` pushes `e` to the queue that is empty and not marked. -/
def requeue (e : Word) : List (Action ℕ) := [.schedule 1 [e], .push 1, .push 1, .push 1]

/-- The uThread that executes stops, and the kThread pops, up to `insert(stub, stub)`. -/
def takeStub (yield : Bool) : List (Action ℕ) := .switch yield :: List.replicate 6 .pop

/-- The rest of the pop. -/
def takeElement : List (Action ℕ) := List.replicate 7 .pop

/-- The uThread that executes yields and goes on. -/
def fallThrough : List (Action ℕ) := .switch true :: List.replicate 4 .pop

theorem Empty.arrive (h : Empty (Word.mark 16#64) n s) (he : e.IsAddr) (hne : e ≠ 16#64)
    (hn : n < semValueMax) :
    ∃ s', (machine ℕ stub).run s (arrive e) = some s' ∧ Loaded e (n + 1) s' := by
  obtain ⟨hhead, htail, hins, hpop, hplace, hposting, hconsumer, hsem⟩ := h
  generalize hr : (machine ℕ stub).run s (Scheduler02.arrive e) = r
  simp [Scheduler02.arrive, Machine.run, machine, step, BlockingMPSCQueue.push,
    BlockingMPSCQueue.insert,
    BlockingMPSCQueue.enqueue, hhead, htail, hins, hpop, hplace e hne, hposting, hsem, he, hn] at hr
  subst hr
  refine ⟨_, rfl, rfl, rfl, ?_, fun t => ?_, rfl, fun a ha hae => ?_, fun p => ?_, hconsumer, rfl⟩
  · simp [Word.unmark_mark (w := 16#64) (by decide)]
  · by_cases ht : t = some 0 <;> simp [ht, hins]
  · simpa [hae] using hplace a ha
  · by_cases hp : p = 0 <;> simp [hp, hposting]

theorem Empty.requeue (h : Empty 16#64 n s) (he : e.IsAddr) (hne : e ≠ 16#64) :
    ∃ s', (machine ℕ stub).run s (requeue e) = some s' ∧ Loaded e n s' := by
  obtain ⟨hhead, htail, hins, hpop, hplace, hposting, hconsumer, hsem⟩ := h
  have heven : Word.marked 16#64 = false := by decide
  generalize hr : (machine ℕ stub).run s (Scheduler02.requeue e) = r
  simp [Scheduler02.requeue, Machine.run, machine, step, BlockingMPSCQueue.push,
    BlockingMPSCQueue.insert,
    BlockingMPSCQueue.enqueue, hhead, htail, hins, hpop, hplace e hne, hposting, hsem, he,
    heven] at hr
  subst hr
  refine ⟨_, rfl, rfl, rfl, ?_, fun t => ?_, rfl, fun a ha hae => ?_, fun p => ?_, hconsumer, rfl⟩
  · simp [Word.unmark_of_even heven]
  · by_cases ht : t = some 1 <;> simp [ht, hins]
  · simpa [hae] using hplace a ha
  · by_cases hp : p = 1 <;> simp [hp, hposting]

theorem Loaded.takeStub (h : Loaded e n s) (he : e.IsAddr) (hne : e ≠ 16#64) (yield : Bool) :
    ∃ s', (machine ℕ stub).run s (takeStub yield) = some s' ∧ Popping e n yield s' := by
  obtain ⟨hhead, htail, hnext, hins, hpop, hplace, hposting, hconsumer, hsem⟩ := h
  generalize hr : (machine ℕ stub).run s (Scheduler02.takeStub yield) = r
  simp [Scheduler02.takeStub, List.replicate, Machine.run, machine, step, popNext,
    BlockingMPSCQueue.popStep, hhead, htail, hnext, hins, hpop, hconsumer, hsem,
    he.ne_zero, he.even, hne] at hr
  subst hr
  exact ⟨_, rfl, rfl, rfl, by simp, fun p => by simp [hins], rfl, hplace, hposting, rfl, rfl⟩

theorem Popping.takeElement {yield : Bool} (h : Popping e n yield s) (he : e.IsAddr) :
    ∃ s', (machine ℕ stub).run s takeElement = some s' ∧ Empty 16#64 n s' := by
  obtain ⟨hhead, htail, hins, hidle, hpop, hplace, hposting, hconsumer, hsem⟩ := h
  generalize hr : (machine ℕ stub).run s Scheduler02.takeElement = r
  simp [Scheduler02.takeElement, List.replicate, Machine.run, machine, step, popNext,
    BlockingMPSCQueue.popStep, BlockingMPSCQueue.insert, BlockingMPSCQueue.enqueue,
    BlockingMPSCQueue.State.ret, hhead, htail, hins, hpop, hconsumer, hsem, he.ne_zero, he.even,
    Word.unmark_of_even he.even, popResult, afterNonBlocking] at hr
  subst hr
  refine ⟨_, rfl, rfl, rfl, fun t => ?_, rfl, fun a ha => ?_, hposting, rfl, rfl⟩
  · cases t with
    | none => simp
    | some p => simp [hidle]
  · by_cases hae : a = e
    · simp [hae]
    · simpa [hae] using hplace a ha hae

/-- The uThread that executes stops, and the kThread switches to the one in the queue. -/
theorem Loaded.switchTo (hr : (machine ℕ stub).Reachable s) (h : Loaded e n s) (he : e.IsAddr)
    (hne : e ≠ 16#64) (yield : Bool) :
    ∃ s', (machine ℕ stub).Reachable s' ∧ Empty 16#64 n s' := by
  obtain ⟨s₁, h₁, hpopping⟩ := h.takeStub he hne yield
  obtain ⟨s₂, h₂, hempty⟩ := hpopping.takeElement he
  exact ⟨s₂, (hr.run h₁).run h₂, hempty⟩

theorem Empty.fallThrough (h : Empty 16#64 n s) :
    ∃ s', (machine ℕ stub).run s fallThrough = some s' ∧ Empty (Word.mark 16#64) n s' := by
  obtain ⟨hhead, htail, hins, hpop, hplace, hposting, hconsumer, hsem⟩ := h
  have heven : Word.marked 16#64 = false := by decide
  generalize hr : (machine ℕ stub).run s Scheduler02.fallThrough = r
  simp [Scheduler02.fallThrough, List.replicate, Machine.run, machine, step, popNext,
    BlockingMPSCQueue.popStep, BlockingMPSCQueue.State.ret, hhead, htail, hins, hpop, hconsumer,
    hsem, heven, popResult, afterNonBlocking] at hr
  subst hr
  exact ⟨_, rfl, rfl, rfl, hins, rfl, hplace, hposting, rfl, rfl⟩

/-- **One more token.** The uThread at 48 yields over and over. A producer pushes the one at 32, and
posts; 48 yields to it and is queued behind it. When 32 stops, the kThread is back at 48, which
yields once more and finds nothing. -/
theorem Empty.round (hr : (machine ℕ stub).Reachable s) (h : Empty (Word.mark 16#64) n s)
    (hn : n < semValueMax) :
    ∃ s', (machine ℕ stub).Reachable s' ∧ Empty (Word.mark 16#64) (n + 1) s' := by
  obtain ⟨s₁, h₁, hloaded⟩ := h.arrive (e := 32#64) (by decide) (by decide) hn
  obtain ⟨s₂, hr₂, hempty⟩ := hloaded.switchTo (hr.run h₁) (by decide) (by decide) true
  obtain ⟨s₃, h₃, hloaded⟩ := hempty.requeue (e := 48#64) (by decide) (by decide)
  obtain ⟨s₄, hr₄, hempty⟩ := hloaded.switchTo (hr₂.run h₃) (by decide) (by decide) false
  obtain ⟨s₅, h₅, hmarked⟩ := hempty.fallThrough
  exact ⟨s₅, hr₄.run h₅, hmarked⟩

theorem tokens_reachable (hn : n ≤ semValueMax) :
    ∃ s, (machine ℕ stub).Reachable s ∧ Empty (Word.mark 16#64) n s := by
  induction n with
  | zero =>
    refine ⟨initial 16#64 .running, .of_init (.inr rfl), rfl, rfl, fun _ => rfl, rfl,
      fun e he => ?_,
      fun _ => rfl, rfl, rfl⟩
    simp [initial, BlockingMPSCQueue.initial, he]
  | succ n ih =>
    obtain ⟨s, hr, hs⟩ := ih (by omega)
    exact hs.round hr hn

/-- Up to the post, a push does not look at the semaphore. -/
theorem Empty.owe (h : Empty (Word.mark 16#64) n s) :
    ∃ s', (machine ℕ stub).run s [.schedule 0 [32#64], .push 0, .push 0, .push 0] = some s' ∧
      s'.sem = n ∧ s'.posting 0 = true := by
  obtain ⟨hhead, htail, hins, hpop, hplace, hposting, hconsumer, hsem⟩ := h
  have haddr : Word.IsAddr 32#64 := by decide
  generalize hr : (machine ℕ stub).run s [.schedule 0 [32#64], .push 0, .push 0, .push 0] = r
  simp [Machine.run, machine, step, BlockingMPSCQueue.push, BlockingMPSCQueue.insert,
    BlockingMPSCQueue.enqueue, htail, hins, hplace 32#64 (by decide), hposting, haddr] at hr
  subst hr
  exact ⟨_, rfl, hsem, by simp⟩

/-- **The semaphore overflows.** A kThread that is kept busy comes to `SEM_VALUE_MAX` tokens, and
the next producer that posts spins. -/
theorem sem_overflows :
    ∃ s : State ℕ, (machine ℕ stub).Reachable s ∧ s.sem = semValueMax ∧ s.posting 0 = true ∧
      step stub s (.post 0) = some s := by
  obtain ⟨s, hr, hs⟩ := tokens_reachable (n := semValueMax) le_rfl
  obtain ⟨s', hrun, hsem, hposting⟩ := hs.owe
  refine ⟨s', hr.run hrun, hsem, hposting, ?_⟩
  simp [step, hposting, hsem]

end Busy

end UThreads.Scheduler02
