import UThreads.Schedulers.Scheduler02

/-!
# `Scheduler_02`: `pop` returns

`pop` has two loops that wait for a producer: on `stub.next` and on `head->next`. Both end by
themselves unless a producer is between its exchange and its link (`Quiet`). Then each step of the
kThread brings it closer to the end of `pop` (`rank`), and the value is the oldest element that was
not yet popped, or null when there is none.

**`nonBlockingSwitch`** (`nonBlockingSwitch_returns`). In at most 13 steps the kThread goes on with
the oldest uThread, or with what the source prescribes for an empty queue.

**`blockingSwitch`** (`blockingSwitch_returns`). If there is work and no producer is between its
exchange and its post, the kThread passes `sem.wait()`, and has the oldest uThread in at most 13
steps more.
-/

namespace UThreads.Scheduler02

open BlockingMPSCQueue (Insert Pop)

variable {P : Type*} [DecidableEq P] {stub : Word.Addr} {q q' : BlockingMPSCQueue.State P}
  {Q : List Word} {s s' : State P}

/-! ## One step of `pop` -/

/-- No producer is between its exchange and its link. -/
def Quiet (q : BlockingMPSCQueue.State P) : Prop :=
  ∀ p prev first w, q.ins (some p) ≠ .link prev first w

omit [DecidableEq P] in
theorem quiet_of_idle (h : ∀ p, q.ins (some p) = .idle) : Quiet q := by
  intro p prev first w hp
  rw [h p] at hp
  cases hp

/-- The steps of `insert(stub, stub)` that are left, and the one that leaves it. -/
def insertRank : Insert → ℕ
  | .clear _ _ _ => 7
  | .exchange _ _ _ => 6
  | .link _ _ _ => 5
  | .idle => 4

/-- The most steps that are left of `pop`. -/
def rank (q : BlockingMPSCQueue.State P) : ℕ :=
  match q.pop with
  | .idle => 13
  | .readHead => 12
  | .readTail => 11
  | .cas => 10
  | .waitStub => 9
  | .takeStub => 8
  | .reinsert => insertRank (q.ins none)
  | .waitHead => 3
  | .advance => 2
  | .clear _ => 1

omit [DecidableEq P] in
theorem rank_le (q : BlockingMPSCQueue.State P) : rank q ≤ 13 := by
  unfold rank insertRank
  cases q.pop with
  | reinsert => cases q.ins none <;> simp only <;> omega
  | _ => simp only; omega

omit [DecidableEq P] in
theorem rank_pos (q : BlockingMPSCQueue.State P) : 0 < rank q := by
  unfold rank insertRank
  cases q.pop with
  | reinsert => cases q.ins none <;> simp only <;> omega
  | _ => simp only; omega

omit [DecidableEq P] in
theorem pend_none (hq : Quiet q) (hi : q.ins none = .idle) (t : Option P) : q.pend t = none := by
  unfold BlockingMPSCQueue.State.pend
  cases t with
  | none => rw [hi]
  | some p =>
    cases hp : q.ins (some p) with
    | link prev first w => exact absurd hp (hq p prev first w)
    | _ => rfl

omit [DecidableEq P] in
/-- Nobody has still to write a pointer: the head of a queue of two nodes or more is linked. -/
theorem next_ne_null (h : BlockingMPSCQueue.Inv stub q Q) (hq : Quiet q) (hi : q.ins none = .idle)
    {a : Word} (ha : a ∈ Q) (hne : a ≠ q.head) : q.next q.head ≠ 0#64 := by
  obtain ⟨R, hR⟩ : ∃ R, Q = q.head :: R := by
    have hhead := h.head
    cases Q with
    | nil => cases hhead
    | cons b R => exact ⟨R, by rw [Option.some.inj hhead]⟩
  obtain ⟨b, R', rfl⟩ : ∃ b R', R = b :: R' := by
    refine List.exists_cons_of_ne_nil ?_
    rintro rfl
    rw [hR, List.mem_singleton] at ha
    exact hne ha
  have hadj : Adjacent Q q.head b := by
    rw [hR]
    exact .inl ⟨rfl, rfl⟩
  rcases h.chain.joined q.head b hadj with ⟨hn, -⟩ | ⟨-, t, ht⟩
  · rw [hn]
    exact h.chain.ne_null b (by simp [hR])
  · rw [pend_none hq hi t] at ht
    cases ht

/-! ## The tail while `pop` waits for the stub -/

/-- What `pop` has seen of the tail stays true: no mark after `readTail`, and an element after the
CAS has failed. -/
structure TailSeen (stub : Word) (q : BlockingMPSCQueue.State P) : Prop where
  unmarked : q.pop = .cas ∨ q.pop = .waitStub → q.tail.marked = false
  element : q.pop = .waitStub → q.tail ≠ stub

theorem TailSeen.insert {t : Option P} (hseen : TailSeen stub q)
    (h : BlockingMPSCQueue.Inv stub q Q)
    (hs : BlockingMPSCQueue.insert t q = some q') : TailSeen stub q' := by
  unfold BlockingMPSCQueue.insert at hs
  cases hi : q.ins t with
  | idle => simp [hi] at hs
  | clear first last c | link prev first w =>
    simp only [hi] at hs
    cases hs
    exact ⟨hseen.unmarked, hseen.element⟩
  | exchange first last c =>
    simp only [hi] at hs
    cases hs
    cases t with
    | none =>
      have hp := h.consumer.reinsert (by simp [hi])
      constructor <;> simp [BlockingMPSCQueue.enqueue, hp]
    | some p =>
      -- A producer brings a node of its own.
      obtain ⟨-, hlast, -, hplace, -⟩ := h.producer p first last c (.inr hi)
      have hpl := hplace last (List.mem_of_getLast? hlast)
      have haddr : last.IsAddr := h.addr last (by simp [hpl])
      have hne : last ≠ stub := fun he => by simp [(h.isStub last).mpr he] at hpl
      exact ⟨fun _ => haddr.even, fun _ => hne⟩

theorem TailSeen.popStep (h : TailSeen stub q) (hs : BlockingMPSCQueue.popStep stub q = some q') :
    TailSeen stub q' := by
  unfold BlockingMPSCQueue.popStep at hs
  cases hp : q.pop with
  | readHead =>
    simp only [hp] at hs
    cases hs
    constructor <;> by_cases hh : q.head = stub <;> simp [hh]
  | readTail =>
    simp only [hp] at hs
    by_cases hm : q.tail.marked
    · simp only [hm, if_true] at hs
      cases hs
      constructor <;> simp [BlockingMPSCQueue.State.ret]
    · simp only [hm] at hs
      cases hs
      exact ⟨fun _ => by simpa using hm, by simp⟩
  | cas =>
    simp only [hp] at hs
    by_cases ht : q.tail = stub
    · rw [if_pos ht] at hs
      cases hs
      constructor <;> simp [BlockingMPSCQueue.State.ret]
    · rw [if_neg ht] at hs
      cases hs
      exact ⟨fun _ => h.unmarked (.inl hp), fun _ => ht⟩
  | waitStub =>
    simp only [hp] at hs
    cases hs
    exact ⟨fun _ => h.unmarked (.inr hp), fun _ => h.element hp⟩
  | reinsert =>
    simp only [hp] at hs
    split_ifs at hs
    cases hs
    constructor <;> simp
  | waitHead =>
    simp only [hp] at hs
    cases hs
    constructor <;> by_cases hn : q.next q.head = 0#64 <;> simp [hn]
  | _ =>
    simp only [hp] at hs
    cases hs
    constructor <;> simp [BlockingMPSCQueue.State.ret]

theorem tailSeen_reachable (h : (BlockingMPSCQueue.machine P stub).Reachable q) :
    (∃ Q, BlockingMPSCQueue.Inv stub q Q) ∧ TailSeen stub q := by
  refine h.invariant (I := fun q => (∃ Q, BlockingMPSCQueue.Inv stub q Q) ∧ TailSeen stub q) ?_ ?_
  · rintro q rfl
    exact ⟨⟨[stub.1], BlockingMPSCQueue.inv_initial stub.2⟩, nofun, nofun⟩
  · rintro q a q' ⟨⟨Q, hQ⟩, hseen⟩ hs
    refine ⟨BlockingMPSCQueue.inv_step hQ hs, ?_⟩
    cases a with
    | write a v =>
      simp only [BlockingMPSCQueue.machine, BlockingMPSCQueue.step] at hs
      split_ifs at hs
      cases hs
      exact ⟨hseen.unmarked, hseen.element⟩
    | push p c =>
      obtain ⟨-, hpop, htail, -⟩ := push_spec hs
      exact ⟨by rw [hpop, htail]; exact hseen.unmarked, by rw [hpop, htail]; exact hseen.element⟩
    | insert t => exact hseen.insert hQ hs
    | pop => exact hseen.popStep hs

/-! ## `pop` comes to its end -/

/-- A step of `pop` is possible, and `pop` has returned or is closer to its end. -/
theorem popNext_progress (h : BlockingMPSCQueue.Inv stub q Q) (hseen : TailSeen stub q)
    (hq : Quiet q) :
    ∃ q', popNext stub q = some q' ∧ q'.pushed = q.pushed ∧
    (q'.pop = .idle ∨ rank q' < rank q) := by
  have hc := h.consumer
  unfold BlockingMPSCQueue.ConsumerInv at hc
  cases hp : q.pop with
  | reinsert =>
    by_cases hi : q.ins none = .idle
    · simp [popNext, hp, hi, BlockingMPSCQueue.popStep, rank, insertRank]
    · cases hins : q.ins none <;>
        simp_all [popNext, BlockingMPSCQueue.insert, BlockingMPSCQueue.enqueue, rank, insertRank]
  | readHead =>
    by_cases hh : q.head = stub <;> simp [popNext, hp, BlockingMPSCQueue.popStep, rank, hh]
  | readTail =>
    by_cases hm : q.tail.marked <;>
      simp [popNext, hp, BlockingMPSCQueue.popStep, rank, hm, BlockingMPSCQueue.State.ret]
  | cas =>
    by_cases ht : q.tail = stub <;>
      simp [popNext, hp, BlockingMPSCQueue.popStep, rank, ht, BlockingMPSCQueue.State.ret]
  | waitStub =>
    simp only [hp] at hc
    obtain ⟨hi, hstub, hhead⟩ := hc
    -- The tail is an element that comes after the stub.
    have htail : q.tail ∈ Q := by
      have hm := List.mem_of_getLast? h.tail
      rwa [Word.unmark_of_even (hseen.unmarked (.inr hp))] at hm
    have hn := next_ne_null h hq hi htail (by rw [hhead]; exact hseen.element hp)
    rw [hhead] at hn
    simp [popNext, hp, BlockingMPSCQueue.popStep, rank, hn]
  | waitHead =>
    simp only [hp] at hc
    obtain ⟨hi, hstub, hhead⟩ := hc
    have hn := next_ne_null h hq hi hstub (Ne.symm hhead)
    simp [popNext, hp, BlockingMPSCQueue.popStep, rank, hn]
  | _ =>
    simp [popNext, hp, BlockingMPSCQueue.popStep, rank, insertRank, BlockingMPSCQueue.State.ret]

/-- Where the kThread goes on when `pop` has returned `ut`. -/
def Consumer.resume (ut : Word) : Consumer → Consumer
  | .nonBlocking yield => afterNonBlocking yield ut
  | .blocking => afterBlocking ut
  | c => c

/-- A step of `pop` is a step of the scheduler. -/
theorem step_pop (hpop : s.consumer.popping) (hs : popNext stub s.runQueue = some q') :
    step stub s .pop = some { s with
      runQueue := q'
      consumer := if q'.pop = .idle then s.consumer.resume (popResult q') else s.consumer } := by
  cases hc : s.consumer with
  | nonBlocking yield => simp [step, hc, hs, Consumer.resume]
  | blocking => simp [step, hc, hs, Consumer.resume]
  | _ => simp [hc, Consumer.popping] at hpop

/-- `pop` has returned `r`. -/
structure Returned (s s' : State P) (r : Option Word) : Prop where
  idle : s'.runQueue.pop = .idle
  pushed : s'.runQueue.pushed = s.runQueue.pushed
  results : s'.runQueue.results = s.runQueue.results ++ [r]
  marked : r = none → s'.runQueue.tail.marked = true
  consumer : s'.consumer = s.consumer.resume (r.getD 0#64)

theorem pop_within (h : (machine P stub).Reachable s) (hpop : s.consumer.popping)
    (hq : Quiet s.runQueue) :
    (machine P stub).Within .pop (rank s.runQueue) s fun s' => ∃ r, Returned s s' r := by
  -- Induction on the steps that are left.
  induction hn : rank s.runQueue using Nat.strong_induction_on generalizing s with
  | _ n ih =>
  obtain ⟨⟨Q, hQ⟩, hseen⟩ := tailSeen_reachable (runQueue_reachable h)
  obtain ⟨q', hs, hpushed, hnext⟩ := popNext_progress hQ hseen hq
  obtain ⟨hins, hcases⟩ := popNext_spec hs
  have hstep : (machine P stub).step s .pop = _ := step_pop hpop hs
  obtain ⟨m, rfl⟩ := Nat.exists_eq_add_one_of_ne_zero (hn ▸ (rank_pos s.runQueue).ne')
  refine .step hstep ?_
  rcases hcases with ⟨hne, hres⟩ | ⟨hidle, l, hres⟩ | ⟨hidle, hres, hm⟩
  · rw [if_neg hne] at hstep ⊢
    have hlt : rank q' < m + 1 := hn ▸ hnext.resolve_left hne
    obtain ⟨i, t, hi, hrun, r, hr⟩ :=
      ih _ hlt (h.next hstep) hpop (fun p prev first w => by rw [hins]; exact hq p prev first w) rfl
    exact ⟨i, t, hi.trans (Nat.le_of_lt_succ hlt), hrun, r, hr.idle, hr.pushed.trans hpushed,
      by rw [hr.results, hres], hr.marked, hr.consumer⟩
  · exact .now ⟨some l, hidle, hpushed, hres, nofun, by simp [hidle, popResult, hres]⟩
  · exact .now ⟨none, hidle, hpushed, hres, fun _ => hm, by simp [hidle, popResult, hres]⟩

/-- What `pop` returns is the oldest element, or null when there is none. -/
theorem Returned.oldest {r : Option Word} (h : Returned s s' r)
    (hr : (BlockingMPSCQueue.machine P stub).Reachable s'.runQueue) :
    (∃ u l, r = some u ∧ u ≠ 0#64 ∧ s.runQueue.pushed = s.runQueue.popped ++ u :: l ∧
        s'.runQueue.popped = s.runQueue.popped ++ [u]) ∨
      (r = none ∧ s.runQueue.pushed = s.runQueue.popped ∧
        s'.runQueue.popped = s.runQueue.popped) := by
  obtain ⟨Q, hQ⟩ := BlockingMPSCQueue.inv_reachable hr
  have hhand : s'.runQueue.inHand = [] := by simp [BlockingMPSCQueue.State.inHand, h.idle]
  cases r with
  | none =>
    have hpopped : s'.runQueue.popped = s.runQueue.popped := by
      simp [BlockingMPSCQueue.State.popped, h.results]
    obtain rfl := hQ.marked (h.marked rfl)
    exact .inr ⟨rfl, by rw [← h.pushed, ← hpopped, hQ.popped_eq hhand], hpopped⟩
  | some u =>
    have hpopped : s'.runQueue.popped = s.runQueue.popped ++ [u] := by
      simp [BlockingMPSCQueue.State.popped, h.results]
    have hcont := hQ.content
    rw [hhand, hpopped, h.pushed, List.append_nil, List.append_assoc] at hcont
    exact .inl ⟨u, _, rfl, popped_ne_zero hr (by simp [hpopped]), hcont.symm, hpopped⟩

/-! ## Main results -/

/-- `nonBlockingSwitch` takes the oldest uThread, and does without one only if the queue is
empty. -/
theorem nonBlockingSwitch_returns {yield : Bool} (h : (machine P stub).Reachable s)
    (hc : s.consumer = .nonBlocking yield) (hq : Quiet s.runQueue) :
    (machine P stub).Within .pop 13 s fun s' =>
      (∃ u l, s.runQueue.pushed = s.runQueue.popped ++ u :: l ∧
          s'.runQueue.popped = s.runQueue.popped ++ [u] ∧ s'.consumer = .running) ∨
        (s.runQueue.pushed = s.runQueue.popped ∧ s'.runQueue.popped = s.runQueue.popped ∧
          s'.runQueue.tail.marked = true ∧ s'.consumer = if yield then .running else .mainUT) := by
  obtain ⟨n, s', hn, hrun, r, hr⟩ := pop_within h (by rw [hc]; trivial) hq
  refine ⟨n, s', hn.trans (rank_le _), hrun, ?_⟩
  have hcons := hr.consumer
  rw [hc] at hcons
  rcases hr.oldest (runQueue_reachable (h.run hrun))
    with ⟨u, l, rfl, hu, hpushed, hpopped⟩ | ⟨rfl, hpushed, hpopped⟩
  · exact .inl ⟨u, l, hpushed, hpopped,
      by simpa [Consumer.resume, afterNonBlocking, hu] using hcons⟩
  · exact .inr ⟨hpushed, hpopped, hr.marked rfl,
      by simpa [Consumer.resume, afterNonBlocking] using hcons⟩

/-- Producer `false` schedules a uThread; `blockingSwitch` returns it, and it blocks. Producer
`true` has scheduled a second one, and the kThread is in `pop`. -/
def blocksAndPops : List (Action Bool) :=
  List.flatten [[.enter, .schedule false [32], .push false, .push false, .push false,
    .post false, .wait],
    List.replicate 13 .pop, [.trywait, .schedule true [48], .push true, .push true, .push true,
      .switch false, .pop, .pop]]

theorem nonBlockingSwitch_returns_blocksAndPops :
    ∃ s, (machine Bool ⟨16, by decide⟩).Reachable s ∧ s.runQueue.pop = .readTail ∧
      s.runQueue.pushed = [32, 48] ∧ s.runQueue.popped = [32] ∧
      (machine Bool ⟨16, by decide⟩).Within .pop 13 s fun s' =>
        (∃ u l, s.runQueue.pushed = s.runQueue.popped ++ u :: l ∧
            s'.runQueue.popped = s.runQueue.popped ++ [u] ∧ s'.consumer = .running) ∨
          (s.runQueue.pushed = s.runQueue.popped ∧ s'.runQueue.popped = s.runQueue.popped ∧
            s'.runQueue.tail.marked = true ∧
            s'.consumer = if false then .running else .mainUT) := by
  have hinit : (machine Bool ⟨16, by decide⟩).Reachable (initial 16 .mainUT) := .of_init (.inl rfl)
  have hr := hinit.get blocksAndPops (by decide +kernel)
  exact ⟨_, hr, by decide +kernel, by decide +kernel, by decide +kernel,
    nonBlockingSwitch_returns hr (by decide +kernel) (quiet_of_idle (by decide +kernel))⟩

/-- `blockingSwitch` has a token when there is work, and takes the oldest uThread. -/
theorem blockingSwitch_returns {u : Word} {l : List Word} (h : (machine P stub).Reachable s)
    (hc : s.consumer = .wait) (hq : Quiet s.runQueue) (hpost : ∀ p, s.posting p = false)
    (hwork : s.runQueue.pushed = s.runQueue.popped ++ u :: l) :
    ∃ s₁, (machine P stub).step s .wait = some s₁ ∧ (machine P stub).Within .pop 13 s₁ fun s' =>
      s'.consumer = .leave u ∧ s'.runQueue.popped = s.runQueue.popped ++ [u] := by
  have hinv := inv_reachable h
  have hidle : s.runQueue.pop = .idle := hinv.pops.resolve_right (by simp [hc, Consumer.popping])
  have hsem : 0 < s.sem := by
    rcases hinv.wakes (by simp [hc, Consumer.parking]) with hm | ⟨p, hp | ⟨prev, first, hp⟩⟩ | hpos
    · -- A marked queue has been popped empty.
      obtain ⟨Q, hQ⟩ := BlockingMPSCQueue.inv_reachable hinv.queue
      obtain rfl := hQ.marked hm
      have hall := hQ.popped_eq (by simp [BlockingMPSCQueue.State.inHand, hidle])
      rw [hall] at hwork
      simp at hwork
    · rw [hpost p] at hp
      cases hp
    · exact absurd hp (hq p prev first true)
    · exact hpos
  have hstep : (machine P stub).step s .wait =
      some { s with sem := s.sem - 1, consumer := .blocking } := by
    simp [machine, step, hc, hsem]
  refine ⟨_, hstep, ?_⟩
  obtain ⟨n, s', hn, hrun, r, hr⟩ := pop_within (h.next hstep) trivial hq
  refine ⟨n, s', hn.trans (rank_le _), hrun, ?_⟩
  have hcons := hr.consumer
  rcases hr.oldest (runQueue_reachable ((h.next hstep).run hrun))
    with ⟨v, l', rfl, hv, hpushed, hpopped⟩ | ⟨-, hpushed, -⟩
  · obtain ⟨rfl, -⟩ : u = v ∧ l = l' := by simpa using hwork.symm.trans hpushed
    exact ⟨by simpa [Consumer.resume, afterBlocking, hv] using hcons, hpopped⟩
  · have hnil := hwork.symm.trans hpushed
    simp at hnil

theorem blockingSwitch_returns_second :
    ∃ s, (machine Bool ⟨16, by decide⟩).Reachable s ∧ s.runQueue.pushed = [32, 48] ∧
      ∃ s₁, (machine Bool ⟨16, by decide⟩).step s .wait = some s₁ ∧
        (machine Bool ⟨16, by decide⟩).Within .pop 13 s₁ fun s' =>
          s'.consumer = .leave 48 ∧ s'.runQueue.popped = s.runQueue.popped ++ [48] := by
  have hinit : (machine Bool ⟨16, by decide⟩).Reachable (initial 16 .mainUT) := .of_init (.inl rfl)
  have hr := hinit.get (List.flatten
    [[.enter, .schedule false [32], .push false, .push false, .push false, .post false,
    .wait], List.replicate 13 .pop, [.trywait, .switch false], List.replicate 4 .pop,
    [.enter, .schedule true [48],
    .push true, .push true, .push true, .post true]]) (by decide +kernel)
  exact ⟨_, hr, by decide +kernel, blockingSwitch_returns (l := []) hr (by decide +kernel)
    (quiet_of_idle (by decide +kernel)) (by decide +kernel) (by decide +kernel)⟩

end UThreads.Scheduler02
