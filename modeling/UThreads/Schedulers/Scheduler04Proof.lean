import UThreads.Schedulers.Scheduler04Producers
import UThreads.Schedulers.Scheduler04Consumers
import UThreads.Lib.Fifo

/-!
# `Scheduler_04`: the queue is a FIFO and its nodes are conserved

The invariant holds in every run (`reachable_inv`). What was pushed to a scheduler is what was
popped, followed by the values in its queue, so the steps of the queue are those of a plain FIFO
list (`fifo_step`).

A pending `prev->next = &first` is at a node of the chain. The old head leaves the chain only when
its pointer is written, so no write is pending at a node that is recycled.

Main results: `fifo_and_nodes_conserved`, and `refines_fifo`: for each scheduler, every run is a
run of the plain FIFO list.
-/

namespace UThreads.Scheduler04

variable {S U P : Type*}

/-! ## Runs -/

section Runs

variable [DecidableEq S] [DecidableEq U] [DecidableEq P] {L : Layout S} {s s' : State S U P}
  {a : Action S U P}

omit [DecidableEq U] [DecidableEq P] in
theorem inv_initial {start : S → Consumer U}
    (hstart : ∀ k, start k = .mainUT ∨ start k = .running) :
    Inv (P := P) L (initial L start) := by
  have hquiet : ∀ k, (start k).quiet = true := fun k => by
    rcases hstart k with hk | hk <;> rw [hk] <;> rfl
  exact {
    sched := fun k => {
      chain := GapChain.single (L.stub_addr k).ne_zero rfl fun _ => rfl
      head := rfl
      tail := by simp [initial, newScheduler, Word.unmark_mark (L.stub_addr k).even]
      marked := fun _ => rfl
      content := by
        unfold Scheduler.values
        rw [transit_of_quiet (hquiet k)]
        rfl
      position := by
        unfold Scheduler.Position initial newScheduler
        rcases hstart k with hk | hk <;> simp [hk] }
    held := by
      have hheld : ∀ n (y : Holder S U P), (initial L start : State S U P).Held n y ↔
          ∃ k, y = .head k ∧ n = L.stub k := by
        intro n y
        cases y with
        | head k => simp [State.Held, initial, newScheduler, eq_comm]
        | hand k =>
          simp [State.Held, initial, newScheduler, (Consumer.quiet_spec (hquiet k) fun _ => none).1]
        | owner u => simp [State.Held, initial]
        | producer p => simp [State.Held, initial, Schedule.carried]
        | queued k => simp [State.Held, initial, newScheduler]
        | tmp k =>
          simp [State.Held, initial, newScheduler, Scheduler.tmp,
            (Consumer.quiet_spec (hquiet k) fun _ => none).2.1]
      refine ⟨?_, ?_⟩
      · rintro n (hu | ⟨k, rfl⟩)
        · cases hu
        · refine ⟨.head k, (hheld _ _).mpr ⟨k, rfl, rfl⟩, fun y hy => ?_⟩
          obtain ⟨j, rfl, he⟩ := (hheld _ _).mp hy
          rw [L.stub_injective he]
      · intro n y hy
        obtain ⟨k, -, rfl⟩ := (hheld _ _).mp hy
        exact .inr ⟨k, rfl⟩
    used := fun a ha => by cases ha
    places := {
      scheduling := fun u p => by simp [initial, Schedule.ut]
      queued := fun u k n => by simp [initial, newScheduler]
      popping := fun u k => by
        simp [initial, newScheduler, State.taken, (Consumer.quiet_spec (hquiet k) _).2.2]
      owns := fun u => by simp [initial, State.Owns]
      value := fun k n hn => by simp [initial, newScheduler] at hn
      hand := fun k hk => by
        simp [initial, newScheduler, (Consumer.quiet_spec (hquiet k) fun _ => none).1] at hk }
    prepared := fun p => trivial }

theorem inv_step (h : Inv L s) (hs : Step L s a s') : Inv L s' := by
  cases hs with
  | create hu ha hfree => exact inv_create h hu ha hfree
  | schedule hp hu => exact inv_schedule h hp hu
  | setState hp => exact inv_setState h hp
  | release hp => exact inv_release h hp
  | clear hp => exact inv_clear h hp
  | exchange hp => exact inv_exchange h hp
  | link hp => exact inv_link h hp
  | post hp => exact inv_post h hp
  | move hm v => exact inv_move h hm v
  | setHead hc => exact inv_setHead h hc
  | copy hc => exact inv_copy h hc
  | give hc ht => exact inv_give h hc ht
  | giveNew hc ht ha hfree => exact inv_giveNew h hc ht ha hfree
  | keep hc => exact inv_keep h hc
  | io v => exact ⟨h.sched, h.held, h.used, ⟨h.places.scheduling, h.places.queued,
      h.places.popping, h.places.owns, h.places.value, h.places.hand⟩, h.prepared⟩

theorem reachable_inv (h : (machine U P L).Reachable s) : Inv L s := by
  refine h.invariant (I := Inv L) ?_ fun s a s' hi hs => inv_step hi (step_cases hs)
  rintro s ⟨start, hstart, rfl⟩
  exact inv_initial hstart

/-! ## The queue as a list -/

omit [DecidableEq U] in
/-- With the head the only node, the queue is empty. -/
theorem values_eq_nil {c : Scheduler U} {state : Word → Option U}
    (hquiet : c.consumer.quiet = true) (hq : c.queue = [c.head]) : c.values state = [] := by
  unfold Scheduler.values
  rw [transit_of_quiet hquiet, hq]
  rfl

omit [DecidableEq U] [DecidableEq P] in
/-- What a move adds to the results of `pop`: nothing, or `nullptr` with the queue empty. -/
theorem Move.history (h : Inv L s) {k : S} {c : Scheduler U} (hm : Move s k a c) :
    c.pushed = (s.sched k).pushed ∧ (c.results = (s.sched k).results ∨
      c.results = (s.sched k).results ++ [none] ∧ (s.sched k).values s.state = []) := by
  have hinv := h.sched k
  cases hm with
  | marked hc ht =>
    exact ⟨rfl, .inr ⟨rfl, values_eq_nil (by rw [hc]; rfl) (hinv.marked ht)⟩⟩
  | mark hc he =>
    refine ⟨rfl, .inr ⟨rfl, values_eq_nil (by rw [hc]; rfl) ?_⟩⟩
    rw [hinv.queue_eq, hinv.eq_single]
    rw [he, Word.unmark_of_even (h.addr (y := .head k) rfl).even]
  | _ => exact ⟨rfl, .inl rfl⟩

/-- What a step does to the uThreads pushed and to the results of `pop`, in one scheduler. -/
theorem Step.history (h : Inv L s) (hs : Step L s a s') (k : S) :
    ((s'.sched k).pushed = (s.sched k).pushed ∧ (s'.sched k).results = (s.sched k).results) ∨
    (∃ u, (s'.sched k).pushed = (s.sched k).pushed ++ [u] ∧
      (s'.sched k).results = (s.sched k).results) ∨
    (∃ v, (s'.sched k).pushed = (s.sched k).pushed ∧
      (s'.sched k).results = (s.sched k).results ++ [some v]) ∨
    ((s'.sched k).pushed = (s.sched k).pushed ∧
      (s'.sched k).results = (s.sched k).results ++ [none] ∧ (s.sched k).values s.state = []) := by
  -- A step at scheduler `j` that leaves both lists alone.
  have hkeep : ∀ {j : S} {c : Scheduler U}, c.pushed = (s.sched j).pushed →
      c.results = (s.sched j).results →
      (Function.update s.sched j c k).pushed = (s.sched k).pushed ∧
        (Function.update s.sched j c k).results = (s.sched k).results := fun hp hr =>
    ⟨Update.apply_same hp k, Update.apply_same hr k⟩
  cases hs with
  | create | schedule | setState | release | clear | link | io => exact .inl ⟨rfl, rfl⟩
  | post | give | giveNew | keep => exact .inl (hkeep rfl rfl)
  | setHead =>
    refine .inl ?_
    unfold State.startPop
    split <;> exact hkeep rfl rfl
  | @exchange p kt ut node hp =>
    by_cases hk : k = kt
    · subst hk
      exact .inr (.inl ⟨ut, by simp [State.set, Scheduler.exchange],
        by simp [State.set, Scheduler.exchange]⟩)
    · exact .inl ⟨by simp [State.set, hk], by simp [State.set, hk]⟩
  | @copy j w hhead next hc =>
    by_cases hk : k = j
    · subst hk
      exact .inr (.inr (.inl ⟨s.state next, by simp [State.set, Scheduler.ret],
        by simp [State.set, Scheduler.ret]⟩))
    · exact .inl ⟨by simp [State.set, hk], by simp [State.set, hk]⟩
  | @move j _ c hm v =>
    by_cases hk : k = j
    · subst hk
      obtain ⟨hp, hr | ⟨hr, hv⟩⟩ := hm.history h
      · exact .inl ⟨by simp [State.set, hp], by simp [State.set, hr]⟩
      · exact .inr (.inr (.inr ⟨by simp [State.set, hp], by simp [State.set, hr], hv⟩))
    · exact .inl ⟨by simp [State.set, hk], by simp [State.set, hk]⟩

/-- The queue of scheduler `k` as a list, with what `pop` has returned. -/
def State.fifo (s : State S U P) (k : S) : Fifo.State (Option U) :=
  ⟨(s.sched k).values s.state, (s.sched k).results⟩

/-- A step is a step of the plain FIFO list, or leaves it alone. -/
theorem fifo_step (h : Inv L s) (hs : Step L s a s') (k : S) :
    s'.fifo k = s.fifo k ∨ ∃ b, Fifo.step (s.fifo k) b = some (s'.fifo k) := by
  -- Both states split what was pushed into what was popped and what is queued.
  have hc := (h.sched k).content
  have hc' := ((inv_step h hs).sched k).content
  unfold Scheduler.popped at hc hc'
  unfold State.fifo
  rcases hs.history h k with ⟨hp, hr⟩ | ⟨u, hp, hr⟩ | ⟨v, hp, hr⟩ | ⟨hp, hr, hv⟩
  · rw [hp, hr, ← hc] at hc'
    rw [List.append_cancel_left hc', hr]
    exact .inl rfl
  · rw [hp, hr, List.map_append, ← hc, List.append_assoc] at hc'
    rw [List.append_cancel_left hc', hr]
    exact .inr ⟨.enqueue [some u], rfl⟩
  · rw [hp, hr, ← hc, List.filterMap_append, List.append_assoc] at hc'
    rw [← List.append_cancel_left hc', hr]
    exact .inr ⟨.dequeue, rfl⟩
  · rw [hp, hr, ← hc, List.filterMap_append, List.append_assoc] at hc'
    have hv' : (s'.sched k).values s'.state = (s.sched k).values s.state :=
      List.append_cancel_left hc'
    rw [hv', hv, hr]
    exact .inr ⟨.empty, rfl⟩

/-- **Refinement.** For each scheduler, every run is a run of the plain FIFO list. -/
theorem refines_fifo (h : (machine U P L).Reachable s) (k : S) :
    (Fifo.machine (Option U)).Reachable (s.fifo k) := by
  refine h.map (fun s => s.fifo k) ?_ fun s a s' h hs => ?_
  · rintro s ⟨start, hstart, rfl⟩
    have hquiet : (start k).quiet = true := by
      rcases hstart k with hk | hk <;> rw [hk] <;> rfl
    show State.fifo _ k = ⟨[], []⟩
    unfold State.fifo
    rw [values_eq_nil hquiet rfl]
    rfl
  · exact fifo_step (reachable_inv h) (step_cases hs) k

/-! ## The results -/

omit [DecidableEq U] [DecidableEq P] in
/-- A uThread that nobody schedules or pops and that is not queued has its node. -/
theorem Inv.owner (h : Inv L s) {u : U} (hfresh : s.place u ≠ .fresh)
    (hs : ∀ p, (s.producer p).ut ≠ some u)
    (hq : ∀ k n, s.Held n (.queued k) → s.state n ≠ some u) (hp : ∀ k, s.taken k ≠ some u) :
    s.Owns u := by
  unfold State.Owns
  cases hu : s.place u with
  | fresh => exact absurd hu hfresh
  | free => trivial
  | scheduling p => exact absurd ((h.places.scheduling u p).mp hu) (hs p)
  | queued k n =>
    obtain ⟨hn, hv⟩ := (h.places.queued u k n).mp hu
    exact absurd hv (hq k n hn)
  | popping k => exact absurd ((h.places.popping u k).mp hu) (hp k)

omit [DecidableEq U] [DecidableEq P] in
/-- The value of a queued node is a uThread that is in no other queued node. -/
theorem Inv.queued_value (h : Inv L s) {k : S} {n : Word} (hn : s.Held n (.queued k)) :
    ∃ u, s.state n = some u ∧
      ∀ j m, s.Held m (.queued j) → s.state m = some u → j = k ∧ m = n := by
  obtain ⟨u, hu⟩ := Option.ne_none_iff_exists'.mp (h.places.value k n hn)
  refine ⟨u, hu, fun j m hm hv => ?_⟩
  have hplace := (h.places.queued u k n).mpr ⟨hn, hu⟩
  rw [(h.places.queued u j m).mpr ⟨hm, hv⟩] at hplace
  cases hplace
  exact ⟨rfl, rfl⟩

/-- A `pop` that returns `nullptr` finds every exchanged uThread popped. -/
theorem popped_all_of_null (h : Inv L s) (hs : Step L s a s') {k : S}
    (hr : (s'.sched k).results = (s.sched k).results ++ [none]) :
    (s.sched k).popped = (s.sched k).pushed.map some := by
  have hc := (h.sched k).content
  rcases hs.history h k with ⟨-, hr'⟩ | ⟨u, -, hr'⟩ | ⟨v, -, hr'⟩ | ⟨-, -, hv⟩
  · rw [hr'] at hr; simp at hr
  · rw [hr'] at hr; simp at hr
  · rw [hr'] at hr; simp at hr
  · rw [← hc, hv, List.append_nil]

/-- **The queues are FIFOs and the nodes are conserved.** -/
theorem fifo_and_nodes_conserved (h : (machine U P L).Reachable s) :
    -- what is popped is a prefix of what was exchanged in, and `nullptr` means all of it
    (∀ k, (s.sched k).popped <+: (s.sched k).pushed.map some) ∧
    (∀ k a s', step L s a = some s' → (s'.sched k).results = (s.sched k).results ++ [none] →
      (s.sched k).popped = (s.sched k).pushed.map some) ∧
    -- each node has one holder
    Placement s.Held (s.IsNode L) ∧
    -- a uThread that is not queued and not being scheduled or popped has one node
    (∀ u, s.place u ≠ .fresh → (∀ p, (s.producer p).ut ≠ some u) →
      (∀ k n, s.Held n (.queued k) → s.state n ≠ some u) → (∀ k, s.taken k ≠ some u) →
      ∃! n, s.Held n (.owner u)) ∧
    (∀ p kt u n, s.producer p = .setState kt u n → n ≠ 0#64) ∧
    -- each queued node has one queued uThread
    (∀ k n, s.Held n (.queued k) → ∃ u, s.state n = some u ∧
      ∀ j m, s.Held m (.queued j) → s.state m = some u → j = k ∧ m = n) ∧
    -- a scheduler has its head, at most one `tmpNode`, and one node more in the middle of a pop
    (∀ k, ∃! n, s.Held n (.head k)) ∧
    (∀ k n m, s.Held n (.tmp k) → s.Held m (.tmp k) → n = m) ∧
    (∀ k n m, s.Held n (.hand k) → s.Held m (.hand k) → n = m ∧ s.taken k ≠ none) ∧
    -- a pending `prev->next` is at the head or a queued node
    (∀ p k prev first w, s.producer p = .link k prev first w →
      s.Held prev (.head k) ∨ s.Held prev (.queued k)) := by
  have hi := reachable_inv h
  refine ⟨fun k => ?_, fun k a s' hs hr => popped_all_of_null hi (step_cases hs) hr, hi.held,
    fun u hfresh hs hq hp => ?_, fun p kt u n hp => ?_, fun k n hn => hi.queued_value hn,
    fun k => ⟨_, rfl, fun n hn => hn.symm⟩, fun k n m hn hm => ?_, fun k n m hn hm => ?_,
    fun p k prev first w hp => hi.mem_queue (hi.prev_mem hp)⟩
  · exact ⟨_, (hi.sched k).content⟩
  · have hown := hi.owned_eq (hi.owner hfresh hs hq hp)
    refine ⟨_, hown, fun m hm => ?_⟩
    exact Option.some.inj (hm.symm.trans hown)
  · rcases hi.held_of_node (p := p) (n := n) (by rw [hp]; rfl) with hn | ⟨v, hn, -⟩
    · exact (hi.addr hn).ne_zero
    · exact (hi.addr hn).ne_zero
  · exact Option.some.inj (hn.symm.trans hm)
  · refine ⟨Option.some.inj (hn.symm.trans hm), hi.places.hand k ?_⟩
    exact Option.ne_none_iff_exists'.mpr ⟨n, hn⟩

end Runs

/-- Two schedulers, with the heap from address 16 on. -/
def twoSchedulers : Layout Bool where
  stub := fun k => if k then 4#64 else 2#64
  heap := fun a => !a.marked && decide (16 ≤ a.toNat)
  stub_addr := by decide
  stub_injective := by decide
  heap_addr := fun a ha => by
    simp only [Bool.and_eq_true, Bool.not_eq_true', decide_eq_true_eq] at ha
    refine ⟨fun h0 => ?_, ha.1⟩
    rw [h0] at ha
    exact absurd ha.2 (by decide)
  stub_not_heap := by decide

/-- `schedule(ut, kt)` from its call to the `sem.post()`. -/
def scheduleRun (ut kt : Bool) : List (Action Bool Bool Unit) :=
  .schedule () ut kt :: List.replicate 6 (.producer ())

/-- kThread `k` waits in `blockingSwitch`, pops, and gives away a new node at `a`. -/
def popRun (k : Bool) (a : Word) : List (Action Bool Bool Unit) :=
  [.blockingSwitch k] ++ List.replicate 6 (.switch k) ++ [.giveNew k a, .switch k]

/-- A uThread is scheduled on one scheduler, popped there, and then on the other. -/
def moveRun : List (Action Bool Bool Unit) :=
  [.create false 16#64] ++ scheduleRun false false ++ popRun false 32#64 ++
    scheduleRun false true ++ popRun true 48#64

theorem fifo_and_nodes_conserved_moved :
    ∃ s, (machine Bool Unit twoSchedulers).Reachable s ∧
      (s.sched false).popped = [some false] ∧ (s.sched true).popped = [some false] ∧
      s.node false = 48#64 ∧ Placement s.Held (s.IsNode twoSchedulers) := by
  have hinit : (machine Bool Unit twoSchedulers).Reachable
      (initial twoSchedulers fun _ => .mainUT) :=
    .of_init ⟨_, fun _ => .inl rfl, rfl⟩
  have h := hinit.get moveRun (by decide +kernel)
  exact ⟨_, h, by decide +kernel, by decide +kernel, by decide +kernel,
    (fifo_and_nodes_conserved h).2.2.1⟩

end UThreads.Scheduler04
