import UThreads.Schedulers.Scheduler04Inv

/-!
# `Scheduler_04`: the kThreads keep the invariant

One lemma for each step of `pop` and of the recycling that moves a node, and `inv_move` for all the
others. `head = next` takes the old head into the hand and makes the first queued node the head
(`inv_setHead`). The hand is kept as `tmpNode` (`inv_keep`) after the old `tmpNode`, or a new node,
went to the popped uThread (`inv_give`, `inv_giveNew`).
-/

namespace UThreads.Scheduler04

variable {S U P : Type*}

section Consumers

variable [DecidableEq S] {L : Layout S} {s : State S U P}

/-- Nothing is in the hand of the kThread. -/
def Consumer.quiet : Consumer U → Bool
  | .copy _ _ _ | .give _ _ | .keep _ _ => false
  | .leave node | .getState node => node = 0#64
  | _ => true

theorem Consumer.quiet_spec {x : Consumer U} (h : x.quiet = true) (state : Word → Option U) :
    x.hand = none ∧ x.given = false ∧ x.taken state = none := by
  cases x with
  | leave node | getState node =>
    obtain rfl : node = 0#64 := by simpa [quiet] using h
    exact ⟨rfl, rfl, rfl⟩
  | copy | give | keep => cases h
  | _ => exact ⟨rfl, rfl, rfl⟩

theorem transit_of_quiet {c : Scheduler U} (h : c.consumer.quiet = true)
    (state : Word → Option U) : c.transit state = [] := by
  unfold Scheduler.transit
  cases hc : c.consumer with
  | copy => rw [hc] at h; cases h
  | _ => rfl

theorem quiet_afterPop (w : Switch) : (afterPop 0#64 w : Consumer U).quiet = true := by
  cases w with
  | blocking => rfl
  | nonBlocking yield => cases yield <;> rfl

/-- A kThread that has nothing in its hand goes on. The tail may change its mark only. -/
theorem Inv.quietMove (h : Inv L s) {k : S} (c : Scheduler U)
    (hold : (s.sched k).consumer.quiet = true) (hnew : c.consumer.quiet = true)
    (hqueue : c.queue = (s.sched k).queue) (hhead : c.head = (s.sched k).head)
    (htmp : c.tmpNode = (s.sched k).tmpNode) (hpushed : c.pushed = (s.sched k).pushed)
    (hpopped : c.popped = (s.sched k).popped)
    (htail : c.tail.unmark = (s.sched k).tail.unmark)
    (hmark : c.tail.marked = true → (s.sched k).queue = [(s.sched k).head])
    (hpos : c.Position s.next) (v : ℕ) : Inv L { s.set k c with ioSem := v } := by
  have hinv := h.sched k
  obtain ⟨hhand, hgiven, htaken⟩ := Consumer.quiet_spec hold s.state
  obtain ⟨hhand', hgiven', htaken'⟩ := Consumer.quiet_spec hnew s.state
  refine h.like ⟨hqueue, hhead, ?_, ?_, ?_⟩ ?_ ⟨?_, ?_, ?_, ?_, ?_, hpos⟩ v
  · simp only [Scheduler.tmp, hgiven', hgiven, htmp]
  · rw [hhand', hhand]
  · rw [hgiven', hgiven]
  · rw [htaken', htaken]
  · rw [hqueue]; exact hinv.chain
  · rw [hqueue, hhead]; exact hinv.head
  · rw [hqueue, htail]; exact hinv.tail
  · rw [hqueue, hhead]; exact hmark
  · have hcont := hinv.content
    unfold Scheduler.values at hcont ⊢
    rw [transit_of_quiet hold] at hcont
    rw [transit_of_quiet hnew, hpopped, hqueue, hpushed]
    exact hcont

/-- A kThread goes to another position, and only its semaphore changes besides. -/
theorem Inv.goTo (h : Inv L s) {k : S} (y : Consumer U) (m : ℕ)
    (hold : (s.sched k).consumer.quiet = true) (hnew : y.quiet = true)
    (hpos : Scheduler.Position s.next { s.sched k with sem := m, consumer := y }) (v : ℕ) :
    Inv L { s.set k { s.sched k with sem := m, consumer := y } with ioSem := v } :=
  h.quietMove { s.sched k with sem := m, consumer := y } hold hnew rfl rfl rfl rfl rfl rfl
    (h.sched k).marked hpos v

/-- `pop` returns `nullptr`, with the tail `t`. -/
theorem Inv.retNull (h : Inv L s) {k : S} {w : Switch} {t : Word}
    (hold : (s.sched k).consumer.quiet = true) (ht : t.unmark = (s.sched k).tail.unmark)
    (hq : (s.sched k).queue = [(s.sched k).head]) (v : ℕ) :
    Inv L { s.set k { (s.sched k).ret w 0#64 none with tail := t } with ioSem := v } := by
  refine h.quietMove { (s.sched k).ret w 0#64 none with tail := t } hold (quiet_afterPop w) rfl
    rfl rfl rfl ?_ ht (fun _ => hq) ?_ v
  · simp [Scheduler.popped, Scheduler.ret]
  · unfold Scheduler.Position Scheduler.ret afterPop
    cases w with
    | blocking => trivial
    | nonBlocking yield => cases yield <;> trivial

/-- A kThread goes on with the same node and the same uThread in its hand. -/
theorem Inv.carryOn (h : Inv L s) {k : S} {x : Consumer U} (y : Consumer U)
    (hx : (s.sched k).consumer = x) (hhand : y.hand = x.hand) (hgiven : y.given = x.given)
    (htaken : y.taken s.state = x.taken s.state)
    (hxc : ∀ w a b, x ≠ .copy w a b) (hyc : ∀ c : Scheduler U, c.consumer = y →
      c.transit s.state = [] ∧ c.Position s.next) (v : ℕ) :
    Inv L { s.set k { s.sched k with consumer := y } with ioSem := v } := by
  have hinv := h.sched k
  refine h.like (c := { s.sched k with consumer := y }) ⟨rfl, rfl, ?_, ?_, ?_⟩ ?_
    ⟨hinv.chain, hinv.head, hinv.tail, hinv.marked, ?_, (hyc _ rfl).2⟩ v
  · simp only [Scheduler.tmp, hgiven, hx]
  · rw [hhand, hx]
  · rw [hgiven, hx]
  · rw [htaken, hx]
  · have hcont := hinv.content
    have hquiet : (s.sched k).transit s.state = [] := by
      unfold Scheduler.transit
      split
      · next w a b hc => exact absurd (hx.symm.trans hc) (hxc w a b)
      · rfl
    unfold Scheduler.values at hcont ⊢
    rw [hquiet] at hcont
    rw [(hyc _ rfl).1]
    exact hcont

/-- A step of a kThread that changes only its position, its semaphore and the mark. -/
theorem inv_move (h : Inv L s) {k : S} {a : Action S U P} {c : Scheduler U} (hm : Move s k a c)
    (v : ℕ) : Inv L { s.set k c with ioSem := v } := by
  have hinv := h.sched k
  have hpos := hinv.position
  have heven := (h.addr (y := .head k) rfl).even
  unfold Scheduler.Position at hpos
  cases hm with
  | start yield hc =>
    exact h.goTo (.readNext (.nonBlocking yield) (s.sched k).head) _ (by rw [hc]; rfl) rfl rfl v
  | enter hc => exact h.goTo .wait _ (by rw [hc]; rfl) rfl trivial v
  | wait hc =>
    exact h.goTo (.readNext .blocking (s.sched k).head) _ (by rw [hc]; rfl) rfl rfl v
  | @noNext w hhead hc hn =>
    rw [hc] at hpos
    exact h.goTo (.readTail w hhead) _ (by rw [hc]; rfl) rfl hpos v
  | @next w hhead hc hn =>
    rw [hc] at hpos
    exact h.goTo (.setHead w hhead (s.next (s.sched k).head)) _ (by rw [hc]; rfl) rfl
      ⟨hpos, rfl, hn⟩ v
  | marked hc ht => exact h.retNull (by rw [hc]; rfl) rfl (hinv.marked ht) v
  | @behind w hhead hc hn =>
    rw [hc] at hpos
    exact h.goTo (.spin w hhead) _ (by rw [hc]; rfl) rfl hpos v
  | @last w hhead hc hn =>
    rw [hc] at hpos
    exact h.goTo (.cas w hhead) _ (by rw [hc]; rfl) rfl hpos v
  | @spin w hhead hc =>
    rw [hc] at hpos
    exact h.goTo (.spin w hhead) _ (by rw [hc]; rfl) rfl hpos v
  | @linked w hhead hc =>
    rw [hc] at hpos
    exact h.goTo (.readNext w hhead) _ (by rw [hc]; rfl) rfl hpos v
  | mark hc he =>
    have hun : (s.sched k).tail.unmark = (s.sched k).head := by
      rw [he, Word.unmark_of_even heven]
    refine h.retNull (by rw [hc]; rfl) ?_ ?_ v
    · rw [Word.unmark_mark heven, hun]
    · rw [hinv.queue_eq, hinv.eq_single hun]
  | @retry w hhead hc =>
    rw [hc] at hpos
    exact h.goTo (.readNext w hhead) _ (by rw [hc]; rfl) rfl hpos v
  | @leave node hc =>
    refine h.carryOn (.getState node) hc rfl rfl rfl (by simp) (fun c hy => ?_) v
    simp [Scheduler.transit, Scheduler.Position, hy]
  | null hc => exact h.goTo .crashed _ (by rw [hc]; rfl) rfl trivial v
  | noValue hc hn hv =>
    -- A node in the hand has a value.
    have htaken := h.places.hand k (by simp [hc, Consumer.hand, nonNull_of_ne hn])
    simp [State.taken, hc, Consumer.taken, nonNull_of_ne hn, hv] at htaken
  | @value node ut hc hn hv =>
    refine h.carryOn (.give ut node) hc ?_ rfl ?_ (by simp) (fun c hy => ?_) v
    · simp [Consumer.hand, nonNull_of_ne hn]
    · simp [Consumer.taken, nonNull_of_ne hn, hv]
    · simp [Scheduler.transit, Scheduler.Position, hy]

variable [DecidableEq U]

omit [DecidableEq U] in
/-- The queue after `head = next`: the first value is in transit. -/
theorem Scheduler.Inv.setHead {next : Word → Word} {state : Word → Option U}
    {pend : P → Option (Word × Word)} {c : Scheduler U} (h : c.Inv next state pend) {w : Switch}
    {hhead n : Word} (hc : c.consumer = .setHead w hhead n) :
    ∃ R, c.queue = c.head :: n :: R ∧ (c.setHead w hhead n).Inv next state pend := by
  have hpos := h.position
  simp only [Scheduler.Position, hc] at hpos
  obtain ⟨-, rfl, hn⟩ := hpos
  obtain ⟨R, hQ, hR⟩ := h.chain.advance h.head hn
  unfold Scheduler.setHead
  refine ⟨R, hQ, ⟨?_, ?_, ?_, ?_, ?_, rfl⟩⟩
  · rw [hQ]; exact hR
  · rw [hQ]; rfl
  · rw [← h.tail, hQ, List.tail_cons, List.getLast?_cons_cons]
  · intro hm
    have hone := h.marked hm
    rw [hQ] at hone
    cases hone
  · have hcont := h.content
    simp only [Scheduler.values, Scheduler.transit, hc, hQ, List.tail_cons,
      List.map_cons] at hcont ⊢
    exact hcont

omit [DecidableEq U] in
/-- The kThread is about to take the first queued node. -/
theorem Inv.first_queued (h : Inv L s) {k : S} {w : Switch} {hhead next : Word}
    (hc : (s.sched k).consumer = .setHead w hhead next) :
    hhead = (s.sched k).head ∧ ∃ R, (s.sched k).queue.tail = next :: R ∧ next ∉ R ∧
      ∃ u, s.state next = some u ∧ s.place u = .queued k next := by
  obtain ⟨R, hQ, -⟩ := (h.sched k).setHead hc
  have hpos := (h.sched k).position
  have hnd := (h.sched k).chain.nodup
  simp only [Scheduler.Position, hc] at hpos
  rw [hQ] at hnd
  have htail : (s.sched k).queue.tail = next :: R := by rw [hQ, List.tail_cons]
  have hnext : next ∈ (s.sched k).queue.tail := by rw [htail]; exact List.mem_cons_self
  obtain ⟨u, hu⟩ := Option.ne_none_iff_exists'.mp (h.places.value k next hnext)
  exact ⟨hpos.1, R, htail, (List.nodup_cons.mp (List.nodup_cons.mp hnd).2).1, u, hu,
    (h.places.queued u k next).mpr ⟨hnext, hu⟩⟩

omit [DecidableEq U] in
/-- The holders after `head = next`: the old head goes to the hand, the node behind it becomes
the head. -/
theorem Inv.held_setHead (h : Inv L s) {k : S} {w : Switch} {hhead next : Word}
    (hc : (s.sched k).consumer = .setHead w hhead next) :
    Placement (s.set k ((s.sched k).setHead w hhead next)).Held (s.IsNode L) := by
  obtain ⟨rfl, R, htail, hnd, -⟩ := h.first_queued hc
  have hhead : s.Held (s.sched k).head (.head k) := rfl
  have hnext : s.Held next (.queued k) := by simp [State.Held, htail]
  have hmoved := h.held.move (q := .hand k) hhead fun _ _ => Iff.rfl
  refine hmoved.move (q := .head k) (.inr ⟨hnext, by simp⟩) fun n y => ?_
  cases y with
  | owner u => simp [State.Held, State.set]
  | producer p => simp [State.Held, State.set]
  | queued j =>
    by_cases hj : j = k
    · subst hj
      simp only [State.Held, State.set, Scheduler.setHead, Function.update_self, htail,
        List.tail_cons, List.mem_cons, reduceCtorEq, and_false, false_or, not_false_iff, and_true]
      constructor
      · exact fun hn => ⟨.inr hn, fun e => hnd (e ▸ hn)⟩
      · exact fun hn => hn.1.resolve_left hn.2
    · simp [State.Held, State.set, hj]
  | head j =>
    by_cases hj : j = k
    · subst hj
      simp [State.Held, State.set, Scheduler.setHead, eq_comm]
    · simp [State.Held, State.set, hj]
  | tmp j =>
    by_cases hj : j = k
    · subst hj
      simp [State.Held, State.set, Scheduler.setHead, Scheduler.tmp, hc, Consumer.given]
    · simp [State.Held, State.set, hj]
  | hand j =>
    by_cases hj : j = k
    · subst hj
      simp [State.Held, State.set, Scheduler.setHead, hc, Consumer.hand, eq_comm]
    · simp [State.Held, State.set, hj]

/-- The places after `head = next`: the uThread of the first queued node is being popped. -/
theorem Inv.places_setHead (h : Inv L s) {k : S} {w : Switch} {hhead next : Word}
    (hc : (s.sched k).consumer = .setHead w hhead next) :
    Places ((s.startPop k (s.state next)).set k ((s.sched k).setHead w hhead next)) := by
  obtain ⟨-, R, htail, hnd, u0, hu0, hplace⟩ := h.first_queued hc
  have hnot : s.taken k = none := by simp [State.taken, hc, Consumer.taken]
  rw [hu0]
  exact {
    scheduling := fun u p =>
      Update.eq_iff (h.places.scheduling u p) (by rw [hplace]; simp) (by simp)
    queued := fun u j n => by
      have hold := h.places.queued u j n
      by_cases hj : j = k
      · subst hj
        simp only [State.set, State.startPop, Scheduler.setHead, Function.update_self, htail,
          List.tail_cons]
        rw [htail, List.mem_cons] at hold
        by_cases hu : u = u0
        · subst hu
          rw [Function.update_self]
          refine iff_of_false (by simp) fun hn => ?_
          -- The uThread was in the first node, so it is in no other.
          have hq := hold.mpr ⟨.inr hn.1, hn.2⟩
          rw [hplace] at hq
          cases hq
          exact hnd hn.1
        · rw [Function.update_of_ne hu, hold]
          refine and_congr_left fun hs => or_iff_right ?_
          rintro rfl
          rw [hu0] at hs
          cases hs
          exact hu rfl
      · simp only [State.set, State.startPop, Function.update_of_ne hj]
        refine Update.eq_iff hold ?_ (by simp)
        rw [hplace]
        intro e
        cases e
        exact hj rfl
    popping := fun u j => by
      have hold := h.places.popping u j
      by_cases hj : j = k
      · subst hj
        rw [hnot] at hold
        by_cases hu : u = u0
        · subst hu
          simp [State.set, State.startPop, Scheduler.setHead, State.taken, Consumer.taken, hu0]
        · simpa [State.set, State.startPop, Scheduler.setHead, State.taken, Consumer.taken, hu0,
            hu, Ne.symm hu] using hold
      · refine (Update.eq_iff hold (by rw [hplace]; simp) ?_).trans
          (Eq.congr_left (State.taken_congr ?_ rfl))
        · intro e
          cases e
          exact hj rfl
        · simp only [State.set, State.startPop, Function.update_of_ne hj]
    owns := fun u => by
      by_cases hu : u = u0
      · subst hu
        have hno : ¬s.Owns u := by simp [State.Owns, hplace]
        simp [State.Owns, State.set, State.startPop, Scheduler.setHead, Consumer.given,
          h.not_owned hno]
      · refine (h.places.owns u).trans (State.owns_congr (Function.update_of_ne hu _ _)
          (fun _ _ => rfl) fun j _ => ?_)
        refine Update.apply_same (f := fun c : Scheduler U => c.consumer.given) ?_ j
        simp [Scheduler.setHead, State.startPop, hc, Consumer.given]
    value := fun j n hn => by
      by_cases hj : j = k
      · subst hj
        simp only [State.set, State.startPop, Scheduler.setHead, Function.update_self] at hn
        exact h.places.value j n (List.mem_of_mem_tail hn)
      · simp only [State.set, State.startPop, Function.update_of_ne hj] at hn
        exact h.places.value j n hn
    hand := fun j hh => by
      by_cases hj : j = k
      · subst hj
        simp [State.set, State.startPop, Scheduler.setHead, State.taken, Consumer.taken, hu0]
      · simp only [State.set, State.startPop, State.taken, Function.update_of_ne hj] at hh ⊢
        exact h.places.hand j hh }

/-- `head = next` -/
theorem inv_setHead (h : Inv L s) {k : S} {w : Switch} {hhead next : Word}
    (hc : (s.sched k).consumer = .setHead w hhead next) :
    Inv L ((s.startPop k (s.state next)).set k ((s.sched k).setHead w hhead next)) := by
  obtain ⟨-, -, hinv⟩ := (h.sched k).setHead hc
  obtain ⟨-, -, -, -, u, hu, -⟩ := h.first_queued hc
  have hplaces := h.places_setHead hc
  rw [hu] at hplaces ⊢
  exact {
    sched := fun j => by
      by_cases hj : j = k
      · subst hj
        simp only [State.set, State.startPop, Function.update_self]
        exact hinv
      · simp only [State.set, State.startPop, Function.update_of_ne hj]
        exact h.sched j
    held := h.held_setHead hc
    used := h.used
    places := hplaces
    prepared := h.prepared }

omit [DecidableEq U] in
/-- The queue after `hhead->state = next->state; return hhead`. -/
theorem Scheduler.Inv.copy {next : Word → Word} {state : Word → Option U}
    {pend : P → Option (Word × Word)} {c : Scheduler U} (h : c.Inv next state pend) {w : Switch}
    {hhead n : Word} (hc : c.consumer = .copy w hhead n) (hne : hhead ≠ 0#64)
    (hout : hhead ∉ c.queue) :
    Scheduler.Inv next (Function.update state hhead (state n)) pend
      (c.ret w hhead (some (state n))) := by
  have hcont := h.content
  have hmap : c.queue.tail.map (Function.update state hhead (state n)) = c.queue.tail.map state :=
    List.map_congr_left fun m hm => Function.update_of_ne
      (ne_of_mem_of_not_mem (List.mem_of_mem_tail hm) hout) _ _
  refine ⟨h.chain, h.head, h.tail, h.marked, ?_, ?_⟩
  · simp only [Scheduler.values, Scheduler.transit, hc] at hcont
    unfold Scheduler.values Scheduler.transit Scheduler.ret afterPop
    rw [← hcont, ← hmap]
    cases w with
    | blocking => simp [Scheduler.popped]
    | nonBlocking yield => simp [Scheduler.popped, hne]
  · unfold Scheduler.Position Scheduler.ret afterPop
    cases w with
    | blocking => trivial
    | nonBlocking yield => simp [hne]

omit [DecidableEq U] in
/-- `hhead->state = next->state; return hhead` -/
theorem inv_copy (h : Inv L s) {k : S} {w : Switch} {hhead next : Word}
    (hc : (s.sched k).consumer = .copy w hhead next) :
    Inv L { s.set k ((s.sched k).ret w hhead (some (s.state next))) with
      state := Function.update s.state hhead (s.state next) } := by
  have hheld : s.Held hhead (.hand k) := by simp [State.Held, hc, Consumer.hand]
  have hne : hhead ≠ 0#64 := (h.addr hheld).ne_zero
  have hout : ∀ j, hhead ∉ (s.sched j).queue := fun j => h.not_mem_queue hheld (by simp) (by simp)
  have hstate : ∀ n, n ≠ hhead → Function.update s.state hhead (s.state next) n = s.state n :=
    fun n hn => Function.update_of_ne hn _ _
  have htail : ∀ j, ∀ n ∈ (s.sched j).queue.tail,
      Function.update s.state hhead (s.state next) n = s.state n := fun j n hn =>
    hstate n (ne_of_mem_of_not_mem (List.mem_of_mem_tail hn) (hout j))
  have hafter : (afterPop hhead w : Consumer U).hand = some hhead ∧
      (afterPop hhead w : Consumer U).given = false ∧
      ∀ f : Word → Option U, (afterPop hhead w : Consumer U).taken f = f hhead := by
    cases w with
    | blocking => simp [afterPop, Consumer.hand, Consumer.given, Consumer.taken, nonNull_of_ne hne]
    | nonBlocking yield =>
      simp [afterPop, Consumer.hand, Consumer.given, Consumer.taken, nonNull_of_ne hne, hne]
  have hsame : ∀ j, (s.sched j).Like
      (Function.update s.sched k ((s.sched k).ret w hhead (some (s.state next))) j) := by
    intro j
    by_cases hj : j = k
    · subst hj
      rw [Function.update_self]
      refine ⟨rfl, rfl, ?_, ?_, ?_⟩
      · simp only [Scheduler.tmp, Scheduler.ret, hafter.2.1, hc]; rfl
      · simp only [Scheduler.ret, hafter.1, hc]; rfl
      · simp only [Scheduler.ret, hafter.2.1, hc]; rfl
    · rw [Function.update_of_ne hj]
      exact ⟨rfl, rfl, rfl, rfl, rfl⟩
  have htaken : ∀ j, s.taken j = (Function.update s.sched k
      ((s.sched k).ret w hhead (some (s.state next))) j).consumer.taken
        (Function.update s.state hhead (s.state next)) := by
    intro j
    by_cases hj : j = k
    · subst hj
      rw [Function.update_self]
      simp only [State.taken, hc, Scheduler.ret, hafter.2.2, Function.update_self]
      rfl
    · rw [Function.update_of_ne hj]
      refine h.taken_write (hout j) (fun hh => ?_) hstate
      have hh : s.Held hhead (.hand j) := hh
      cases h.held.unique hheld hh
      exact hj rfl
  exact {
    sched := fun j => by
      by_cases hj : j = k
      · subst hj
        simp only [State.set, Function.update_self]
        exact (h.sched j).copy hc hne (hout j)
      · simp only [State.set, Function.update_of_ne hj]
        exact (h.sched j).frame (fun _ _ => rfl) fun n hn =>
          hstate n (ne_of_mem_of_not_mem hn (hout j))
    held := by
      refine h.held.frame fun n y => ?_
      cases y with
      | owner u => exact Iff.rfl
      | producer p => exact Iff.rfl
      | queued j => simp only [State.Held, State.set, (hsame j).queue]
      | head j => simp only [State.Held, State.set, (hsame j).head]
      | tmp j => simp only [State.Held, State.set, (hsame j).tmp]
      | hand j => simp only [State.Held, State.set, (hsame j).hand]
    used := h.used
    places := {
      scheduling := h.places.scheduling
      queued := fun u j n => by
        simp only [State.set, (hsame j).queue]
        exact (h.places.queued u j n).trans (and_congr_right fun hn => by rw [← htail j n hn])
      popping := fun u j => (h.places.popping u j).trans (Eq.congr_left (htaken j))
      owns := fun u => (h.places.owns u).trans
        (State.owns_congr rfl (fun _ _ => rfl) fun j _ => (hsame j).given)
      value := fun j n hn => by
        simp only [State.set, (hsame j).queue] at hn ⊢
        rw [htail j n hn]
        exact h.places.value j n hn
      hand := fun j hj ht => h.places.hand j ((hsame j).hand.symm.trans_ne hj)
        ((htaken j).trans ht) }
    prepared := fun q => by
      refine (h.prepared q).congr rfl (fun _ _ => rfl) fun n hn => ⟨hstate n ?_, rfl⟩
      rintro rfl
      rcases h.held_of_node hn with hq | ⟨u, hq, -⟩
      · cases h.held.unique hheld hq
      · cases h.held.unique hheld hq }

omit [DecidableEq U] in
/-- The queue does not see how the kThread handles the popped node. -/
theorem Scheduler.Inv.recycle {next : Word → Word} {state : Word → Option U}
    {pend : P → Option (Word × Word)} {c : Scheduler U} (h : c.Inv next state pend)
    (hold : c.transit state = []) {x : Consumer U} {tmp : Word}
    (hnew : ∀ c' : Scheduler U, c'.consumer = x → c'.transit state = [] ∧ c'.Position next) :
    Scheduler.Inv next state pend { c with tmpNode := tmp, consumer := x } := by
  refine ⟨h.chain, h.head, h.tail, h.marked, ?_, (hnew _ rfl).2⟩
  have hcont := h.content
  unfold Scheduler.values at hcont ⊢
  rw [hold] at hcont
  rw [(hnew _ rfl).1]
  exact hcont

omit [DecidableEq U] in
theorem Inv.sched_recycle (h : Inv L s) {k : S} {x : Consumer U} {tmp : Word}
    (hold : (s.sched k).transit s.state = [])
    (hnew : ∀ c : Scheduler U, c.consumer = x → c.transit s.state = [] ∧ c.Position s.next)
    (j : S) :
    (Function.update s.sched k { s.sched k with tmpNode := tmp, consumer := x } j).Inv
      s.next s.state (s.pend j) := by
  by_cases hj : j = k
  · rw [hj, Function.update_self]
    exact (h.sched k).recycle hold hnew
  · rw [Function.update_of_ne hj]
    exact h.sched j

omit [DecidableEq U] in
/-- A kThread pops one uThread at a time. -/
theorem Inv.popping_ne (h : Inv L s) {j k : S} {u ut : U} (hut : s.place ut = .popping k)
    (hne : u ≠ ut) (hu : s.place u = .popping j) : j ≠ k := by
  rintro rfl
  have htaken := (h.places.popping ut j).mp hut
  rw [(h.places.popping u j).mp hu] at htaken
  exact hne (Option.some.inj htaken)

/-- A kThread gives node `b` to the uThread it has popped. -/
theorem Inv.give (h : Inv L s) {k : S} {ut : U} {node b : Word} {f : Word → Bool}
    (hc : (s.sched k).consumer = .give ut node) (hb : b ≠ 0#64)
    (hused : ∀ a, f a = true → L.heap a = true)
    (hheld : Placement (State.Held { s.set k { s.sched k with consumer := .keep ut node } with
        node := Function.update s.node ut b })
      (State.IsNode L { s with used := f })) :
    Inv L { s.set k { s.sched k with consumer := .keep ut node } with
      node := Function.update s.node ut b
      used := f } := by
  have hplace : s.place ut = .popping k :=
    (h.places.popping ut k).mpr (by simp [State.taken, hc, Consumer.taken])
  have htaken : ∀ j, s.taken j = (Function.update s.sched k
      { s.sched k with consumer := .keep ut node } j).consumer.taken s.state := by
    intro j
    by_cases hj : j = k
    · subst hj; simp [State.taken, hc, Consumer.taken]
    · simp [State.taken, hj]
  have hqueue : ∀ j, (Function.update s.sched k
      { s.sched k with consumer := .keep ut node } j).queue = (s.sched j).queue :=
    Update.apply_same rfl
  exact {
    sched := fun j => h.sched_recycle (by simp [Scheduler.transit, hc]) (fun c hy => by
      simp [Scheduler.transit, Scheduler.Position, hy]) j
    held := hheld
    used := hused
    places := {
      scheduling := h.places.scheduling
      queued := fun u j n => by
        simpa only [State.set, hqueue j] using h.places.queued u j n
      popping := fun u j => (h.places.popping u j).trans (Eq.congr_left (htaken j))
      owns := fun u => by
        by_cases hu : u = ut
        · subst hu
          simpa [State.Owns, State.set, hplace, Consumer.given] using hb
        · refine (iff_of_eq (congrArg (· ≠ 0#64) (Function.update_of_ne hu _ _))).trans
            ((h.places.owns u).trans (State.owns_congr rfl (fun _ _ => rfl) fun j hj => ?_))
          have hne : j ≠ k := h.popping_ne hplace hu hj
          simp only [State.set, Function.update_of_ne hne]
      value := fun j n hn => by
        simp only [State.set, hqueue j] at hn
        exact h.places.value j n hn
      hand := fun j hj ht => by
        by_cases hjk : j = k
        · subst hjk
          simp [State.set, State.taken, Consumer.taken] at ht
        · simp only [State.set, Function.update_of_ne hjk] at hj
          exact h.places.hand j hj ((htaken j).trans ht) }
    prepared := fun q => by
      refine (h.prepared q).congr rfl (fun u hu => Function.update_of_ne ?_ _ _)
        fun _ _ => ⟨rfl, rfl⟩
      rintro rfl
      rw [(h.places.scheduling u q).mpr hu] at hplace
      cases hplace }

/-- `ut->utvar->node = tmpNode` -/
theorem inv_give (h : Inv L s) {k : S} {ut : U} {node : Word}
    (hc : (s.sched k).consumer = .give ut node) (ht : (s.sched k).tmpNode ≠ 0#64) :
    Inv L { s.set k { s.sched k with consumer := .keep ut node } with
      node := Function.update s.node ut (s.sched k).tmpNode } := by
  have hplace : s.place ut = .popping k :=
    (h.places.popping ut k).mpr (by simp [State.taken, hc, Consumer.taken])
  have hnone : s.node ut = 0#64 :=
    h.not_owned (by simp [State.Owns, hplace, hc, Consumer.given])
  have htmp : s.Held (s.sched k).tmpNode (.tmp k) := by
    simp [State.Held, Scheduler.tmp, hc, Consumer.given, nonNull_of_ne ht]
  refine h.give (f := s.used) hc ht h.used ?_
  refine h.held.move (q := .owner ut) htmp fun n y => ?_
  cases y with
  | owner u =>
    by_cases hu : u = ut
    · subst hu
      simp [State.Held, nonNull_of_ne ht, hnone, eq_comm]
    · simp [State.Held, hu]
  | producer p => simp [State.Held, State.set]
  | tmp j =>
    by_cases hj : j = k
    · subst hj
      simp [State.Held, State.set, Scheduler.tmp, hc, Consumer.given, nonNull_of_ne ht, eq_comm]
    · simp [State.Held, State.set, hj]
  | queued j | head j | hand j =>
    by_cases hj : j = k
    · subst hj
      simp [State.Held, State.set, hc, Consumer.hand]
    · simp [State.Held, State.set, hj]

/-- `tmpNode = node`: the uThread is free, with its new node. -/
theorem inv_keep (h : Inv L s) {k : S} {ut : U} {node : Word}
    (hc : (s.sched k).consumer = .keep ut node) :
    Inv L { s.set k { s.sched k with tmpNode := node, consumer := .running } with
      place := Function.update s.place ut .free } := by
  have hplace : s.place ut = .popping k :=
    (h.places.popping ut k).mpr (by simp [State.taken, hc, Consumer.taken])
  have hheld : s.Held node (.hand k) := by simp [State.Held, hc, Consumer.hand]
  have hne : node ≠ 0#64 := (h.addr hheld).ne_zero
  have hqueue : ∀ j, (Function.update s.sched k
      { s.sched k with tmpNode := node, consumer := .running } j).queue = (s.sched j).queue :=
    Update.apply_same rfl
  exact {
    sched := fun j => h.sched_recycle (by simp [Scheduler.transit, hc]) (fun c hy => by
      simp [Scheduler.transit, Scheduler.Position, hy]) j
    held := by
      refine h.held.move (q := .tmp k) hheld fun n y => ?_
      cases y with
      | owner u => simp [State.Held, State.set]
      | producer p => simp [State.Held, State.set]
      | queued j | head j =>
        by_cases hj : j = k
        · subst hj
          simp [State.Held, State.set]
        · simp [State.Held, State.set, hj]
      | tmp j | hand j =>
        by_cases hj : j = k
        · subst hj
          simp [State.Held, State.set, Scheduler.tmp, hc, Consumer.given, Consumer.hand,
            nonNull_of_ne hne, eq_comm]
        · simp [State.Held, State.set, hj]
    used := h.used
    places := {
      scheduling := fun u p =>
        Update.eq_iff (h.places.scheduling u p) (by rw [hplace]; simp) (by simp)
      queued := fun u j n => by
        simp only [State.set, hqueue j]
        exact Update.eq_iff (h.places.queued u j n) (by rw [hplace]; simp) (by simp)
      popping := fun u j => by
        have hold := h.places.popping u j
        by_cases hj : j = k
        · subst hj
          by_cases hu : u = ut
          · subst hu
            simp [State.set, State.taken, Consumer.taken]
          · simpa [State.set, State.taken, Consumer.taken, hc, hu, Ne.symm hu] using hold
        · refine (Update.eq_iff hold ?_ (by simp)).trans
            (Eq.congr_left (State.taken_congr ?_ rfl))
          · rw [hplace]
            intro e
            cases e
            exact hj rfl
          · simp only [State.set, Function.update_of_ne hj]
      owns := fun u => by
        by_cases hu : u = ut
        · subst hu
          have hown : s.Owns u := by simp [State.Owns, hplace, hc, Consumer.given]
          simpa [State.Owns, State.set] using (h.places.owns u).mpr hown
        · refine (h.places.owns u).trans (State.owns_congr (Function.update_of_ne hu _ _)
            (fun _ _ => rfl) fun j hj => ?_)
          have hne : j ≠ k := h.popping_ne hplace hu hj
          simp only [State.set, Function.update_of_ne hne]
      value := fun j n hn => by
        simp only [State.set, hqueue j] at hn
        exact h.places.value j n hn
      hand := fun j hh => by
        by_cases hj : j = k
        · subst hj
          simp [State.set, Consumer.hand] at hh
        · simp only [State.set, State.taken, Function.update_of_ne hj] at hh ⊢
          exact h.places.hand j hh }
    prepared := h.prepared }

omit [DecidableEq U] in
/-- `new Node` before its address is stored: the write to fresh memory. -/
theorem Inv.writeFresh (h : Inv L s) {a : Word} (ha : ¬s.IsNode L a) (v : Option U) :
    Inv L { s with
      next := Function.update s.next a 0#64
      state := Function.update s.state a v } := by
  refine h.write (h.away_fresh ha) (fun n hn => Function.update_of_ne hn _ _)
    (fun n hn => Function.update_of_ne hn _ _) fun q => ?_
  refine (h.prepared q).congr rfl (fun _ _ => rfl) fun n hn => ?_
  have hne : n ≠ a := by
    rintro rfl
    rcases h.held_of_node hn with hq | ⟨u, hq, -⟩
    · exact ha (h.held.item n _ hq)
    · exact ha (h.held.item n _ hq)
  exact ⟨Function.update_of_ne hne _ _, Function.update_of_ne hne _ _⟩

omit [DecidableEq S] [DecidableEq U] in
theorem isNode_update {a : Word} (n : Word) :
    State.IsNode L { s with used := Function.update s.used a true } n ↔
      s.IsNode L n ∨ n = a := by
  unfold State.IsNode
  by_cases hn : n = a
  · simp [hn]
  · simp [hn]

omit [DecidableEq S] [DecidableEq U] in
theorem used_update (h : ∀ a, s.used a = true → L.heap a = true) {a : Word}
    (ha : L.heap a = true) (b : Word) (hb : Function.update s.used a true b = true) :
    L.heap b = true := by
  by_cases hba : b = a
  · rw [hba]; exact ha
  · rw [Function.update_of_ne hba] at hb
    exact h b hb

/-- `ut->utvar->node = new Node(ut)` -/
theorem inv_giveNew (h : Inv L s) {k : S} {ut : U} {node a : Word}
    (hc : (s.sched k).consumer = .give ut node) (ht : (s.sched k).tmpNode = 0#64)
    (ha : L.heap a = true) (hfree : s.used a = false) :
    Inv L { (s.newNode a (some ut)).set k { s.sched k with consumer := .keep ut node } with
      node := Function.update s.node ut a } := by
  have hplace : s.place ut = .popping k :=
    (h.places.popping ut k).mpr (by simp [State.taken, hc, Consumer.taken])
  have hnone : s.node ut = 0#64 :=
    h.not_owned (by simp [State.Owns, hplace, hc, Consumer.given])
  have hnew := not_isNode ha hfree
  have hne : a ≠ 0#64 := (L.heap_addr a ha).ne_zero
  refine (h.writeFresh hnew (some ut)).give (f := Function.update s.used a true) hc hne
    (used_update h.used ha) ?_
  refine h.held.enter (q := .owner ut) (· = a) (fun n hn => hn ▸ hnew) isNode_update
    fun n y => ?_
  cases y with
  | owner u =>
    by_cases hu : u = ut
    · subst hu
      simp [State.Held, nonNull_of_ne hne, hnone, eq_comm]
    · simp [State.Held, hu]
  | producer p => simp [State.Held, State.set]
  | queued j | head j | hand j | tmp j =>
    by_cases hj : j = k
    · subst hj
      simp [State.Held, State.set, Scheduler.tmp, ht, hc, Consumer.hand]
    · simp [State.Held, State.set, hj]

/-- A uThread is created with its node. -/
theorem inv_create (h : Inv L s) {u : U} {a : Word} (hu : s.place u = .fresh)
    (ha : L.heap a = true) (hfree : s.used a = false) :
    Inv L { s.newNode a none with
      node := Function.update s.node u a
      place := Function.update s.place u .free } := by
  have hnone : s.node u = 0#64 := h.not_owned (by simp [State.Owns, hu])
  have hnew := not_isNode ha hfree
  have hne : a ≠ 0#64 := (L.heap_addr a ha).ne_zero
  have hw := h.writeFresh hnew none
  exact {
    sched := hw.sched
    held := by
      refine h.held.enter (q := .owner u) (· = a) (fun n hn => hn ▸ hnew) isNode_update
        fun n y => ?_
      cases y with
      | owner v =>
        by_cases hv : v = u
        · subst hv
          simp [State.Held, nonNull_of_ne hne, hnone, eq_comm]
        · simp [State.Held, hv]
      | _ => simp [State.Held, State.newNode]
    used := used_update h.used ha
    places := {
      scheduling := fun v p =>
        Update.eq_iff (hw.places.scheduling v p) (by rw [hu]; simp) (by simp)
      queued := fun v k n =>
        Update.eq_iff (hw.places.queued v k n) (by rw [hu]; simp) (by simp)
      popping := fun v k => Update.eq_iff (hw.places.popping v k) (by rw [hu]; simp) (by simp)
      owns := fun v => by
        by_cases hv : v = u
        · subst hv
          simpa [State.Owns, State.newNode] using hne
        · exact (iff_of_eq (congrArg (· ≠ 0#64) (Function.update_of_ne hv _ _))).trans
            ((h.places.owns v).trans (State.owns_congr (Function.update_of_ne hv _ _)
              (fun _ _ => rfl) fun _ _ => rfl))
      value := hw.places.value
      hand := hw.places.hand }
    prepared := fun q => by
      refine (hw.prepared q).congr rfl (fun v hv => Function.update_of_ne ?_ _ _)
        fun _ _ => ⟨rfl, rfl⟩
      rintro rfl
      rw [(h.places.scheduling v q).mpr hv] at hu
      cases hu }

end Consumers

end UThreads.Scheduler04
