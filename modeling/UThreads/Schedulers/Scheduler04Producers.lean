import UThreads.Schedulers.Scheduler04Inv

/-!
# `Scheduler_04`: the producers keep the invariant

One lemma for each step of `schedule`. The node goes from the uThread to the producer
(`inv_release`) and from there into the queue (`inv_exchange`), where it is the end of the chain
behind a gap that the producer closes later (`inv_link`).
-/

namespace UThreads.Scheduler04

variable {S U P : Type*}

section Producers

variable [DecidableEq S] [DecidableEq U] [DecidableEq P] {L : Layout S} {s : State S U P}

omit [DecidableEq U] in
theorem pend_update {s' : State S U P} {p : P} {x : Schedule S U}
    (hs : s'.producer = Function.update s.producer p x) (k : S) :
    s'.pend k = Function.update (s.pend k) p (x.promise k) := by
  funext q
  unfold State.pend
  rw [hs]
  by_cases hq : q = p
  · subst hq; simp
  · simp [Function.update_of_ne hq]

omit [DecidableEq U] in
theorem pend_update_same {s' : State S U P} {p : P} {x : Schedule S U}
    (hs : s'.producer = Function.update s.producer p x) {k : S}
    (hx : x.promise k = (s.producer p).promise k) : s'.pend k = s.pend k := by
  rw [pend_update hs k, hx]
  exact Function.update_eq_self p (s.pend k)

section MoveOn

variable {p : P} {x : Schedule S U}

omit [DecidableEq U] in
theorem Inv.held_moveOn (h : Inv L s) (hcar : x.carried = (s.producer p).carried) :
    Placement (State.Held { s with producer := Function.update s.producer p x })
      (s.IsNode L) := by
  refine h.held.frame fun n y => ?_
  cases y with
  | producer q => simp only [State.Held, Update.apply_same hcar q]
  | _ => exact Iff.rfl

omit [DecidableEq S] [DecidableEq U] in
theorem Places.moveOn (h : Places s) (hut : x.ut = (s.producer p).ut)
    (hun : x.unreleased = (s.producer p).unreleased) {next' : Word → Word} :
    Places { s with next := next', producer := Function.update s.producer p x } where
  scheduling := fun u q => by
    rw [Update.apply_same hut q]
    exact h.scheduling u q
  queued := h.queued
  popping := h.popping
  owns := fun u => (h.owns u).trans
    (State.owns_congr rfl (fun q _ => Update.apply_same hun q) fun _ _ => rfl)
  value := h.value
  hand := h.hand

omit [DecidableEq U] in
/-- A producer moves on with the same node, uThread and promise. -/
theorem Inv.moveOn (h : Inv L s) (hut : x.ut = (s.producer p).ut)
    (hun : x.unreleased = (s.producer p).unreleased) (hcar : x.carried = (s.producer p).carried)
    (hprom : ∀ k, x.promise k = (s.producer p).promise k)
    (hprep : State.Prepared { s with producer := Function.update s.producer p x } p) :
    Inv L { s with producer := Function.update s.producer p x } where
  sched := fun k => by
    rw [pend_update_same rfl (hprom k)]
    exact h.sched k
  held := h.held_moveOn hcar
  used := h.used
  places := h.places.moveOn hut hun
  prepared := fun q => by
    by_cases hq : q = p
    · subst hq; exact hprep
    · exact (h.prepared q).congr (Function.update_of_ne hq _ _) (fun _ _ => rfl)
        fun _ _ => ⟨rfl, rfl⟩

end MoveOn

/-- `schedule` is called on a free uThread. -/
theorem inv_schedule (h : Inv L s) {p : P} {ut : U} {kt : S} (hp : s.producer p = .idle)
    (hu : s.place ut = .free) : Inv L { s with
      producer := Function.update s.producer p (.setState kt ut (s.node ut))
      place := Function.update s.place ut (.scheduling p) } where
  sched := fun k => by
    rw [pend_update_same rfl (by rw [hp]; rfl)]
    exact h.sched k
  held := by
    refine h.held.frame fun n y => ?_
    cases y with
    | producer q =>
      have hcar : (Schedule.setState kt ut (s.node ut)).carried = (s.producer p).carried := by
        rw [hp]; rfl
      simp only [State.Held, Update.apply_same hcar q]
    | _ => exact Iff.rfl
  used := h.used
  places := {
    scheduling := fun u q => by
      have hold := h.places.scheduling u q
      by_cases hq : q = p
      · subst hq
        by_cases hut : u = ut
        · subst hut; simp [Schedule.ut]
        · rw [hp] at hold
          simpa [Function.update_of_ne hut, Schedule.ut, Ne.symm hut] using hold
      · dsimp only
        rw [Function.update_of_ne hq]
        refine Update.eq_iff hold (by simp [hu]) ?_
        intro e
        cases e
        exact hq rfl
    queued := fun u k n =>
      Update.eq_iff (h.places.queued u k n) (by simp [hu]) (by simp)
    popping := fun u k => Update.eq_iff (h.places.popping u k) (by simp [hu]) (by simp)
    owns := fun u => by
      rw [h.places.owns u]
      by_cases hut : u = ut
      · subst hut
        simp [State.Owns, hu, Schedule.unreleased]
      · refine State.owns_congr (Function.update_of_ne hut _ _) (fun q hq => ?_) fun _ _ => rfl
        have hne : q ≠ p := by
          intro e
          have := (h.places.scheduling u q).mp hq
          rw [e, hp] at this
          cases this
        exact congrArg Schedule.unreleased (Function.update_of_ne hne _ _)
    value := h.places.value
    hand := h.places.hand }
  prepared := fun q => by
    by_cases hq : q = p
    · subst hq; simp [State.Prepared]
    · exact (h.prepared q).congr (Function.update_of_ne hq _ _) (fun _ _ => rfl)
        fun _ _ => ⟨rfl, rfl⟩

omit [DecidableEq U] in
/-- `node->setState(ut)` -/
theorem inv_setState (h : Inv L s) {p : P} {kt : S} {ut : U} {node : Word}
    (hp : s.producer p = .setState kt ut node) : Inv L { s with
      state := Function.update s.state node (some ut)
      producer := Function.update s.producer p (.release kt ut node) } := by
  have hnode : s.node ut = node := by simpa [State.Prepared, hp] using h.prepared p
  have hplace : s.place ut = .scheduling p :=
    (h.places.scheduling ut p).mpr (by rw [hp]; rfl)
  have hheld : s.Held node (.owner ut) :=
    hnode ▸ h.owned_eq (by simp [State.Owns, hplace, hp, Schedule.unreleased])
  have hw : Inv L { s with
      next := s.next
      state := Function.update s.state node (some ut) } := by
    refine h.write (h.away hheld (by simp)) (fun _ _ => rfl)
      (fun n hn => Function.update_of_ne hn _ _) fun q => ?_
    by_cases hq : q = p
    · subst hq
      simpa [State.Prepared, hp] using hnode
    · refine (h.prepared q).congr rfl (fun _ _ => rfl) fun n hn => ⟨?_, rfl⟩
      refine Function.update_of_ne (fun e => hq (h.node_inj hn ?_)) _ _
      rw [hp, e]
      rfl
  exact hw.moveOn (by rw [hp]; rfl) (by rw [hp]; rfl) (by rw [hp]; rfl)
    (fun k => by rw [hp]; rfl) (by simpa [State.Prepared] using hnode)

/-- `ut->utvar->node = nullptr`: the node goes to the producer. -/
theorem inv_release (h : Inv L s) {p : P} {kt : S} {ut : U} {node : Word}
    (hp : s.producer p = .release kt ut node) : Inv L { s with
      node := Function.update s.node ut 0#64
      producer := Function.update s.producer p (.clear kt ut node) } := by
  obtain ⟨hnode, hstate⟩ : s.node ut = node ∧ s.state node = some ut := by
    simpa [State.Prepared, hp] using h.prepared p
  have hplace : s.place ut = .scheduling p :=
    (h.places.scheduling ut p).mpr (by rw [hp]; rfl)
  have hheld : s.Held node (.owner ut) :=
    hnode ▸ h.owned_eq (by simp [State.Owns, hplace, hp, Schedule.unreleased])
  have hut : (Schedule.clear kt ut node).ut = (s.producer p).ut := by rw [hp]; rfl
  exact {
    sched := fun k => by
      rw [pend_update_same rfl (by rw [hp]; rfl)]
      exact h.sched k
    held := by
      refine h.held.move (q := .producer p) hheld fun n y => ?_
      cases y with
      | owner u =>
        by_cases hu : u = ut
        · subst hu
          have hold : nonNull (s.node u) = some node := hheld
          simp [State.Held, hold, eq_comm]
        · simp [State.Held, hu]
      | producer q =>
        by_cases hq : q = p
        · subst hq
          simp [State.Held, hp, Schedule.carried, eq_comm]
        · simp [State.Held, hq]
      | _ => simp [State.Held]
    used := h.used
    places := {
      scheduling := fun u q => by
        rw [Update.apply_same hut q]
        exact h.places.scheduling u q
      queued := h.places.queued
      popping := h.places.popping
      owns := fun u => by
        by_cases hu : u = ut
        · subst hu
          simp [State.Owns, hplace, Schedule.unreleased]
        · dsimp only
          rw [Function.update_of_ne hu, h.places.owns u]
          refine State.owns_congr rfl (fun q hq => ?_) fun _ _ => rfl
          have hne : q ≠ p := by
            intro e
            have := (h.places.scheduling u q).mp hq
            rw [e, hp] at this
            cases this
            exact hu rfl
          exact congrArg Schedule.unreleased (Function.update_of_ne hne _ _)
      value := h.places.value
      hand := h.places.hand }
    prepared := fun q => by
      by_cases hq : q = p
      · subst hq
        simpa [State.Prepared] using hstate
      · refine (h.prepared q).congr (Function.update_of_ne hq _ _) (fun u hu => ?_)
          fun _ _ => ⟨rfl, rfl⟩
        refine Function.update_of_ne ?_ _ _
        rintro rfl
        rw [(h.places.scheduling u q).mpr hu] at hplace
        cases hplace
        exact hq rfl }

omit [DecidableEq U] in
/-- `last.next = nullptr` -/
theorem inv_clear (h : Inv L s) {p : P} {kt : S} {ut : U} {node : Word}
    (hp : s.producer p = .clear kt ut node) : Inv L { s with
      next := Function.update s.next node 0#64
      producer := Function.update s.producer p (.exchange kt ut node) } := by
  have hstate : s.state node = some ut := by simpa [State.Prepared, hp] using h.prepared p
  have hheld : s.Held node (.producer p) := by simp [State.Held, hp, Schedule.carried]
  have hw : Inv L { s with next := Function.update s.next node 0#64, state := s.state } := by
    refine h.write (h.away hheld (by simp))
      (fun n hn => Function.update_of_ne hn _ _) (fun _ _ => rfl) fun q => ?_
    by_cases hq : q = p
    · subst hq
      simpa [State.Prepared, hp] using hstate
    · refine (h.prepared q).congr rfl (fun _ _ => rfl) fun n hn => ⟨rfl, ?_⟩
      refine Function.update_of_ne (fun e => hq (h.node_inj hn ?_)) _ _
      rw [hp, e]
      rfl
  exact hw.moveOn (by rw [hp]; rfl) (by rw [hp]; rfl) (by rw [hp]; rfl)
    (fun k => by rw [hp]; rfl) (by simpa [State.Prepared] using hstate)

omit [DecidableEq U] [DecidableEq P] in
theorem Scheduler.Inv.tail_exchange {next : Word → Word} {state : Word → Option U}
    {pend : P → Option (Word × Word)} {c : Scheduler U} (h : c.Inv next state pend) (ut : U)
    (node : Word) : (c.exchange ut node).queue.tail = c.queue.tail ++ [node] :=
  List.tail_append_of_ne_nil (List.ne_nil_of_mem h.head_mem)

omit [DecidableEq U] in
/-- The queue after an exchange. -/
theorem Scheduler.Inv.exchange {next : Word → Word} {state : Word → Option U}
    {pend : P → Option (Word × Word)} {c : Scheduler U} (h : c.Inv next state pend) {p : P}
    {ut : U} {node : Word} (hp : pend p = none) (haddr : node.IsAddr) (hout : node ∉ c.queue)
    (hstate : state node = some ut) (hnext : next node = 0#64) :
    (c.exchange ut node).Inv next state
      (Function.update pend p (some (c.tail.unmark, node))) where
  chain := by
    refine h.chain.exchange h.tail rfl hp (List.nodup_singleton node) ?_ ?_ ?_ ?_
    · simpa using hout
    · simpa using haddr.ne_zero
    · exact fun x y hxy => absurd hxy (Adjacent.singleton node x y)
    · simpa using hnext
  head := (List.head?_append_of_ne_nil _ (List.ne_nil_of_mem h.head_mem)).trans h.head
  tail := by
    simp only [Scheduler.exchange, Word.unmark_of_even haddr.even]
    exact List.getLast?_concat
  marked := fun hm => by
    simp only [Scheduler.exchange, haddr.even] at hm
    cases hm
  content := by
    have hcont := h.content
    have htail := h.tail_exchange ut node
    simp only [Scheduler.values, Scheduler.popped, Scheduler.transit] at hcont ⊢
    rw [htail]
    simp only [Scheduler.exchange, List.map_append, ← hcont]
    simp [hstate]
  position := h.position

/-- The places after an exchange: the uThread is queued in its node. -/
theorem Inv.places_exchange (h : Inv L s) {p : P} {kt : S} {ut : U} {node : Word}
    (hp : s.producer p = .exchange kt ut node) :
    Places { s.set kt ((s.sched kt).exchange ut node) with
      producer := Function.update s.producer p
        (.link kt (s.sched kt).tail.unmark node (s.sched kt).tail.marked)
      place := Function.update s.place ut (.queued kt node) } := by
  obtain ⟨hstate, -⟩ : s.state node = some ut ∧ s.next node = 0#64 := by
    simpa [State.Prepared, hp] using h.prepared p
  have hplace : s.place ut = .scheduling p :=
    (h.places.scheduling ut p).mpr (by rw [hp]; rfl)
  have htail := (h.sched kt).tail_exchange ut node
  have hcons : ∀ k, (Function.update s.sched kt ((s.sched kt).exchange ut node) k).consumer =
      (s.sched k).consumer := Update.apply_same rfl
  have htaken : ∀ k, s.taken k = (s.set kt ((s.sched kt).exchange ut node)).taken k :=
    fun k => State.taken_congr (hcons k) rfl
  exact {
    scheduling := fun u q => by
      dsimp only
      have hold := h.places.scheduling u q
      by_cases hq : q = p
      · subst hq
        by_cases hu : u = ut
        · subst hu
          simp [Schedule.ut]
        · rw [hp] at hold
          simpa [Function.update_of_ne hu, Schedule.ut, Ne.symm hu] using hold
      · rw [Function.update_of_ne hq]
        refine Update.eq_iff hold ?_ (by simp)
        rw [hplace]
        intro e
        cases e
        exact hq rfl
    queued := fun u k n => by
      have hold := h.places.queued u k n
      by_cases hu : u = ut
      · subst hu
        rw [hplace] at hold
        have hno : ¬(n ∈ (s.sched k).queue.tail ∧ s.state n = some u) := fun hn =>
          absurd (hold.mpr hn) (by simp)
        by_cases hk : k = kt
        · subst hk
          simp only [State.set, Function.update_self, htail, List.mem_append,
            List.mem_singleton, Place.queued.injEq, true_and]
          constructor
          · rintro rfl
            exact ⟨.inr rfl, hstate⟩
          · rintro ⟨hn | hn, hs⟩
            · exact absurd ⟨hn, hs⟩ hno
            · exact hn.symm
        · simp only [State.set, Function.update_self, Function.update_of_ne hk,
            Place.queued.injEq]
          exact iff_of_false (fun e => hk e.1.symm) hno
      · by_cases hk : k = kt
        · subst hk
          simp only [State.set, Function.update_self, Function.update_of_ne hu, htail,
            List.mem_append, List.mem_singleton, hold]
          constructor
          · exact fun hn => ⟨.inl hn.1, hn.2⟩
          · rintro ⟨hn | rfl, hs⟩
            · exact ⟨hn, hs⟩
            · rw [hstate] at hs
              cases hs
              exact absurd rfl hu
        · simpa only [State.set, Function.update_of_ne hu, Function.update_of_ne hk] using hold
    popping := fun u k =>
      (Update.eq_iff (h.places.popping u k) (by rw [hplace]; simp) (by simp)).trans
        (Eq.congr_left (htaken k))
    owns := fun u => by
      by_cases hu : u = ut
      · subst hu
        have hnot : ¬s.Owns u := by simp [State.Owns, hplace, hp, Schedule.unreleased]
        simp [State.Owns, State.set, h.not_owned hnot]
      · refine (h.places.owns u).trans
          (State.owns_congr (Function.update_of_ne hu _ _) (fun q hq => ?_)
            fun k _ => congrArg Consumer.given (hcons k))
        have hne : q ≠ p := by
          intro e
          have := (h.places.scheduling u q).mp hq
          rw [e, hp] at this
          cases this
          exact hu rfl
        exact congrArg Schedule.unreleased (Function.update_of_ne hne _ _)
    value := fun k n hn => by
      by_cases hk : k = kt
      · subst hk
        simp only [State.set, Function.update_self, htail, List.mem_append,
          List.mem_singleton] at hn
        rcases hn with hn | rfl
        · exact h.places.value k n hn
        · show s.state n ≠ none
          simp [hstate]
      · simp only [State.set, Function.update_of_ne hk] at hn
        exact h.places.value k n hn
    hand := fun k hk ht => h.places.hand k
      ((congrArg Consumer.hand (hcons k).symm).trans_ne hk) ((htaken k).trans ht) }

/-- `tail.exchange(&last)`: the node and its uThread are queued. -/
theorem inv_exchange (h : Inv L s) {p : P} {kt : S} {ut : U} {node : Word}
    (hp : s.producer p = .exchange kt ut node) :
    Inv L { s.set kt ((s.sched kt).exchange ut node) with
      producer := Function.update s.producer p
        (.link kt (s.sched kt).tail.unmark node (s.sched kt).tail.marked)
      place := Function.update s.place ut (.queued kt node) } := by
  obtain ⟨hstate, hnext⟩ : s.state node = some ut ∧ s.next node = 0#64 := by
    simpa [State.Prepared, hp] using h.prepared p
  have hheld : s.Held node (.producer p) := by simp [State.Held, hp, Schedule.carried]
  exact {
    sched := fun k => by
      have hinv := h.sched k
      rw [pend_update (s := s) rfl k]
      by_cases hk : k = kt
      · subst hk
        simp only [State.set, Function.update_self, Schedule.promise, if_true]
        exact hinv.exchange (by simp [State.pend, hp, Schedule.promise]) (h.addr hheld)
          (h.not_mem_queue hheld (by simp) (by simp)) hstate hnext
      · have hnone : s.pend k p = none := by simp [State.pend, hp, Schedule.promise]
        simp only [State.set, Function.update_of_ne hk, Schedule.promise, if_neg (Ne.symm hk)]
        rw [← hnone, Function.update_eq_self]
        exact hinv
    held := by
      refine h.held.move (q := .queued kt) hheld fun n y => ?_
      cases y with
      | owner u => simp [State.Held, State.set]
      | producer q =>
        by_cases hq : q = p
        · subst hq
          simp [State.Held, hp, Schedule.carried, eq_comm]
        · simp [State.Held, hq]
      | queued k =>
        by_cases hk : k = kt
        · subst hk
          simp [State.Held, State.set, (h.sched k).tail_exchange ut node, or_comm]
        · simp [State.Held, State.set, hk]
      | head k | tmp k | hand k =>
        by_cases hk : k = kt
        · subst hk
          simp [State.Held, State.set, Scheduler.exchange, Scheduler.tmp]
        · simp [State.Held, State.set, hk]
    used := h.used
    places := h.places_exchange hp
    prepared := fun q => by
      by_cases hq : q = p
      · subst hq; simp [State.Prepared]
      · exact (h.prepared q).congr (Function.update_of_ne hq _ _) (fun _ _ => rfl)
          fun _ _ => ⟨rfl, rfl⟩ }

omit [DecidableEq U] in
/-- The queue after `prev->next = &first`. -/
theorem Scheduler.Inv.link {next : Word → Word} {state : Word → Option U}
    {pend : P → Option (Word × Word)} {c : Scheduler U} (h : c.Inv next state pend) {p : P}
    {prev first : Word} (hp : pend p = some (prev, first)) :
    c.Inv (Function.update next prev first) state (Function.update pend p none) where
  chain := h.chain.link hp
  head := h.head
  tail := h.tail
  marked := h.marked
  content := h.content
  position := by
    have hpos := h.position
    unfold Scheduler.Position at hpos ⊢
    cases hc : c.consumer with
    | setHead w hhead n =>
      simp only [hc] at hpos
      -- The pointer that the kThread has read is not one that is still to be written.
      have hne : c.head ≠ prev := by
        intro e
        rw [e, h.chain.null_of_promised hp] at hpos
        exact hpos.2.2 hpos.2.1.symm
      rw [Function.update_of_ne hne]
      exact hpos
    | _ => rw [hc] at hpos; exact hpos

omit [DecidableEq U] [DecidableEq P] in
/-- A pending write is at a node of the queue. -/
theorem Inv.prev_mem (h : Inv L s) {p : P} {kt : S} {prev first : Word} {w : Bool}
    (hp : s.producer p = .link kt prev first w) : prev ∈ (s.sched kt).queue :=
  ((h.sched kt).chain.promised p prev first (by simp [State.pend, hp, Schedule.promise])).mem.1

omit [DecidableEq U] in
/-- `prev->next = &first` -/
theorem inv_link (h : Inv L s) {p : P} {kt : S} {prev first : Word} {wasEmpty : Bool}
    (hp : s.producer p = .link kt prev first wasEmpty) : Inv L { s with
      next := Function.update s.next prev first
      producer := Function.update s.producer p (if wasEmpty then .post kt else .idle) } := by
  have hprev := h.prev_mem hp
  have hother : ∀ k, k ≠ kt → prev ∉ (s.sched k).queue := by
    intro k hk hm
    rcases h.mem_queue hprev with hprev | hprev <;> rcases h.mem_queue hm with hm | hm <;>
      cases h.held.unique hprev hm <;> exact hk rfl
  generalize hx : (if wasEmpty then Schedule.post kt else Schedule.idle : Schedule S U) = x
  have hnone : x.ut = none ∧ x.unreleased = false ∧ x.carried = none ∧ ∀ k, x.promise k = none := by
    subst hx
    cases wasEmpty <;> exact ⟨rfl, rfl, rfl, fun _ => rfl⟩
  obtain ⟨hut, hun, hcar, hprom⟩ := hnone
  exact {
    sched := fun k => by
      rw [pend_update (s := s) rfl k, hprom k]
      by_cases hk : k = kt
      · subst hk
        exact (h.sched k).link (by simp [State.pend, hp, Schedule.promise])
      · have hnone : s.pend k p = none := by simp [State.pend, hp, Schedule.promise, Ne.symm hk]
        rw [← hnone, Function.update_eq_self]
        exact (h.sched k).frame (fun n hn => Function.update_of_ne
          (ne_of_mem_of_not_mem hn (hother k hk)) _ _) fun _ _ => rfl
    held := h.held_moveOn (by rw [hp, hcar]; rfl)
    used := h.used
    places := h.places.moveOn (by rw [hp, hut]; rfl) (by rw [hp, hun]; rfl)
    prepared := fun q => by
      by_cases hq : q = p
      · subst hq
        subst hx
        cases wasEmpty <;> simp [State.Prepared]
      · refine (h.prepared q).congr (Function.update_of_ne hq _ _) (fun _ _ => rfl)
          fun n hn => ⟨rfl, Function.update_of_ne ?_ _ _⟩
        rintro rfl
        rcases h.held_of_node hn with hheld | ⟨u, hheld, -⟩
        · exact h.not_mem_queue hheld (by simp) (by simp) hprev
        · exact h.not_mem_queue hheld (by simp) (by simp) hprev }

omit [DecidableEq U] in
/-- `sem.post()` -/
theorem inv_post (h : Inv L s) {p : P} {kt : S} (hp : s.producer p = .post kt) :
    Inv L { s.set kt { s.sched kt with sem := (s.sched kt).sem + 1 } with
      producer := Function.update s.producer p .idle } := by
  have h' : Inv L { s with producer := Function.update s.producer p .idle } :=
    h.moveOn (by rw [hp]; rfl) (by rw [hp]; rfl) (by rw [hp]; rfl) (fun k => by rw [hp]; rfl)
      (by simp [State.Prepared])
  have hinv := h'.sched kt
  exact h'.like (k := kt) (c := { s.sched kt with sem := (s.sched kt).sem + 1 })
    ⟨rfl, rfl, rfl, rfl, rfl⟩ rfl ⟨hinv.chain, hinv.head, hinv.tail, hinv.marked, hinv.content,
      hinv.position⟩ s.ioSem

end Producers

end UThreads.Scheduler04
