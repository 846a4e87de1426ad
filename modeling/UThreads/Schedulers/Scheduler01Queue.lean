import UThreads.Schedulers.Scheduler01Stack

/-!
# `Scheduler_01`: no uThread is lost

The counters are kept apart from the intrusive queues: `size` and `bulkCounter`, the `count` of a
bulk push, and `popnum`, which `transferFrom` writes back.

* **`uthreads_delivered`**: the counters are those of the queues modulo their width, every transfer
  moves what `__removeMany` asks for, and uThreads leave the queue in the order in which they were
  pushed.
* **`delivery_exceptions`**: with 2^32 uThreads on the queue `size` is 0, and a uThread that
  `__tryPop` removes goes to no local queue.
-/

namespace UThreads.Scheduler01

open IntrusiveQueue (Holds Placed)

variable {K U : Type*} [DecidableEq K] [DecidableEq U]

namespace Queues

/-- The queues by name. -/
def get (q : Queues K U) : Place K → IntrusiveQueue U
  | .bulkQueue => q.bulkQueue
  | .queue => q.queue
  | .lrq k => q.lrq k

/-- The uThreads moved to the local queue of kThread `k`. -/
def moved (q : Queues K U) (k : K) : List U :=
  (q.removed.filter fun r => r.2 = .lrq k).map Prod.fst

/-! ## `popnum` -/

theorem popnum_pos {size numkt last : ℕ} (hsize : 0 < size) : 0 < popnum size numkt last := by
  unfold popnum
  generalize size / numkt = d
  dsimp only
  split_ifs <;> omega

theorem popnum_le (size numkt last : ℕ) : popnum size numkt last ≤ size := by
  unfold popnum
  generalize size / numkt = d
  dsimp only
  split_ifs <;> omega

end Queues

open Queues (popnum popnum_pos popnum_le)

/-! ## The invariant -/

/-- `lists p` are the uThreads on queue `p`. -/
structure Inv (q : Queues K U) (lists : Place K → List U) : Prop where
  placed : Placed q.next q.get lists q.place
  bulk : lists .bulkQueue = q.bulk
  size : q.size = BitVec.ofNat 32 (lists .queue).length
  counter : q.flushing = false → q.bulkCounter = BitVec.ofNat 64 q.bulk.length
  flushed : q.flushing = true → q.bulk = []
  pushed : q.pushed = q.removed.map Prod.fst ++ lists .queue
  moved : ∀ k, q.moved k = q.ran k ++ lists (.lrq k)
  last : q.lastPopNum ≤ q.maxSize
  max : q.size.toNat ≤ q.maxSize

section Steps

variable {q q' : Queues K U} {lists : Place K → List U} {k : K} {u : U} {numkt : ℕ}

omit [DecidableEq U] in
theorem Inv.size_toNat (h : Inv q lists) : q.size.toNat = (lists .queue).length % 2 ^ 32 := by
  rw [h.size]
  exact BitVec.toNat_ofNat ..

omit [DecidableEq U] in
theorem Inv.size_le (h : Inv q lists) : q.size.toNat ≤ (lists .queue).length := by
  rw [h.size_toNat]
  exact Nat.mod_le ..

omit [DecidableEq K] [DecidableEq U] in
theorem size_pos (hz : q.size ≠ 0) : 0 < q.size.toNat := by
  refine Nat.pos_of_ne_zero fun h0 => hz ?_
  exact BitVec.eq_of_toNat_eq h0

/-- `popnum` uThreads are moved, and `transferFrom` does not change `popnum`. -/
theorem Inv.transferFrom (h : Inv q lists) (k : K) (numkt : ℕ) (hz : q.size ≠ 0) :
    ∃ next' lrq' queue',
      (q.lrq k).transferFrom q.next q.queue (popnum q.size.toNat numkt q.lastPopNum) =
        some (popnum q.size.toNat numkt q.lastPopNum, next', lrq', queue') ∧
      Holds next' lrq' (lists (.lrq k) ++
        (lists .queue).take (popnum q.size.toNat numkt q.lastPopNum)) ∧
      Holds next' queue' ((lists .queue).drop (popnum q.size.toNat numkt q.lastPopNum)) ∧
      ∀ y, y ∉ lists (.lrq k) → y ∉ lists .queue → next' y = q.next y := by
  generalize hn : popnum q.size.toNat numkt q.lastPopNum = n
  have hpos : 0 < n := hn ▸ popnum_pos (size_pos hz)
  have hle : n ≤ (lists .queue).length := Nat.le_trans (hn ▸ popnum_le ..) h.size_le
  have hne : lists .queue ≠ [] := by
    rintro hnil
    rw [hnil] at hle
    simp at hle
    omega
  have hdisj : (lists (.lrq k)).Disjoint (lists .queue) := h.placed.family.disjoint (by simp)
  obtain ⟨next', lrq', queue', htransfer, hlrq, hqueue, hframe⟩ :=
    IntrusiveQueue.transferFrom_spec (h.placed.holds (.lrq k))
      (h.placed.holds .queue) hne hdisj hpos
  rw [Nat.min_eq_left hle] at htransfer
  exact ⟨next', lrq', queue', htransfer, hlrq, hqueue, hframe⟩

theorem ofNat_sub {a b : ℕ} (h : b ≤ a) :
    BitVec.ofNat 32 a - BitVec.ofNat 32 b = BitVec.ofNat 32 (a - b) := by
  apply BitVec.eq_of_toNat_eq
  rw [BitVec.toNat_sub, BitVec.toNat_ofNat, BitVec.toNat_ofNat, BitVec.toNat_ofNat]
  omega

omit [DecidableEq K] [DecidableEq U] in
theorem max_setSize (n : BitVec 32) : (q.setSize n).size.toNat ≤ (q.setSize n).maxSize :=
  Nat.le_max_right ..

omit [DecidableEq U] in
theorem moved_append (rs : List (U × Dest K)) (k : K) :
    ((q.removed ++ rs).filter fun r => r.2 = .lrq k).map Prod.fst =
      q.moved k ++ (rs.filter fun r => r.2 = .lrq k).map Prod.fst := by
  rw [List.filter_append, List.map_append]
  rfl

omit [DecidableEq K] [DecidableEq U] in
theorem map_dest (us : List U) (d : Dest K) : (us.map fun u => (u, d)).map Prod.fst = us := by
  simp [Function.comp_def]

omit [DecidableEq U] in
theorem moved_dest (us : List U) (k k' : K) :
    ((us.map fun u => (u, Dest.lrq k)).filter fun r => r.2 = .lrq k').map Prod.fst =
      if k' = k then us else [] := by
  induction us with
  | nil => simp
  | cons u us ih =>
    by_cases hk : k' = k
    · subst hk
      simpa using ih
    · simp [hk, Ne.symm hk]

omit [DecidableEq K] [DecidableEq U] in
theorem placed_of {next : U → Option U} {queues : Place K → IntrusiveQueue U}
    {place : U → Option (Place K)} (h : Placed next queues lists place) (hnext : q.next = next)
    (hplace : q.place = place) (hget : ∀ p, q.get p = queues p) :
    Placed q.next q.get lists q.place := by
  rw [hnext, hplace, funext hget]
  exact h

/-- `__removeMany` -/
theorem inv_removeMany (h : Inv q lists) (hz : q.size ≠ 0) (hq : q.removeMany k numkt = some q') :
    ∃ lists', Inv q' lists' := by
  obtain ⟨next', lrq', queue', htransfer, hlrq, hqueue, hframe⟩ := h.transferFrom k numkt hz
  simp only [Queues.removeMany, htransfer, Option.map_some] at hq
  obtain rfl := Option.some.inj hq
  have hle := popnum_le q.size.toNat numkt q.lastPopNum
  generalize popnum q.size.toNat numkt q.lastPopNum = n at *
  have hwalk : walk q.next n q.queue.head = (lists .queue).take n :=
    (h.placed.holds .queue).segment.walk_eq n
  have hlen : n ≤ (lists .queue).length := Nat.le_trans hle h.size_le
  have hplaced := h.placed.transfer (i := .lrq k) (j := .queue) (by simp)
    (List.take_append_drop n _).symm hlrq hqueue hframe
  refine ⟨Function.update (Function.update lists .queue ((lists .queue).drop n)) (.lrq k)
    (lists (.lrq k) ++ (lists .queue).take n), ?_, ?_, ?_, h.counter, h.flushed, ?_,
    fun k' => ?_, ?_, max_setSize _⟩
  · rw [hwalk]
    refine placed_of hplaced rfl rfl fun p => ?_
    cases p with
    | bulkQueue | queue => simp [Queues.get, Queues.setSize]
    | lrq k' =>
      by_cases hk : k' = k
      · simp [Queues.get, Queues.setSize, hk]
      · simp [Queues.get, Queues.setSize, hk]
  · simp [h.bulk, Queues.setSize]
  · simp only [Queues.setSize, h.size, ofNat_sub hlen]
    simp
  · show q.pushed = (q.removed ++ _).map _ ++ _
    rw [List.map_append, map_dest, hwalk, h.pushed]
    simp
  · show ((q.removed ++ _).filter _).map _ = _
    rw [moved_append, moved_dest, h.moved, hwalk]
    by_cases hk : k' = k
    · simp [Queues.setSize, hk]
    · simp [Queues.setSize, hk]
  · exact Nat.le_trans hle (Nat.le_trans h.max (Nat.le_max_left ..))

/-- `__tryPop` -/
theorem inv_tryPop (h : Inv q lists) (hz : q.size ≠ 0) (hq : q.tryPop k = some q') :
    ∃ lists', Inv q' lists' := by
  have hpos := Nat.lt_of_lt_of_le (size_pos hz) h.size_le
  obtain ⟨u, l, hl⟩ := List.exists_cons_of_length_pos hpos
  obtain ⟨next', queue', hpop, hplaced⟩ := h.placed.pop (i := .queue) hl
  replace hpop : q.queue.pop q.next = some (u, next', queue') := hpop
  simp only [Queues.tryPop, hpop, Option.map_some] at hq
  obtain rfl := Option.some.inj hq
  refine ⟨Function.update lists .queue l, ?_, ?_, ?_, h.counter, h.flushed, ?_, fun k' => ?_, ?_,
    max_setSize _⟩
  · refine placed_of hplaced rfl rfl fun p => ?_
    cases p <;> simp [Queues.get, Queues.setSize]
  · simp [h.bulk, Queues.setSize]
  · have hsub := ofNat_sub (a := (lists .queue).length) (b := 1) hpos
    simp only [Queues.setSize, h.size, Function.update_self]
    rw [hl] at hsub ⊢
    simpa using hsub
  · simp [Queues.setSize, h.pushed, hl]
  · show ((q.removed ++ _).filter _).map _ = _
    rw [moved_append, h.moved]
    simp [Queues.setSize]
  · exact Nat.le_trans h.last (Nat.le_max_left ..)

/-- kThread `k` runs the next uThread of its local queue. -/
theorem inv_run (h : Inv q lists) (hq : q.run k = some q') : ∃ lists', Inv q' lists' := by
  have hhead : (q.lrq k).head ≠ none := by
    intro hnone
    simp [Queues.run, IntrusiveQueue.pop, hnone] at hq
  have hne : lists (.lrq k) ≠ [] :=
    fun hnil => hhead ((h.placed.holds (.lrq k)).head_none_iff.mpr hnil)
  obtain ⟨u, l, hl⟩ := List.exists_cons_of_ne_nil hne
  obtain ⟨next', lrq', hpop, hplaced⟩ := h.placed.pop (i := .lrq k) hl
  replace hpop : (q.lrq k).pop q.next = some (u, next', lrq') := hpop
  simp only [Queues.run, hpop, Option.map_some] at hq
  obtain rfl := Option.some.inj hq
  refine ⟨Function.update lists (.lrq k) l, ?_, by simp [h.bulk], by simp [h.size], h.counter,
    h.flushed, by simp [h.pushed], fun k' => ?_, h.last, h.max⟩
  · refine placed_of hplaced rfl rfl fun p => ?_
    cases p with
    | bulkQueue | queue => simp [Queues.get]
    | lrq k' =>
      by_cases hk : k' = k
      · simp [Queues.get, hk]
      · simp [Queues.get, hk]
  · show q.moved k' = _
    rw [h.moved]
    by_cases hk : k' = k
    · simp [hk, hl]
    · simp [hk]

/-- `__push(ut)` -/
theorem inv_push (h : Inv q lists) (hu : q.place u = none) :
    ∃ q' lists', q.push u = some q' ∧ Inv q' lists' ∧ q'.pushed = q.pushed ++ [u] ∧
      q'.removed = q.removed ∧ q'.place = Function.update q.place u (some .queue) := by
  obtain ⟨next', queue', hpush, hplaced⟩ := h.placed.push (i := .queue) hu
  replace hpush : q.queue.push q.next u = some (next', queue') := hpush
  refine ⟨{ q with
    next := next', queue := queue', pushed := q.pushed ++ [u],
    place := Function.update q.place u (some .queue) }.setSize (q.size + 1),
    Function.update lists .queue (lists .queue ++ [u]), by
      simp only [Queues.push, hpush, Option.map_some],
    ⟨?_, ?_, ?_, h.counter, h.flushed, ?_, fun k' => ?_, ?_, max_setSize _⟩, rfl, rfl, rfl⟩
  · refine placed_of hplaced rfl rfl fun p => ?_
    cases p <;> simp [Queues.get, Queues.setSize]
  · simp [h.bulk, Queues.setSize]
  · simp [h.size, Queues.setSize, BitVec.ofNat_add]
  · simp [h.pushed, Queues.setSize]
  · show q.moved k' = _
    simp [h.moved, Queues.setSize]
  · exact Nat.le_trans h.last (Nat.le_max_left ..)

/-- `prepareBulkPush(ut)` -/
theorem inv_prepareBulkPush (h : Inv q lists) (hu : q.place u = none) (hf : q.flushing = false)
    (hq : q.prepareBulkPush u = some q') : ∃ lists', Inv q' lists' := by
  obtain ⟨next', bulkQueue', hpush, hplaced⟩ := h.placed.push (i := .bulkQueue) hu
  replace hpush : q.bulkQueue.push q.next u = some (next', bulkQueue') := hpush
  simp only [Queues.prepareBulkPush, hpush, Option.map_some] at hq
  obtain rfl := Option.some.inj hq
  refine ⟨Function.update lists .bulkQueue (lists .bulkQueue ++ [u]), ?_, by simp [h.bulk],
    by simp [h.size], fun _ => ?_, ?_, by simp [h.pushed], fun k' => ?_, h.last, h.max⟩
  · refine placed_of hplaced rfl rfl fun p => ?_
    cases p <;> simp [Queues.get]
  · simp [h.counter hf, BitVec.ofNat_add]
  · simp [hf]
  · show q.moved k' = _
    simp [h.moved]

/-- `bulkPush` -/
theorem inv_pushBulk (h : Inv q lists) (hf : q.flushing = false) (hc : q.bulkCounter ≠ 0)
    (hq : q.pushBulk = some q') : ∃ lists', Inv q' lists' := by
  have hcounter := h.counter hf
  have hne : lists .bulkQueue ≠ [] := by
    intro hnil
    rw [← h.bulk, hnil] at hcounter
    exact hc hcounter
  have hdisj : (lists .queue).Disjoint (lists .bulkQueue) := h.placed.family.disjoint (by simp)
  obtain ⟨next', queue', htransfer, hqueue, hframe⟩ :=
    IntrusiveQueue.transferAllFrom_spec (h.placed.holds .queue)
      (h.placed.holds .bulkQueue) hne hdisj
  replace htransfer : q.queue.transferAllFrom q.next q.bulkQueue = some (next', queue', .new) :=
    htransfer
  simp only [Queues.pushBulk, htransfer, Option.map_some] at hq
  obtain rfl := Option.some.inj hq
  have hplaced := h.placed.transfer (i := .queue) (j := .bulkQueue) (by simp)
    (List.append_nil _).symm hqueue IntrusiveQueue.holds_new hframe
  refine ⟨Function.update (Function.update lists .bulkQueue []) .queue
    (lists .queue ++ lists .bulkQueue), ?_, ?_, ?_, ?_, ?_, ?_, fun k' => ?_, ?_, max_setSize _⟩
  · rw [h.bulk] at hplaced ⊢
    refine placed_of hplaced rfl rfl fun p => ?_
    cases p <;> simp [Queues.get, Queues.setSize]
  · simp [Queues.setSize]
  · simp only [Queues.setSize, Function.update_self, List.length_append, h.size, hcounter, ← h.bulk]
    apply BitVec.eq_of_toNat_eq
    simp [BitVec.ofNat_add]
  · simp [Queues.setSize]
  · simp [Queues.setSize]
  · simp [h.pushed, h.bulk, Queues.setSize]
  · show q.moved k' = _
    simp [h.moved, Queues.setSize]
  · exact Nat.le_trans h.last (Nat.le_max_left ..)

theorem inv_step {s s' : State K U} (h : Inv s.queues lists) {a : Action K U} (hs : Step s a s') :
    ∃ lists', Inv s'.queues lists' := by
  cases hs with
  | push hu hq _ =>
    obtain ⟨q', lists', hq', hinv, -⟩ := inv_push h hu
    obtain rfl := Option.some.inj (hq'.symm.trans hq)
    exact ⟨lists', hinv⟩
  | prepareBulkPush hu hf hq => exact inv_prepareBulkPush h hu hf hq
  | bulkPush hf hc hq _ => exact inv_pushBulk h hf hc hq
  | bulkZero hf =>
    refine ⟨lists, h.placed, h.bulk, h.size, fun _ => ?_, by simp, h.pushed, h.moved, h.last, h.max⟩
    simp [h.flushed hf]
  | tryPop hz hq => exact inv_tryPop h hz hq
  | tryPopMany _ hz hq => exact inv_removeMany h hz hq
  | pass _ _ hz hq _ => exact inv_removeMany h hz hq
  | leave _ _ hz _ hq _ => exact inv_removeMany h hz hq
  | run hq => exact inv_run h hq
  | enter | again | spurious => exact ⟨lists, h⟩

variable {s : State K U}

theorem inv_reachable (h : (machine K U).Reachable s) : ∃ lists, Inv s.queues lists := by
  refine Machine.Reachable.invariant (I := fun s => ∃ lists, Inv s.queues lists) ?_ ?_ h
  · rintro s rfl
    refine ⟨fun _ => [],
      ⟨⟨fun _ => IntrusiveQueue.framed_holds, fun p => ?_, by simp, fun _ _ => rfl⟩,
      by simp [Queues.initial]⟩, rfl, rfl, fun _ => rfl, by
        simp [Queues.initial], rfl, fun _ => rfl,
      Nat.le_refl _, Nat.le_refl _⟩
    cases p <;> exact IntrusiveQueue.holds_new
  · rintro s a s' ⟨lists, hl⟩ hs
    exact inv_step hl (step_cases hs)

/-- The counters are right, the transfers are complete, and the order of the pushes is kept. -/
structure Delivered (q : Queues K U) (ready : List U) (taken : K → List U) : Prop where
  queue : Holds q.next q.queue ready
  lrq : ∀ k, Holds q.next (q.lrq k) (taken k)
  bulk : Holds q.next q.bulkQueue q.bulk
  size : q.size.toNat = ready.length % 2 ^ 32
  bulkCounter : q.flushing = false → q.bulkCounter.toNat = q.bulk.length % 2 ^ 64
  /-- `__removeMany` is called with `size != 0`. -/
  popnum : ∀ numkt, 0 < numkt → q.size ≠ 0 → 1 ≤ Queues.popnum q.size.toNat numkt q.lastPopNum ∧
    Queues.popnum q.size.toNat numkt q.lastPopNum ≤ q.size.toNat
  /-- `transferFrom` does not change `popnum`. -/
  transfer : ∀ k numkt, 0 < numkt → q.size ≠ 0 → ∃ r,
    (q.lrq k).transferFrom q.next q.queue (Queues.popnum q.size.toNat numkt q.lastPopNum) =
      some (Queues.popnum q.size.toNat numkt q.lastPopNum, r)
  /-- `size -= popnum` does not wrap. -/
  noWrap : ∀ numkt, 0 < numkt → q.size ≠ 0 →
    (q.size - BitVec.ofNat 32 (Queues.popnum q.size.toNat numkt q.lastPopNum)).toNat =
      q.size.toNat - Queues.popnum q.size.toNat numkt q.lastPopNum
  last : q.lastPopNum ≤ q.maxSize
  /-- uThreads leave in the order in which they were pushed, each to one destination. -/
  order : q.pushed = q.removed.map Prod.fst ++ ready
  /-- A kThread runs what was moved to it, in that order. -/
  ran : ∀ k, q.moved k = q.ran k ++ taken k

/-- **Every uThread is accounted for and delivered.** -/
theorem uthreads_delivered (h : (machine K U).Reachable s) :
    ∃ ready taken, Delivered s.queues ready taken := by
  obtain ⟨lists, hI⟩ := inv_reachable h
  have hbulk := hI.placed.holds .bulkQueue
  rw [hI.bulk] at hbulk
  refine ⟨lists .queue, fun k => lists (.lrq k), hI.placed.holds .queue,
    fun k => hI.placed.holds (.lrq k), hbulk,
    hI.size_toNat, fun hf => ?_, fun numkt _ hz => ?_, fun k numkt _ hz => ?_,
    fun numkt _ hz => ?_, hI.last, hI.pushed, hI.moved⟩
  · rw [hI.counter hf]
    exact BitVec.toNat_ofNat ..
  · exact ⟨popnum_pos (size_pos hz), popnum_le ..⟩
  · obtain ⟨next', lrq', queue', htransfer, -⟩ := hI.transferFrom k numkt hz
    exact ⟨_, htransfer⟩
  · have hle := popnum_le s.queues.size.toNat numkt s.queues.lastPopNum
    generalize popnum s.queues.size.toNat numkt s.queues.lastPopNum = n at *
    have hlt := s.queues.size.isLt
    rw [BitVec.toNat_sub, BitVec.toNat_ofNat]
    omega

/-- Two uThreads are pushed, one in bulk. kThread `0` moves one to its local queue and runs it. -/
def oneMoved : List (Action ℕ ℕ) :=
  [.push 0, .prepareBulkPush 1, .bulkPush, .bulkZero, .tryPopMany 0 2, .run 0]

theorem uthreads_delivered_oneMoved :
    ∃ s : State ℕ ℕ, (machine ℕ ℕ).Reachable s ∧ s.queues.pushed = [0, 1] ∧ s.queues.ran 0 = [0] ∧
      s.queues.size = 1 ∧ ∃ ready taken, Delivered s.queues ready taken := by
  have hinit : (machine ℕ ℕ).Reachable ⟨.initial, .initial⟩ := .of_init rfl
  have hr := hinit.get oneMoved (by decide +kernel)
  exact ⟨_, hr, by decide +kernel, by decide +kernel, by decide +kernel, uthreads_delivered hr⟩

/-- uThreads `0` to `n - 1` are pushed. -/
theorem pushes_reachable (n : ℕ) :
    ∃ s : State ℕ ℕ, (machine ℕ ℕ).Reachable s ∧ s.queues.pushed.length = n ∧
      s.queues.removed = [] ∧ (∀ u, n ≤ u → s.queues.place u = none) ∧ s.blocked = .initial := by
  induction n with
  | zero => exact ⟨⟨.initial, .initial⟩, .of_init rfl, rfl, rfl, fun _ _ => rfl, rfl⟩
  | succ n ih =>
    obtain ⟨s, hr, hlen, hremoved, hplace, hblocked⟩ := ih
    obtain ⟨lists, hI⟩ := inv_reachable hr
    obtain ⟨q, -, hq, -, hpushed, hremoved', hplace'⟩ := inv_push hI (hplace n (Nat.le_refl n))
    have hstep : (machine ℕ ℕ).step s (.push n) = some ⟨q, .initial⟩ := by
      have hun : (Blocked.initial : Blocked ℕ).unBlock = some .initial := rfl
      simp [machine, step, hplace n (Nat.le_refl n), hq, hblocked, hun]
    refine ⟨⟨q, .initial⟩, hr.next hstep, by simp [hpushed, hlen], hremoved'.trans hremoved,
      fun u hu => ?_, rfl⟩
    rw [hplace', Function.update_of_ne (by omega)]
    exact hplace u (by omega)

/-- **The exceptions.** With 2^32 uThreads on the queue `size` is 0. A uThread that `__tryPop`
removes goes to no local queue. -/
theorem delivery_exceptions :
    (∃ s : State ℕ ℕ, (machine ℕ ℕ).Reachable s ∧ (∃ l, Holds s.queues.next s.queues.queue l ∧
      l.length = 2 ^ 32) ∧ s.queues.size = 0) ∧
    ∃ s : State ℕ ℕ, (machine ℕ ℕ).Reachable s ∧ s.queues.pushed = [0] ∧
      s.queues.removed = [(0, .caller 0)] ∧ s.queues.place 0 = none := by
  constructor
  · obtain ⟨s, hr, hlen, hremoved, -⟩ := pushes_reachable (2 ^ 32)
    obtain ⟨lists, hI⟩ := inv_reachable hr
    have hl : (lists .queue).length = 2 ^ 32 := by
      rw [← hlen, hI.pushed, hremoved]
      simp
    refine ⟨s, hr, ⟨lists .queue, hI.placed.holds .queue, hl⟩, ?_⟩
    rw [hI.size, hl]
    rfl
  · have hinit : (machine ℕ ℕ).Reachable ⟨.initial, .initial⟩ := .of_init rfl
    refine ⟨_, hinit.get [.push 0, .tryPop 0] (by decide +kernel), ?_⟩
    decide +kernel

end Steps

end UThreads.Scheduler01
