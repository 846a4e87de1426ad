import UThreads.Schedulers.Scheduler01Queue

/-!
# `Scheduler_01`: what `__removeMany` leaves

`__removeMany` is to move a portion of `queue` only, so that work is left for the other kThreads.
The portion is at least `lastPopNum`, which remembers an earlier load: when `size` is not larger,
the queue is drained (`queue_drained`, of which **`work_taken`** is a run). When it is, something is
left (**`work_left`**).
-/

namespace UThreads.Scheduler01

open IntrusiveQueue (Holds)

variable {K U : Type*} [DecidableEq K] [DecidableEq U]

/-- A portion of `size` for each of the kThreads, or the remembered amount. -/
theorem Queues.popnum_lt {size numkt last : ℕ} (hnumkt : 2 ≤ numkt) (hsize : 2 ≤ size)
    (hlast : last < size) : popnum size numkt last < size := by
  have hdiv : size / numkt < size := Nat.div_lt_self (by omega) hnumkt
  unfold popnum
  dsimp only
  split_ifs <;> omega

theorem Queues.popnum_eq_size {size numkt last : ℕ} (hlast : size ≤ last) :
    popnum size numkt last = size := by
  unfold popnum
  dsimp only
  split_ifs <;> omega

/-- The remembered amount is not smaller than `size`: `__removeMany` takes all that `size` counts,
and so all that there is unless `size` has wrapped. -/
theorem queue_drained {s : State K U} (h : (machine K U).Reachable s) (k : K) (numkt : ℕ)
    (hz : s.queues.size ≠ 0) (hlast : s.queues.size.toNat ≤ s.queues.lastPopNum) {l : List U}
    (hl : Holds s.queues.next s.queues.queue l) (hlen : l.length < 2 ^ 32) :
    ∃ q, s.queues.removeMany k numkt = some q ∧ Holds q.next q.queue [] ∧ q.size = 0 := by
  obtain ⟨lists, hI⟩ := inv_reachable h
  have heq : lists .queue = l := (hI.placed.holds .queue).segment.right_unique hl.segment
  have hsize : s.queues.size.toNat = l.length := by
    rw [hI.size_toNat, heq, Nat.mod_eq_of_lt hlen]
  obtain ⟨next', lrq', queue', htransfer, -, hqueue, -⟩ := hI.transferFrom k numkt hz
  rw [Queues.popnum_eq_size hlast] at htransfer hqueue
  rw [heq, hsize, List.drop_length] at hqueue
  refine ⟨_, by rw [Queues.removeMany, Queues.popnum_eq_size hlast, htransfer]; rfl, hqueue, ?_⟩
  simp [Queues.setSize]

/-- Four uThreads are pushed, and kThread `0` of two moves two of them. -/
def halved : List (Action ℕ ℕ) := [.push 0, .push 1, .push 2, .push 3, .tryPopMany 0 2]

/-- **The queue is drained.** kThread `1` finds two uThreads, `lastPopNum` is 2, and it moves
both. -/
theorem work_taken : ∃ s : State ℕ ℕ, (machine ℕ ℕ).Reachable s ∧ s.queues.size = 2 ∧
    s.queues.lastPopNum = 2 ∧
    ∃ q, s.queues.removeMany 1 2 = some q ∧ q.queue = .new ∧ q.size = 0 := by
  have hinit : (machine ℕ ℕ).Reachable ⟨.initial, .initial⟩ := .of_init rfl
  have hdrained : ((((machine ℕ ℕ).run ⟨.initial, .initial⟩ halved).get
      (by decide +kernel)).queues.removeMany 1 2).map
      (fun q => (q.queue, q.size)) = some (.new, 0) := by decide +kernel
  obtain ⟨q, hq, he⟩ := Option.map_eq_some_iff.mp hdrained
  refine ⟨_, hinit.get halved (by decide +kernel), by decide +kernel, by decide +kernel, q, hq, ?_⟩
  exact ⟨congrArg Prod.fst he, congrArg Prod.snd he⟩

/-- **Work is left** for the other kThreads, when the amount moved last is smaller than `size`. -/
theorem work_left {s : State K U} (h : (machine K U).Reachable s) (k : K) {numkt : ℕ}
    (hnumkt : 2 ≤ numkt)
    (hsize : 2 ≤ s.queues.size.toNat) (hlast : s.queues.lastPopNum < s.queues.size.toNat) :
    ∃ q l, s.queues.removeMany k numkt = some q ∧ Holds q.next q.queue l ∧ l ≠ [] := by
  obtain ⟨lists, hI⟩ := inv_reachable h
  have hz : s.queues.size ≠ 0 := by
    intro hz
    simp [hz] at hsize
  obtain ⟨next', lrq', queue', htransfer, -, hqueue, -⟩ := hI.transferFrom k numkt hz
  refine ⟨_, (lists .queue).drop _, by rw [Queues.removeMany, htransfer]; rfl, hqueue, ?_⟩
  have hlt := Queues.popnum_lt hnumkt hsize hlast
  have hle := hI.size_le
  rw [Ne, List.drop_eq_nil_iff]
  omega

theorem work_left_halved : ∃ s : State ℕ ℕ, (machine ℕ ℕ).Reachable s ∧
    ∃ q l, s.queues.removeMany 0 2 = some q ∧ Holds q.next q.queue l ∧ l ≠ [] := by
  have hinit : (machine ℕ ℕ).Reachable ⟨.initial, .initial⟩ := .of_init rfl
  have hr := hinit.get (halved.take 4) (by decide +kernel)
  exact ⟨_, hr, work_left hr 0 (Nat.le_refl 2) (by decide +kernel) (by decide +kernel)⟩

end UThreads.Scheduler01
