import UThreads.Schedulers.Scheduler01

/-!
# `Scheduler_01`: the kThreads that wait

`ktStack` is to hold the kThreads that wait and that nobody has notified. `cv_flag` tells a kThread
that is back from `cv.wait` whether it was taken off the stack. The flag is cleared only before the
first wait: a kThread that was notified, found the queue empty and put itself on the stack again
waits with the flag set, and after a spurious wake-up takes itself for notified.

* **`inserted_twice`**: it is then about to put itself on the stack a second time, or leaves
  `__popMany` while it is on the stack.
* **`stack_exact`**: the stack is exact as long as no spurious wake-up hits a kThread with the flag
  set.
* **`no_lost_unblock`**: without spurious wake-ups, if there is work then nobody is on the stack or
  some kThread is on its way.
-/

namespace UThreads.Scheduler01

open IntrusiveList (Node)

/-! ## The flag is stale -/

/-- kThread `0` waits, and is notified for uThread `0`, which kThread `1` takes. kThread `0` waits
again, and a spurious wake-up follows. -/
def stale : List (Action ℕ ℕ) :=
  [.popMany 0 2, .push 0, .tryPopMany 1 2, .wake 0 2, .spurious 0]

/-- **The flag is stale.** kThread `0` is on the stack, is back from `cv.wait` and finds the queue
empty with the flag set, so that it inserts itself a second time. In the other run kThread `1` waits
too, a push notifies it, and kThread `0` leaves `__popMany` while it is on the stack. -/
theorem inserted_twice :
    (∃ s : State ℕ ℕ, (machine ℕ ℕ).Reachable s ∧ s.blocked.ktStack.onList 0 = true ∧
      s.blocked.pos 0 = .woken ∧ s.queues.size = 0 ∧ s.blocked.cvFlag 0 = true) ∧
    ∃ s : State ℕ ℕ, (machine ℕ ℕ).Reachable s ∧ s.blocked.ktStack.onList 0 = true ∧
      s.blocked.pos 0 = .out := by
  have hinit : (machine ℕ ℕ).Reachable ⟨.initial, .initial⟩ := .of_init rfl
  constructor
  · refine ⟨_, hinit.get stale (by decide +kernel), ?_⟩
    decide +kernel
  · refine ⟨_, hinit.get (stale ++ [.popMany 1 2, .push 1, .wake 0 2]) (by decide +kernel), ?_⟩
    decide +kernel

variable {K U : Type*} [DecidableEq K] [DecidableEq U]

/-! ## What a step does -/

/-- `if (size != 0) __unBlock()` -/
def Unblocks (size : BitVec 32) (b b' : Blocked K) : Prop :=
  size ≠ 0 ∧ b.unBlock = some b' ∨ size = 0 ∧ b' = b

inductive Step (s : State K U) : Action K U → State K U → Prop
  | push {u : U} {q : Queues K U} {b : Blocked K} : s.queues.place u = none →
      s.queues.push u = some q → s.blocked.unBlock = some b → Step s (.push u) ⟨q, b⟩
  | prepareBulkPush {u : U} {q : Queues K U} : s.queues.place u = none → s.queues.flushing = false →
      s.queues.prepareBulkPush u = some q → Step s (.prepareBulkPush u) { s with queues := q }
  | bulkPush {q : Queues K U} {b : Blocked K} : s.queues.flushing = false →
      s.queues.bulkCounter ≠ 0 → s.queues.pushBulk = some q → s.blocked.unBlock = some b →
      Step s .bulkPush ⟨q, b⟩
  | bulkZero : s.queues.flushing = true →
      Step s .bulkZero { s with queues := { s.queues with bulkCounter := 0, flushing := false } }
  | tryPop {k : K} {q : Queues K U} : s.queues.size ≠ 0 → s.queues.tryPop k = some q →
      Step s (.tryPop k) { s with queues := q }
  | tryPopMany {k : K} {numkt : ℕ} {q : Queues K U} : 0 < numkt → s.queues.size ≠ 0 →
      s.queues.removeMany k numkt = some q → Step s (.tryPopMany k numkt) { s with queues := q }
  | enter {k : K} {numkt : ℕ} {b : Blocked K} : s.blocked.pos k = .out → s.queues.size = 0 →
      s.blocked.enter k = some b → Step s (.popMany k numkt) { s with blocked := b }
  | pass {k : K} {numkt : ℕ} {q : Queues K U} {b : Blocked K} : s.blocked.pos k = .out → 0 < numkt →
      s.queues.size ≠ 0 → s.queues.removeMany k numkt = some q →
      Unblocks q.size (s.blocked.goto k .out) b → Step s (.popMany k numkt) ⟨q, b⟩
  | again {k : K} {numkt : ℕ} {b : Blocked K} : s.blocked.pos k = .woken → s.queues.size = 0 →
      s.blocked.again k = some b → Step s (.wake k numkt) { s with blocked := b }
  | leave {k : K} {numkt : ℕ} {q : Queues K U} {b b' : Blocked K} : s.blocked.pos k = .woken →
      0 < numkt → s.queues.size ≠ 0 → s.blocked.leave k = some b →
      s.queues.removeMany k numkt = some q →
      Unblocks q.size (b.goto k .out) b' → Step s (.wake k numkt) ⟨q, b'⟩
  | spurious {k : K} : s.blocked.pos k = .waiting →
      Step s (.spurious k) { s with blocked := s.blocked.goto k .woken }
  | run {k : K} {q : Queues K U} : s.queues.run k = some q → Step s (.run k) { s with queues := q }

theorem finish_cases {s s' : State K U} {k : K} {numkt : ℕ} (hs : s.finish k numkt = some s') :
    ∃ q b, s' = ⟨q, b⟩ ∧ s.queues.removeMany k numkt = some q ∧
      Unblocks q.size (s.blocked.goto k .out) b := by
  obtain ⟨q, hq, hs⟩ := Option.bind_eq_some_iff.mp hs
  obtain ⟨b, hb, rfl⟩ := Option.map_eq_some_iff.mp hs
  refine ⟨q, b, rfl, hq, ?_⟩
  split_ifs at hb with hz
  · exact .inl ⟨hz, hb⟩
  · exact .inr ⟨by simpa using hz, (Option.some.inj hb).symm⟩

theorem step_cases {s s' : State K U} {a : Action K U} (hs : step s a = some s') : Step s a s' := by
  cases a with
  | push u =>
    simp only [step] at hs
    split_ifs at hs with hu
    obtain ⟨q, hq, hs⟩ := Option.bind_eq_some_iff.mp hs
    obtain ⟨b, hb, rfl⟩ := Option.map_eq_some_iff.mp hs
    exact .push hu hq hb
  | prepareBulkPush u =>
    simp only [step] at hs
    split_ifs at hs with hu
    obtain ⟨q, hq, rfl⟩ := Option.map_eq_some_iff.mp hs
    exact .prepareBulkPush hu.1 hu.2 hq
  | bulkPush =>
    simp only [step] at hs
    split_ifs at hs with hc
    obtain ⟨q, hq, hs⟩ := Option.bind_eq_some_iff.mp hs
    obtain ⟨b, hb, rfl⟩ := Option.map_eq_some_iff.mp hs
    exact .bulkPush hc.1 hc.2 hq hb
  | bulkZero =>
    simp only [step] at hs
    split_ifs at hs with hf
    obtain rfl := Option.some.inj hs
    exact .bulkZero hf
  | tryPop k =>
    simp only [step] at hs
    split_ifs at hs with hk
    obtain ⟨q, hq, rfl⟩ := Option.map_eq_some_iff.mp hs
    exact .tryPop hk.2 hq
  | tryPopMany k numkt =>
    simp only [step] at hs
    split_ifs at hs with hk
    obtain ⟨q, hq, rfl⟩ := Option.map_eq_some_iff.mp hs
    exact .tryPopMany hk.2.1 hk.2.2 hq
  | popMany k numkt =>
    simp only [step] at hs
    split_ifs at hs with hk hz
    · obtain ⟨b, hb, rfl⟩ := Option.map_eq_some_iff.mp hs
      exact .enter hk.1 hz hb
    · obtain ⟨q, b, rfl, hq, hb⟩ := finish_cases hs
      exact .pass hk.1 hk.2 hz hq hb
  | wake k numkt =>
    simp only [step] at hs
    split_ifs at hs with hk hz
    · obtain ⟨b, hb, rfl⟩ := Option.map_eq_some_iff.mp hs
      exact .again hk.1 hz hb
    · obtain ⟨b, hb, hs⟩ := Option.bind_eq_some_iff.mp hs
      obtain ⟨q, b', rfl, hq, hb'⟩ := finish_cases hs
      exact .leave hk.1 hk.2 hz hb hq hb'
  | spurious k =>
    simp only [step] at hs
    split_ifs at hs with hk
    obtain rfl := Option.some.inj hs
    exact .spurious hk
  | run k =>
    simp only [step] at hs
    split_ifs at hs with hk
    obtain ⟨q, hq, rfl⟩ := Option.map_eq_some_iff.mp hs
    exact .run hq

/-! ## The stack -/

/-- What the position of a kThread says about whether it is on the stack, and about its flag. -/
def Pos.Fits (on : Prop) (flag : Bool) : Pos → Prop
  | .out => ¬on
  | .waiting => on
  | .woken => on ↔ flag = false

/-- The kThreads `l` are on the stack. -/
structure Stack (b : Blocked K) (l : List K) : Prop where
  holds : IntrusiveList.Holds b.ktStack l
  inserted : ∀ k, k ∈ l ↔ b.inserted k = true
  fits : ∀ k, (b.pos k).Fits (k ∈ l) (b.cvFlag k)

section Stack

variable {b b' : Blocked K} {l : List K} {k : K}

omit [DecidableEq K] in
theorem Stack.out (h : Stack b l) (hk : b.pos k = .out) : k ∉ l := by
  have hfits := h.fits k
  rwa [hk] at hfits

omit [DecidableEq K] in
theorem Stack.woken (h : Stack b l) (hk : b.pos k = .woken) : k ∈ l ↔ b.cvFlag k = false := by
  have hfits := h.fits k
  rwa [hk] at hfits

/-- kThread `k` moves, and maybe goes on the stack or off it. -/
theorem Stack.move (h : Stack b l) {l' : List K} {x : Pos} (hL : IntrusiveList.Holds b'.ktStack l')
    (hmem : ∀ k', k' ≠ k → (k' ∈ l' ↔ k' ∈ l)) (hinserted : ∀ k', k' ∈ l' ↔ b'.inserted k' = true)
    (hpos : b'.pos = Function.update b.pos k x)
    (hflag : ∀ k', k' ≠ k → b'.cvFlag k' = b.cvFlag k')
    (hx : x.Fits (k ∈ l') (b'.cvFlag k)) : Stack b' l' := by
  refine ⟨hL, hinserted, fun k' => ?_⟩
  rw [hpos]
  by_cases hkk : k' = k
  · subst hkk
    rw [Function.update_self]
    exact hx
  · rw [Function.update_of_ne hkk, hmem k' hkk, hflag k' hkk]
    exact h.fits k'

theorem insert_spec (h : Stack b l) (hk : k ∉ l) :
    ∃ L, b.insert k = some { b with ktStack := L, inserted := Function.update b.inserted k true } ∧
      IntrusiveList.Holds L (l ++ [k]) ∧ (∀ k', k' ≠ k → (k' ∈ l ++ [k] ↔ k' ∈ l)) ∧
      ∀ k', k' ∈ l ++ [k] ↔ Function.update b.inserted k true k' = true := by
  obtain ⟨L, hpush, hL⟩ := IntrusiveList.pushBack_spec h.holds hk
  refine ⟨L, by simp [Blocked.insert, hpush], hL, fun k' hkk => by simp [hkk], fun k' => ?_⟩
  by_cases hkk : k' = k
  · simp [hkk]
  · simp [hkk, h.inserted k']

theorem remove_spec (h : Stack b l) (hk : k ∈ l) :
    ∃ L l',
      b.remove k = some { b with ktStack := L, inserted := Function.update b.inserted k false } ∧
      IntrusiveList.Holds L l' ∧ k ∉ l' ∧ (∀ k', k' ≠ k → (k' ∈ l' ↔ k' ∈ l)) ∧
      ∀ k', k' ∈ l' ↔ Function.update b.inserted k false k' = true := by
  obtain ⟨l₁, l₂, rfl⟩ := List.append_of_mem hk
  obtain ⟨L, hremove, hL⟩ := IntrusiveList.remove_spec h.holds
  have hnot : k ∉ l₁ ++ l₂ := by
    have hnodup := h.holds.nodup
    rw [List.nodup_middle] at hnodup
    exact (List.nodup_cons.mp hnodup).1
  have hmem : ∀ k', k' ≠ k → (k' ∈ l₁ ++ l₂ ↔ k' ∈ l₁ ++ k :: l₂) := fun k' hkk => by simp [hkk]
  refine ⟨L, l₁ ++ l₂, by simp [Blocked.remove, hremove], hL, hnot, hmem, fun k' => ?_⟩
  by_cases hkk : k' = k
  · rw [hkk, Function.update_self]
    simpa using hnot
  · rw [hmem k' hkk, h.inserted k', Function.update_of_ne hkk]

/-- `__unBlock` takes a kThread off the stack, if there is one. -/
theorem unBlock_spec (h : Stack b l) :
    l = [] ∧ b.unBlock = some b ∨
      ∃ l' k b', b.unBlock = some b' ∧ Stack b' l' ∧ b'.pos = Function.update b.pos k .woken ∧
        b'.cvFlag = Function.update b.cvFlag k true := by
  rcases List.eq_nil_or_concat' l with rfl | ⟨l, k, rfl⟩
  · exact .inl ⟨rfl, by simp [Blocked.unBlock, h.holds.empty_iff.mpr rfl]⟩
  have hk : k ∈ l ++ [k] := by simp
  have hempty : b.ktStack.empty = false := by
    rw [← Bool.not_eq_true, h.holds.empty_iff]
    simp
  obtain ⟨L, l', hremove, hL, hnot, hmem, hinserted⟩ := remove_spec h hk
  have hpos : (if b.pos k = Pos.waiting then Pos.woken else b.pos k) = .woken := by
    split_ifs with hw
    · rfl
    · cases hp : b.pos k with
      | out => exact absurd hk (h.out hp)
      | waiting => exact absurd hp hw
      | woken => rfl
  refine .inr ⟨l', k, { b with ktStack := L, inserted := Function.update b.inserted k false }.notify
    k, by simp [Blocked.unBlock, hempty, h.holds.back, hremove], ?_, ?_, rfl⟩
  · refine h.move (k := k) (x := .woken) hL hmem hinserted ?_ (fun k' hkk => ?_) ?_
    · simp [Blocked.notify, Blocked.goto, hpos]
    · exact Function.update_of_ne hkk ..
    · simp [Pos.Fits, Blocked.notify, Blocked.goto, hnot]
  · simp [Blocked.notify, Blocked.goto, hpos]

/-- A kThread begins to wait. -/
theorem enter_spec (h : Stack b l) (hk : b.pos k = .out) :
    ∃ l' b', b.enter k = some b' ∧ Stack b' l' ∧ b'.pos = Function.update b.pos k .waiting ∧
      ∀ k', k' ≠ k → b'.cvFlag k' = b.cvFlag k' := by
  obtain ⟨L, hinsert, hL, hmem, hinserted⟩ := insert_spec h (h.out hk)
  refine ⟨l ++ [k], { b with
    ktStack := L, inserted := Function.update b.inserted k true,
    cvFlag := Function.update b.cvFlag k false }.goto k .waiting,
    by simp only [Blocked.enter, hinsert, Option.map_some], ?_, rfl, fun k' hkk => ?_⟩
  · refine h.move (k := k) (x := .waiting) hL hmem hinserted rfl (fun k' hkk => ?_)
      (by simp [Pos.Fits])
    exact Function.update_of_ne hkk ..
  · exact Function.update_of_ne hkk ..

/-- A kThread that is back from the wait waits again. -/
theorem again_spec (h : Stack b l) (hk : b.pos k = .woken) :
    ∃ l' b', b.again k = some b' ∧ Stack b' l' ∧ b'.pos = Function.update b.pos k .waiting ∧
      b'.cvFlag = b.cvFlag := by
  have hon := h.woken hk
  by_cases hflag : b.cvFlag k = true
  · have hnot : k ∉ l := by
      rw [hon, hflag]
      simp
    obtain ⟨L, hinsert, hL, hmem, hinserted⟩ := insert_spec h hnot
    refine ⟨l ++ [k], { b with
      ktStack := L, inserted := Function.update b.inserted k true }.goto k .waiting,
      by simp only [Blocked.again, hflag, if_true, hinsert, Option.map_some], ?_, rfl, rfl⟩
    exact h.move (k := k) (x := .waiting) hL hmem hinserted rfl (fun _ _ => rfl)
      (by simp [Pos.Fits])
  · rw [Bool.not_eq_true] at hflag
    refine ⟨l, b.goto k .waiting, by simp [Blocked.again, hflag], ?_, rfl, rfl⟩
    exact h.move (k := k) (x := .waiting) h.holds (fun _ _ => Iff.rfl) h.inserted rfl
      (fun _ _ => rfl) (hon.mpr hflag)

/-- A kThread that is back from the wait leaves. -/
theorem leave_spec (h : Stack b l) (hk : b.pos k = .woken) :
    ∃ l' b', b.leave k = some b' ∧ Stack (b'.goto k .out) l' ∧ b'.pos = b.pos ∧
    b'.cvFlag = b.cvFlag := by
  have hon := h.woken hk
  by_cases hflag : b.cvFlag k = true
  · have hnot : k ∉ l := by
      rw [hon, hflag]
      simp
    refine ⟨l, b, by simp [Blocked.leave, hflag], ?_, rfl, rfl⟩
    exact h.move (k := k) (x := .out) h.holds (fun _ _ => Iff.rfl) h.inserted rfl
      (fun _ _ => rfl) hnot
  · rw [Bool.not_eq_true] at hflag
    obtain ⟨L, l', hremove, hL, hnot, hmem, hinserted⟩ := remove_spec h (hon.mpr hflag)
    refine ⟨l', { b with ktStack := L, inserted := Function.update b.inserted k false },
      by simp [Blocked.leave, hflag, hremove], ?_, rfl, rfl⟩
    exact h.move (k := k) (x := .out) hL hmem hinserted rfl (fun _ _ => rfl) hnot

/-- A kThread that does not wait goes on. -/
theorem Stack.goto_out (h : Stack b l) (hk : b.pos k = .out) : Stack (b.goto k .out) l :=
  h.move (k := k) (x := .out) h.holds (fun _ _ => Iff.rfl) h.inserted rfl (fun _ _ => rfl)
    (h.out hk)

theorem Stack.unblocks (h : Stack b l) {size : BitVec 32} (hb : Unblocks size b b') :
    ∃ l', Stack b' l' := by
  rcases hb with ⟨-, hb⟩ | ⟨-, rfl⟩
  · rcases unBlock_spec h with ⟨-, hb'⟩ | ⟨l', k, b'', hb', hl', -⟩
    · obtain rfl := Option.some.inj (hb'.symm.trans hb)
      exact ⟨l, h⟩
    · obtain rfl := Option.some.inj (hb'.symm.trans hb)
      exact ⟨l', hl'⟩
  · exact ⟨l, h⟩

end Stack

/-- Spurious wake-ups only hit kThreads whose flag is not set. -/
def FlagClear (s : State K U) : Action K U → Prop
  | .spurious k => s.blocked.cvFlag k = false
  | _ => True

section Steps

variable {s s' : State K U} {l : List K}

theorem stack_step (h : Stack s.blocked l) {a : Action K U} (hc : FlagClear s a)
    (hs : Step s a s') : ∃ l', Stack s'.blocked l' := by
  cases hs with
  | push _ _ hb | bulkPush _ _ _ hb =>
    rcases unBlock_spec h with ⟨-, hb'⟩ | ⟨l', k, b', hb', hl', -⟩
    · obtain rfl := Option.some.inj (hb'.symm.trans hb)
      exact ⟨l, h⟩
    · obtain rfl := Option.some.inj (hb'.symm.trans hb)
      exact ⟨l', hl'⟩
  | prepareBulkPush | bulkZero | tryPop | tryPopMany | run => exact ⟨l, h⟩
  | enter hk _ hb =>
    obtain ⟨l', b', hb', hl', -⟩ := enter_spec h hk
    obtain rfl := Option.some.inj (hb'.symm.trans hb)
    exact ⟨l', hl'⟩
  | pass hk _ _ _ hb => exact (h.goto_out hk).unblocks hb
  | again hk _ hb =>
    obtain ⟨l', b', hb', hl', -⟩ := again_spec h hk
    obtain rfl := Option.some.inj (hb'.symm.trans hb)
    exact ⟨l', hl'⟩
  | leave hk _ _ hleave _ hb =>
    obtain ⟨l', b', hb', hl', -⟩ := leave_spec h hk
    obtain rfl := Option.some.inj (hb'.symm.trans hleave)
    exact hl'.unblocks hb
  | @spurious k hk =>
    -- The kThread is on the stack, and its flag says so.
    refine ⟨l, h.move (k := k) (x := .woken) h.holds (fun _ _ => Iff.rfl) h.inserted rfl
      (fun _ _ => rfl) ?_⟩
    have hflag : s.blocked.cvFlag k = false := hc
    have hfits := h.fits k
    rw [hk] at hfits
    exact iff_of_true hfits hflag

theorem stack_reachable (h : (machine K U).ReachableBy FlagClear s) : ∃ l, Stack s.blocked l := by
  refine Machine.ReachableBy.invariant (I := fun s => ∃ l, Stack s.blocked l) ?_ ?_ h
  · rintro s rfl
    exact ⟨[], IntrusiveList.holds_new, by simp [Blocked.initial],
      by simp [Blocked.initial, Pos.Fits]⟩
  · rintro s a s' ⟨l, hl⟩ hc hs
    exact stack_step hl hc (step_cases hs)

/-- `ktStack` is a well-formed list of the kThreads that wait and that nobody has taken off. -/
structure StackExact (s : State K U) : Prop where
  exact : ∃ l, IntrusiveList.Holds s.blocked.ktStack l ∧ l.Nodup ∧
    ∀ k, k ∈ l ↔ s.blocked.pos k ≠ .out ∧ s.blocked.inserted k = true
  /-- Who is not in `__popMany` is off the stack. -/
  left : ∀ k, s.blocked.pos k = .out → s.blocked.ktStack.onList k = false
  /-- Who is about to insert itself again is off the stack. -/
  insert : ∀ k, s.blocked.pos k = .woken → s.queues.size = 0 → s.blocked.cvFlag k = true →
    s.blocked.ktStack.onList k = false
  /-- Who is about to remove itself is on the stack. -/
  remove : ∀ k, s.blocked.pos k = .woken → s.queues.size ≠ 0 → s.blocked.cvFlag k = false →
    s.blocked.ktStack.onList k = true

/-- **The stack is exact** in every run in which no spurious wake-up hits a kThread whose `cv_flag`
is set. -/
theorem stack_exact (h : (machine K U).ReachableBy FlagClear s) : StackExact s := by
  obtain ⟨l, hl⟩ := stack_reachable h
  have hoff : ∀ k, k ∉ l → s.blocked.ktStack.onList k = false := by
    intro k hk
    rw [← Bool.not_eq_true, hl.holds.onList_iff]
    exact hk
  refine ⟨⟨l, hl.holds, hl.holds.nodup, fun k => ?_⟩, fun k hk => hoff k (hl.out hk),
    fun k hk _ hflag => ?_,
    fun k hk _ hflag => ?_⟩
  · rw [← hl.inserted k]
    exact ⟨fun hk => ⟨fun hout => hl.out hout hk, hk⟩, And.right⟩
  · refine hoff k ?_
    rw [hl.woken hk, hflag]
    simp
  · exact hl.holds.onList_iff.mpr ((hl.woken hk).mpr hflag)

instance (s : State K U) : (a : Action K U) → Decidable (FlagClear s a)
  | .spurious k => inferInstanceAs (Decidable (s.blocked.cvFlag k = false))
  | .push _ | .prepareBulkPush _ | .bulkPush | .bulkZero | .tryPop _ | .tryPopMany _ _
  | .popMany _ _
  | .wake _ _ | .run _ => inferInstanceAs (Decidable True)

/-- kThreads `0` and `1` wait. A spurious wake-up hits kThread `1`, and then a push takes it off the
stack. -/
def oneSpurious : List (Action ℕ ℕ) := [.popMany 0 2, .popMany 1 2, .spurious 1, .push 0]

theorem stack_exact_oneSpurious :
    ∃ s : State ℕ ℕ, (machine ℕ ℕ).ReachableBy FlagClear s ∧ s.blocked.pos 0 = .waiting ∧
      s.blocked.pos 1 = .woken ∧ s.blocked.cvFlag 1 = true ∧ StackExact s := by
  have hinit : (machine ℕ ℕ).ReachableBy FlagClear ⟨.initial, .initial⟩ := .init rfl
  have hr := hinit.get oneSpurious (by decide +kernel)
  exact ⟨_, hr, by decide +kernel, by decide +kernel, by decide +kernel, stack_exact hr⟩

/-! ## The chain of notifications -/

/-- `cv.wait` returns only after a notification. -/
def NoSpurious (_ : State K U) : Action K U → Prop
  | .spurious _ => False
  | _ => True

instance (s : State K U) : (a : Action K U) → Decidable (NoSpurious s a)
  | .spurious _ => inferInstanceAs (Decidable False)
  | .push _ | .prepareBulkPush _ | .bulkPush | .bulkZero | .tryPop _ | .tryPopMany _ _
  | .popMany _ _
  | .wake _ _ | .run _ => inferInstanceAs (Decidable True)

/-- Who is on its way has been notified. -/
def Notified (b : Blocked K) : Prop := ∀ k, b.pos k = .woken → b.cvFlag k = true

/-- With work to do, nobody is on the stack or some kThread is on its way. -/
structure Chained (size : BitVec 32) (b : Blocked K) (l : List K) : Prop where
  stack : Stack b l
  notified : Notified b
  chain : size ≠ 0 → l = [] ∨ ∃ k, b.pos k = .woken

/-- kThread `k`, which was on its way or comes to a position where it is not, moves. -/
theorem Notified.move {b b' : Blocked K} {k : K} {x : Pos} (h : Notified b)
    (hpos : b'.pos = Function.update b.pos k x) (hx : x = .woken → b'.cvFlag k = true)
    (hflag : ∀ k', k' ≠ k → b'.cvFlag k' = b.cvFlag k') : Notified b' := by
  intro k' hk'
  rw [hpos] at hk'
  by_cases hkk : k' = k
  · subst hkk
    rw [Function.update_self] at hk'
    exact hx hk'
  · rw [Function.update_of_ne hkk] at hk'
    rw [hflag k' hkk]
    exact h k' hk'

/-- `__unBlock` leaves nobody on the stack, or a kThread on its way. -/
theorem unBlock_chained {b b' : Blocked K} (h : Stack b l) (hn : Notified b)
    (hb : b.unBlock = some b') (size : BitVec 32) : ∃ l', Chained size b' l' := by
  rcases unBlock_spec h with ⟨hl, hb'⟩ | ⟨l', k, b'', hb', hl', hpos, hflag⟩
  · obtain rfl := Option.some.inj (hb'.symm.trans hb)
    exact ⟨l, h, hn, fun _ => .inl hl⟩
  · obtain rfl := Option.some.inj (hb'.symm.trans hb)
    refine ⟨l', hl', hn.move hpos (fun _ => ?_) (fun k' hkk => ?_), fun _ => .inr ⟨k, ?_⟩⟩
    · rw [hflag, Function.update_self]
    · rw [hflag, Function.update_of_ne hkk]
    · rw [hpos, Function.update_self]

theorem Unblocks.chained {b b' : Blocked K} {size : BitVec 32} (hb : Unblocks size b b')
    (h : Stack b l) (hn : Notified b) : ∃ l', Chained size b' l' := by
  rcases hb with ⟨-, hb⟩ | ⟨hz, rfl⟩
  · exact unBlock_chained h hn hb size
  · exact ⟨l, h, hn, fun hne => absurd hz hne⟩

theorem chained_step (h : Chained s.queues.size s.blocked l) {a : Action K U} (hc : NoSpurious s a)
    (hs : Step s a s') : ∃ l', Chained s'.queues.size s'.blocked l' := by
  obtain ⟨hstack, hn, hchain⟩ := h
  cases hs with
  | push _ _ hb | bulkPush _ _ _ hb => exact unBlock_chained hstack hn hb _
  | prepareBulkPush _ _ hq =>
    obtain ⟨r, -, rfl⟩ := Option.map_eq_some_iff.mp hq
    exact ⟨l, hstack, hn, hchain⟩
  | run hq =>
    obtain ⟨r, -, rfl⟩ := Option.map_eq_some_iff.mp hq
    exact ⟨l, hstack, hn, hchain⟩
  | bulkZero => exact ⟨l, hstack, hn, hchain⟩
  | tryPop hz | tryPopMany _ hz => exact ⟨l, hstack, hn, fun _ => hchain hz⟩
  | enter hk hz hb =>
    obtain ⟨l', b', hb', hl', hpos, hflag⟩ := enter_spec hstack hk
    obtain rfl := Option.some.inj (hb'.symm.trans hb)
    exact ⟨l', hl', hn.move hpos (by simp) hflag, fun hne => absurd hz hne⟩
  | again hk hz hb =>
    obtain ⟨l', b', hb', hl', hpos, hflag⟩ := again_spec hstack hk
    obtain rfl := Option.some.inj (hb'.symm.trans hb)
    exact ⟨l', hl', hn.move hpos (by simp) fun _ _ => by rw [hflag], fun hne => absurd hz hne⟩
  | pass hk _ _ _ hb =>
    exact hb.chained (hstack.goto_out hk) (hn.move rfl (by simp) fun _ _ => rfl)
  | @leave k _ _ b b' hk _ _ hleave _ hb =>
    obtain ⟨l', b'', hb'', hl', hpos, hflag⟩ := leave_spec hstack hk
    obtain rfl := Option.some.inj (hb''.symm.trans hleave)
    refine hb.chained hl' (hn.move (k := k) (x := .out) ?_ (by simp) fun _ _ => ?_)
    · simp [Blocked.goto, hpos]
    · simp [Blocked.goto, hflag]
  | spurious => exact absurd hc id

theorem chained_reachable (h : (machine K U).ReachableBy NoSpurious s) :
    ∃ l, Chained s.queues.size s.blocked l := by
  refine Machine.ReachableBy.invariant (I := fun s => ∃ l, Chained s.queues.size s.blocked l)
    ?_ ?_ h
  · rintro s rfl
    refine ⟨[], ⟨IntrusiveList.holds_new, ?_, ?_⟩, ?_, fun _ => .inl rfl⟩
    · simp [Blocked.initial]
    · simp [Blocked.initial, Pos.Fits]
    · simp [Notified, Blocked.initial]
  · rintro s a s' ⟨l, hl⟩ hc hs
    exact chained_step hl hc (step_cases hs)

/-- **No wake-up is lost.** When `cv.wait` returns only after a notification and there is work,
nobody is on the stack, or some kThread has been notified and has still to get the mutex. -/
theorem no_lost_unblock (h : (machine K U).ReachableBy NoSpurious s) (hsize : s.queues.size ≠ 0) :
    s.blocked.ktStack.empty = true ∨ ∃ k, s.blocked.pos k = .woken ∧ s.blocked.cvFlag k = true := by
  obtain ⟨l, hstack, hn, hchain⟩ := chained_reachable h
  rcases hchain hsize with hl | ⟨k, hk⟩
  · exact .inl (hstack.holds.empty_iff.mpr hl)
  · exact .inr ⟨k, hk, hn k hk⟩

/-- kThreads `0` and `1` wait, and two uThreads are pushed in bulk. -/
def bulkOfTwo : List (Action ℕ ℕ) :=
  [.popMany 0 2, .popMany 1 2, .prepareBulkPush 0, .prepareBulkPush 1, .bulkPush, .bulkZero]

theorem no_lost_unblock_bulkOfTwo :
    ∃ s : State ℕ ℕ, (machine ℕ ℕ).ReachableBy NoSpurious s ∧ s.queues.size = 2 ∧
      s.blocked.ktStack.empty = false ∧
      (s.blocked.ktStack.empty = true ∨ ∃ k, s.blocked.pos k = .woken ∧
        s.blocked.cvFlag k = true) := by
  have hinit : (machine ℕ ℕ).ReachableBy NoSpurious ⟨.initial, .initial⟩ := .init rfl
  have hr := hinit.get bulkOfTwo (by decide +kernel)
  exact ⟨_, hr, by decide +kernel, by decide +kernel, no_lost_unblock hr (by decide +kernel)⟩

end Steps

end UThreads.Scheduler01
