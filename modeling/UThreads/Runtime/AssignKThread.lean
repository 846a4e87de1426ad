import UThreads.Lib.Machine
import Mathlib.Data.Int.CardIntervalMod
import Mathlib.Data.List.Nodup

/-!
# `Cluster::assignkThread`

`assignkThread` takes no lock. It loads `ktLast`, computes the next index from it and from
`ktVector.size()`, and exchanges; the index that it uses is the one that the exchange returns.
Between the load and the exchange any number of other calls may have moved `ktLast`.

* `exchange_assign`: with the exchange as one step, a call is `assign`, for some next index in
  bounds.
* **`index_in_bounds`**: the index is in bounds, also while `addNewkThread` appends to `ktVector`,
  and the modulus is not 0.
* **`assignment_uneven`**: a delayed call sets `ktLast` back, and kThreads are assigned twice in a
  row.
* **`assignment_even`**: when `ktLast` is, at every exchange, what the call has loaded, the
  assignment is round robin.

**Steps.** The load of `ktLast` and the read of the size come in either order. `addNewkThread` is
one step; it holds the mutex of the cluster. `assigned` is bookkeeping: the kThreads in the order of
the exchanges.
-/

namespace UThreads.AssignKThread

/-- A call in one step: the kThread that it returns and the new `ktLast`. The next index was
computed from earlier reads, so it is some index of the vector. -/
def assign {K : Type*} (ktVector : List K) (ktLast next : ℕ) : Option (K × ℕ) :=
  if next < ktVector.length then ktVector[ktLast]?.map fun k => (k, next) else none

theorem assign_spec {K : Type*} {ktVector : List K} {ktLast next last : ℕ} {k : K}
    (h : assign ktVector ktLast next = some (k, last)) :
    k ∈ ktVector ∧ last = next ∧ next < ktVector.length := by
  unfold assign at h
  split_ifs at h with hnext
  obtain ⟨j, hj, he⟩ := Option.map_eq_some_iff.mp h
  simp only [Prod.mk.injEq] at he
  obtain ⟨rfl, rfl⟩ := he
  exact ⟨List.mem_of_getElem? hj, rfl, hnext⟩

/-- Where a call of `assignkThread` is. -/
inductive Call
  | idle
  /-- `(ktLast+1)%(ktVector.size())`, with what has been read -/
  | reading (last size : Option ℕ)
  /-- `return ktVector[kt]` -/
  | index (kt : ℕ)
  deriving DecidableEq

structure State (P K : Type*) where
  ktVector : List K
  ktLast : ℕ
  call : P → Call
  assigned : List (Option K)

inductive Action (P K : Type*)
  /-- `addNewkThread` -/
  | add (k : K)
  | begin (p : P)
  | load (p : P)
  | readSize (p : P)
  | exchange (p : P)
  /-- the access, and the return -/
  | access (p : P)

variable {P K : Type*} [DecidableEq P]

def State.goto (s : State P K) (p : P) (x : Call) : State P K :=
  { s with call := Function.update s.call p x }

def step (s : State P K) : Action P K → Option (State P K)
  | .add k => some { s with ktVector := s.ktVector ++ [k] }
  | .begin p =>
    if s.call p = .idle ∧ s.ktVector.length ≠ 0 then some (s.goto p (.reading none none)) else none
  | .load p =>
    match s.call p with
    | .reading none size => some (s.goto p (.reading (some s.ktLast) size))
    | _ => none
  | .readSize p =>
    match s.call p with
    | .reading last none => some (s.goto p (.reading last (some s.ktVector.length)))
    | _ => none
  | .exchange p =>
    match s.call p with
    | .reading (some last) (some size) => some { s.goto p (.index s.ktLast) with
        ktLast := (last + 1) % size
        assigned := s.assigned ++ [s.ktVector[s.ktLast]?] }
    | _ => none
  | .access p =>
    match s.call p with
    | .index kt => if kt < s.ktVector.length then some (s.goto p .idle) else none
    | _ => none

/-- A new cluster to which the kThreads `ks` have been added. -/
def initial (ks : List K) : State P K := ⟨ks, 0, fun _ => .idle, []⟩

def machine (P : Type*) {K : Type*} [DecidableEq P] (ks : List K) :
    Machine (State P K) (Action P K) where
  init := fun s => s = initial ks
  step := step

variable {s s' : State P K} {p : P} {ks : List K}

/-! ## Bounds -/

/-- What a call has read is in bounds. -/
def Call.InBounds (n : ℕ) : Call → Prop
  | .idle => True
  | .reading _ size => 0 < n ∧ ∀ m ∈ size, 0 < m ∧ m ≤ n
  | .index kt => kt < n

structure Bounded (s : State P K) : Prop where
  last : s.ktLast < s.ktVector.length ∨ s.ktLast = 0
  call : ∀ p, (s.call p).InBounds s.ktVector.length

theorem Call.InBounds.mono {x : Call} {m n : ℕ} (h : x.InBounds m) (hmn : m ≤ n) :
    x.InBounds n := by
  cases x with
  | idle => trivial
  | reading last size =>
    refine ⟨Nat.lt_of_lt_of_le h.1 hmn, fun j hj => ?_⟩
    obtain ⟨hpos, hle⟩ := h.2 j hj
    exact ⟨hpos, Nat.le_trans hle hmn⟩
  | index kt => exact Nat.lt_of_lt_of_le h hmn

theorem Bounded.goto (h : Bounded s) {x : Call} (hx : x.InBounds s.ktVector.length) :
    Bounded (s.goto p x) := by
  refine ⟨h.last, fun q => ?_⟩
  by_cases hq : q = p
  · subst hq
    simpa [State.goto] using hx
  · simpa [State.goto, hq] using h.call q

theorem bounded_step {a : Action P K} (h : Bounded s) (hs : step s a = some s') : Bounded s' := by
  cases a with
  | add k =>
    cases hs
    refine ⟨?_, fun p => (h.call p).mono (by simp)⟩
    rcases h.last with hlast | hlast
    · exact .inl (by simp; omega)
    · exact .inr hlast
  | begin p =>
    simp only [step] at hs
    split_ifs at hs with hp
    cases hs
    exact h.goto ⟨Nat.pos_of_ne_zero hp.2, by simp⟩
  | load p =>
    simp only [step] at hs
    split at hs
    next size hp =>
      cases hs
      have hcall := h.call p
      rw [hp] at hcall
      exact h.goto hcall
    next => cases hs
  | readSize p =>
    simp only [step] at hs
    split at hs
    next last hp =>
      cases hs
      have hcall := h.call p
      rw [hp] at hcall
      exact h.goto ⟨hcall.1, by simpa using hcall.1⟩
    next => cases hs
  | exchange p =>
    simp only [step] at hs
    split at hs
    next last size hp =>
      cases hs
      have hcall := h.call p
      rw [hp] at hcall
      obtain ⟨hne, hsize⟩ := hcall
      obtain ⟨hpos, hle⟩ := hsize size rfl
      have hlast : s.ktLast < s.ktVector.length := by
        rcases h.last with hlast | hlast <;> omega
      have hgoto : Bounded (s.goto p (.index s.ktLast)) := h.goto hlast
      exact ⟨.inl (Nat.lt_of_lt_of_le (Nat.mod_lt _ hpos) hle), hgoto.call⟩
    next => cases hs
  | access p =>
    simp only [step] at hs
    split at hs
    next kt hp =>
      split_ifs at hs
      cases hs
      exact h.goto trivial
    next => cases hs

theorem bounded_reachable (h : (machine P ks).Reachable s) : Bounded s := by
  refine Machine.Reachable.invariant (I := Bounded) ?_ (fun _ _ _ hb hs => bounded_step hb hs) h
  rintro s rfl
  exact ⟨.inr rfl, fun _ => trivial⟩

/-- Whatever the other calls have done since the loads. -/
theorem exchange_assign (h : (machine P ks).Reachable s) (hs : step s (.exchange p) = some s') :
    ∃ k, assign s.ktVector s.ktLast s'.ktLast = some (k, s'.ktLast) ∧
      s'.assigned = s.assigned ++ [some k] := by
  obtain ⟨hlast, hcall⟩ := bounded_reachable h
  have hp := hcall p
  simp only [step] at hs
  split at hs
  next last size hread =>
    cases hs
    rw [hread] at hp
    obtain ⟨hpos, hle⟩ := hp.2 size rfl
    have hnext : (last + 1) % size < s.ktVector.length := Nat.lt_of_lt_of_le (Nat.mod_lt _ hpos) hle
    have hkt : s.ktLast < s.ktVector.length := by omega
    refine ⟨s.ktVector.get ⟨s.ktLast, hkt⟩, ?_, ?_⟩
    · simp [assign, hnext, hkt]
    · simp [hkt]
  next => cases hs

/-- **The index is in bounds**, and the modulus is not 0. -/
theorem index_in_bounds (h : (machine P ks).Reachable s) (p : P) :
    (∀ last size, s.call p = .reading last (some size) → size ≠ 0) ∧
      ∀ kt, s.call p = .index kt → kt < s.ktVector.length := by
  have hcall := (bounded_reachable h).call p
  refine ⟨fun last size hp => ?_, fun kt hp => ?_⟩
  · rw [hp] at hcall
    have hpos := (hcall.2 size rfl).1
    omega
  · rw [hp] at hcall
    exact hcall

/-- Call `false` reads the size, kThread `1` is added, call `true` moves `ktLast` to the new
kThread, and call `false` gets its index. -/
def added : List (Action Bool ℕ) :=
  [.add 0, .begin false, .readSize false, .load false, .add 1, .begin true, .load true,
    .readSize true, .exchange true, .exchange false]

theorem index_in_bounds_added : ∃ s : State Bool ℕ, (machine Bool []).Reachable s ∧
    s.call false = .index 1 ∧ 1 < s.ktVector.length := by
  have hinit : (machine Bool ([] : List ℕ)).Reachable (initial []) := .of_init rfl
  have hr := hinit.get added (by decide +kernel)
  exact ⟨_, hr, by decide +kernel, (index_in_bounds hr false).2 1 (by decide +kernel)⟩

/-! ## Round robin -/

/-- kThread `k` is assigned `n` times. -/
def State.times [DecidableEq K] (s : State P K) (k : K) : ℕ := s.assigned.count (some k)

/-- Calls `false` and `true` load the same `ktLast`. When both have exchanged, call `false` is made
once more. -/
def delayed : List (Action Bool ℕ) :=
  [.begin false, .load false, .readSize false, .begin true, .load true, .readSize true,
    .exchange false, .exchange true, .access false, .access true, .begin false, .load false,
    .readSize false, .exchange false, .access false]

/-- **kThread `1` is assigned twice in a row**, and in the long run twice as often as kThread
`0`. -/
theorem assignment_uneven : ∃ s : State Bool ℕ, (machine Bool [0, 1]).Reachable s ∧
    s.assigned = [some 0, some 1, some 1, some 0, some 1, some 1] ∧ s.times 1 = s.times 0 + 2 := by
  have hinit : (machine Bool [0, 1]).Reachable (initial [0, 1]) := .of_init rfl
  exact ⟨_, hinit.get (delayed ++ delayed) (by decide +kernel), by decide +kernel,
    by decide +kernel⟩

/-- The number of kThreads does not change, and `ktLast` is, at an exchange, what the call has
loaded. -/
def Undelayed (s : State P K) : Action P K → Prop
  | .add _ => False
  | .exchange p =>
    match s.call p with
    | .reading (some last) _ => last = s.ktLast
    | _ => True
  | .begin _ | .load _ | .readSize _ | .access _ => True

instance (s : State P K) : (a : Action P K) → Decidable (Undelayed s a)
  | .add _ => inferInstanceAs (Decidable False)
  | .exchange p =>
    match h : s.call p with
    | .reading (some last) size => decidable_of_iff (last = s.ktLast) (by simp [Undelayed, h])
    | .reading none size => isTrue (by simp [Undelayed, h])
    | .idle => isTrue (by simp [Undelayed, h])
    | .index kt => isTrue (by simp [Undelayed, h])
  | .begin _ | .load _ | .readSize _ | .access _ => inferInstanceAs (Decidable True)

/-- The exchanges so far were one round after the other. -/
structure RoundRobin (ks : List K) (s : State P K) : Prop where
  ktVector : s.ktVector = ks
  last : s.ktLast = s.assigned.length % ks.length
  assigned : s.assigned = (List.range s.assigned.length).map fun i => ks[i % ks.length]?
  size : ∀ p last size, s.call p = .reading last (some size) → size = ks.length

theorem RoundRobin.goto (h : RoundRobin ks s) {x : Call}
    (hx : ∀ last size, x = .reading last (some size) → size = ks.length) :
    RoundRobin ks (s.goto p x) := by
  refine { h with size := fun q last size hq => ?_ }
  by_cases hqp : q = p
  · subst hqp
    exact hx last size (by simpa [State.goto] using hq)
  · exact h.size q last size (by simpa [State.goto, hqp] using hq)

theorem roundRobin_exchange (h : RoundRobin ks s) :
    RoundRobin ks { s.goto p (.index s.ktLast) with
      ktLast := (s.ktLast + 1) % ks.length
      assigned := s.assigned ++ [s.ktVector[s.ktLast]?] } := by
  have hgoto : RoundRobin ks (s.goto p (.index s.ktLast)) := h.goto (by simp)
  refine ⟨h.ktVector, ?_, ?_, hgoto.size⟩
  · show (s.ktLast + 1) % ks.length = (s.assigned ++ [s.ktVector[s.ktLast]?]).length % ks.length
    rw [h.last, List.length_append, List.length_singleton, Nat.mod_add_mod]
  · show s.assigned ++ [s.ktVector[s.ktLast]?] = _
    rw [List.length_append, List.length_singleton, List.range_succ, List.map_append, ← h.assigned,
      h.ktVector, h.last]
    rfl

theorem roundRobin_step {a : Action P K} (h : RoundRobin ks s) (ha : Undelayed s a)
    (hs : step s a = some s') : RoundRobin ks s' := by
  cases a with
  | add k => exact ha.elim
  | begin p =>
    simp only [step] at hs
    split_ifs at hs
    cases hs
    exact h.goto (by simp)
  | load p =>
    simp only [step] at hs
    split at hs
    next size hp =>
      cases hs
      apply h.goto
      rintro last n ⟨⟩
      exact h.size p none n hp
    next => cases hs
  | readSize p =>
    simp only [step] at hs
    split at hs
    next last hp =>
      cases hs
      apply h.goto
      rintro last n ⟨⟩
      rw [h.ktVector]
    next => cases hs
  | exchange p =>
    simp only [step] at hs
    split at hs
    next last size hp =>
      cases hs
      obtain rfl : last = s.ktLast := by simpa [Undelayed, hp] using ha
      rw [h.size p _ _ hp]
      exact roundRobin_exchange h
    next => cases hs
  | access p =>
    simp only [step] at hs
    split at hs
    next kt hp =>
      split_ifs at hs
      cases hs
      exact h.goto (by simp)
    next => cases hs

theorem roundRobin_reachable (h : (machine P ks).ReachableBy Undelayed s) : RoundRobin ks s := by
  refine Machine.ReachableBy.invariant (I := RoundRobin ks) ?_
    (fun _ _ _ hr ha hs => roundRobin_step hr ha hs) h
  rintro s rfl
  exact ⟨rfl, by simp [initial], rfl, by simp [initial]⟩

/-- Two of `m` numbers in a row are not equal modulo `m`. -/
theorem eq_of_mod_eq {i m a b : ℕ} (ha : i ≤ a ∧ a < i + m) (hb : i ≤ b ∧ b < i + m)
    (h : a % m = b % m) : a = b := by
  wlog hab : a ≤ b with hsymm
  · exact (hsymm hb ha h.symm (by omega)).symm
  · have hzero : (b - a) % m = 0 := Nat.sub_mod_eq_zero_of_mod_eq h.symm
    rw [Nat.mod_eq_of_lt (by omega)] at hzero
    omega

omit [DecidableEq P] in
theorem RoundRobin.nodup (h : RoundRobin ks s) (hks : ks.Nodup) (i : ℕ) :
    ((s.assigned.drop i).take ks.length).Nodup := by
  rw [h.assigned, ← List.map_drop, ← List.map_take]
  have hwindow : ∀ a ∈ ((List.range s.assigned.length).drop i).take ks.length,
      i ≤ a ∧ a < i + ks.length := by
    intro a ha
    obtain ⟨j, hj, rfl⟩ := List.mem_iff_getElem.mp ha
    simp only [List.length_take] at hj
    simp only [List.getElem_take, List.getElem_drop, List.getElem_range]
    omega
  refine List.Nodup.map_on (fun a ha b hb hab => ?_) ?_
  · obtain ⟨hia, hai⟩ := hwindow a ha
    have hlt : a % ks.length < ks.length := Nat.mod_lt _ (by omega)
    exact eq_of_mod_eq ⟨hia, hai⟩ (hwindow b hb) ((List.getElem?_inj hlt hks).mp hab)
  · exact List.nodup_range.sublist ((List.take_sublist ..).trans (List.drop_sublist ..))

theorem count_rounds [DecidableEq K] (hks : ks.Nodup) {r : ℕ} (hr : r < ks.length) (n : ℕ) :
    ((List.range n).map fun i => ks[i % ks.length]?).count (some ks[r]) =
      n.count (· ≡ r [MOD ks.length]) := by
  induction n with
  | zero => simp
  | succ n ih =>
    have hhit : ks[n % ks.length]? = some ks[r] ↔ n ≡ r [MOD ks.length] := by
      rw [← List.getElem?_eq_getElem hr, List.getElem?_inj (Nat.mod_lt _ (by omega)) hks,
        Nat.ModEq, Nat.mod_eq_of_lt hr]
    rw [List.range_succ, List.map_append, List.count_append, ih, Nat.count_succ]
    simp [List.count_singleton, hhit]

omit [DecidableEq P] in
theorem RoundRobin.times [DecidableEq K] (h : RoundRobin ks s) (hks : ks.Nodup) {k : K}
    (hk : k ∈ ks) :
    ∃ r, s.times k = s.assigned.length / ks.length +
      if r < s.assigned.length % ks.length then 1 else 0 := by
  obtain ⟨r, hr, rfl⟩ := List.mem_iff_getElem.mp hk
  refine ⟨r % ks.length, ?_⟩
  rw [State.times, h.assigned, count_rounds hks hr, Nat.count_modEq_card _ (by omega),
    List.length_map, List.length_range]

/-- **Round robin.** Any `ks.length` assignments in a row are to distinct kThreads, and no kThread
is assigned more often than another one by more than one. -/
theorem assignment_even [DecidableEq K] (hks : ks.Nodup)
    (h : (machine P ks).ReachableBy Undelayed s) :
    (∀ i, ((s.assigned.drop i).take ks.length).Nodup) ∧ ∀ j ∈ ks, ∀ k ∈ ks,
    s.times j ≤ s.times k + 1 := by
  have hr := roundRobin_reachable h
  refine ⟨hr.nodup hks, fun j hj k hk => ?_⟩
  obtain ⟨a, ha⟩ := hr.times hks hj
  obtain ⟨b, hb⟩ := hr.times hks hk
  rw [ha, hb]
  split_ifs <;> omega

/-- Call `true` loads `ktLast` after the exchange of call `false`. -/
def turns : List (Action Bool ℕ) :=
  [.begin false, .begin true, .readSize true, .load false, .readSize false, .exchange false,
    .load true, .exchange true,
    .access false, .access true, .begin false, .load false, .readSize false, .exchange false]

theorem assignment_even_turns : ∃ s : State Bool ℕ, (machine Bool [0, 1]).ReachableBy Undelayed s ∧
    s.assigned = [some 0, some 1, some 0] ∧ (∀ i, ((s.assigned.drop i).take 2).Nodup) ∧
    s.times 0 ≤ s.times 1 + 1 := by
  have hinit : (machine Bool [0, 1]).ReachableBy Undelayed (initial [0, 1]) := .init rfl
  have hr := hinit.get turns (by decide +kernel)
  obtain ⟨hnodup, htimes⟩ := assignment_even (by decide) hr
  exact ⟨_, hr, by decide +kernel, hnodup, htimes 0 (by decide) 1 (by decide)⟩

end UThreads.AssignKThread
