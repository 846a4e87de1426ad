import UThreads.Runtime.UThreadCache
import Mathlib.Order.Interval.Finset.Nat

/-!
# `uThreadCache`: population and stacks

**Invariant.** `Inv size s l`: the cache holds the uThreads `l`, each of them reset, and every
object is live, cached or freed. Each function has one lemma (`inv_create`, `inv_destory`,
`inv_newMainUT`); `reachable_inv` is the invariant over whole runs.

**Counting.** There are fewer than `2 ^ 64` addresses (`population_lt`), so the counter never wraps
(`population_exact`).

**Stacks.** `create` does not look at the size of the stack that it takes from the cache
(`create_recycles_small_stack`). The stacks fit in runs that never ask for more than before
(`Fitting`, `create_stack`).
-/

namespace UThreads.UThreadCache

variable {K C : Type*} {size : ℕ} {s s' : State K C} {l : List Addr} {u v : Addr}

/-! ## The invariant -/

/-- The uThreads that `totalNumberofUTs` counts. -/
def State.population (s : State K C) : Set Addr := {u | s.live u = true ∧ s.main u = false}

/-- The cache holds `l`. -/
structure Inv (size : ℕ) (s : State K C) (l : List Addr) : Prop where
  holds : s.stack.Holds s.next l
  count : s.count = l.length
  le : l.length ≤ size
  reset : ∀ u ∈ l, (s.ut u).reset = s.ut u
  cached : ∀ u ∈ l, s.live u = false ∧ s.freed u = false
  freed : ∀ u, s.freed u = true → s.live u = false
  main : ∀ u, s.main u = true → s.live u = true
  made : ∀ u, s.made u = true ↔ s.live u = true ∨ u ∈ l ∨ s.freed u = true
  total : s.totalNumberofUTs = BitVec.ofNat 64 s.population.ncard
  recent : l.Pairwise fun u v => s.pushedAt v < s.pushedAt u
  clock : ∀ u ∈ l, s.pushedAt u < s.clock

theorem Inv.cached_eq (h : Inv size s l) : s.cached = l := by
  rw [State.cached, h.holds.segment.walk_eq, h.count, List.take_length]

theorem Inv.fresh (h : Inv size s l) (hu : s.fresh u = true) : s.live u = false ∧ u ∉ l := by
  simpa [State.fresh, h.cached_eq] using hu

/-! ## Counting -/

theorem ofNat_succ (n : ℕ) : BitVec.ofNat 64 n + 1 = BitVec.ofNat 64 (n + 1) := by
  rw [BitVec.ofNat_add]
  rfl

theorem population_lt (A : Set Addr) : A.ncard < 2 ^ 64 := by
  have himage : (Set.image (fun u : Addr => u.1.toNat) A).ncard = A.ncard := by
    refine Set.ncard_image_of_injective A fun u v he => ?_
    exact Subtype.ext (BitVec.eq_of_toNat_eq he)
  have hsub : Set.image (fun u : Addr => u.1.toNat) A ⊆ (Finset.Ico 1 (2 ^ 64) : Finset ℕ) := by
    rintro n ⟨u, -, rfl⟩
    have hne : u.1.toNat ≠ 0 := fun h0 => u.2 (BitVec.eq_of_toNat_eq (by simpa using h0))
    have hlt := u.1.isLt
    simp only [Finset.coe_Ico, Set.mem_Ico]
    omega
  have hle := Set.ncard_le_ncard hsub (Finset.finite_toSet _)
  rw [himage, Set.ncard_coe_finset, Nat.card_Ico] at hle
  omega

theorem population_finite (A : Set Addr) : A.Finite :=
  have : Finite (BitVec 64) := Finite.of_injective BitVec.toFin fun _ _ => BitVec.eq_of_toFin_eq
  Set.toFinite A

/-- One uThread more. -/
theorem total_insert {A : Set Addr} (hu : u ∉ A) :
    BitVec.ofNat 64 A.ncard + 1 = BitVec.ofNat 64 (insert u A).ncard := by
  rw [Set.ncard_insert_of_notMem hu (population_finite A), ofNat_succ]

/-- One uThread less. -/
theorem total_remove {A : Set Addr} (hu : u ∈ A) :
    BitVec.ofNat 64 A.ncard - 1 = BitVec.ofNat 64 (A \ {u}).ncard := by
  have hcard := Set.ncard_sdiff_singleton_add_one hu (population_finite A)
  rw [← hcard, ← ofNat_succ, BitVec.add_sub_cancel]

/-! ## Steps -/

/-- The record and the link of an object that is not in the cache change. -/
theorem Inv.touch (h : Inv size s l) (hu : u ∉ l) (x : UThread K C) (link : Option Addr) :
    Inv size { s with
      ut := Function.update s.ut u x
      next := Function.update s.next u link } l :=
  { h with
    holds := ⟨h.holds.segment.update hu, h.holds.nodup⟩
    reset := fun v hv => by
      have hne : v ≠ u := fun he => hu (he ▸ hv)
      simp only [Function.update_of_ne hne]
      exact h.reset v hv }

theorem inv_setJoinable (h : Inv size s l) (hu : u ∉ l) (joinable : Bool) :
    Inv size (s.setJoinable u joinable) l := by
  unfold State.setJoinable
  split_ifs
  · have htouch := h.touch hu { s.ut u with jState := .joinable } (s.next u)
    rwa [Function.update_eq_self] at htouch
  · exact h

theorem inv_construct (h : Inv size s l) (hlive : s.live u = false) (hu : u ∉ l)
    (x : UThread K C) : Inv size (s.construct u x) l where
  holds := ⟨h.holds.segment.update hu, h.holds.nodup⟩
  count := h.count
  le := h.le
  reset := (h.touch hu x none).reset
  cached := fun v hv => by
    have hne : v ≠ u := fun he => hu (he ▸ hv)
    simpa [State.construct, Function.update_of_ne hne] using h.cached v hv
  freed := fun v hv => by
    by_cases hne : v = u
    · simp [State.construct, hne] at hv
    · simp only [State.construct, Function.update_of_ne hne] at hv ⊢
      exact h.freed v hv
  main := fun v hv => by
    by_cases hne : v = u
    · simp [State.construct, hne] at hv
    · simp only [State.construct, Function.update_of_ne hne] at hv ⊢
      exact h.main v hv
  made := fun v => by
    by_cases hne : v = u
    · simp [State.construct, hne]
    · simp only [State.construct, Function.update_of_ne hne]
      exact h.made v
  total := by
    have hpop : (s.construct u x).population = insert u s.population := by
      ext v
      by_cases hne : v = u <;> simp [State.population, State.construct, hne]
    have hout : u ∉ s.population := by simp [State.population, hlive]
    rw [hpop, ← total_insert hout, ← h.total]
    rfl
  recent := h.recent
  clock := h.clock

/-- The state after `create` has popped `v` from the cache. -/
def State.reuse (s : State K C) (v : Addr) : State K C :=
  { s with
    count := s.count - 1
    next := Function.update s.next v none
    stack := ⟨s.next v⟩
    totalNumberofUTs := s.totalNumberofUTs + 1
    live := Function.update s.live v true }

/-- `create` takes the uThread on top of the cache, or makes one in memory that is not in use. -/
theorem create_cases {ss mem : BitVec 64} {joinable lock : Bool} {w : Addr} (h : Inv size s l)
    (hc : create ss joinable lock u mem s = some (w, s')) :
    (∃ l', l = w :: l' ∧
      s' = ({ s with asked := ss :: s.asked }.reuse w).setJoinable w joinable) ∨
    s.fresh u = true ∧ mem ≠ 0 ∧ mem ∉ s.blocks ∧ w = u ∧
      s' = ({ s with asked := ss :: s.asked, blocks := mem :: s.blocks }.construct u
        (newUT mem ss)).setJoinable u joinable := by
  by_cases hmiss : lock = false ∨ s.count = 0
  · simp only [create, pop, if_pos hmiss] at hc
    split_ifs at hc with hfresh
    cases hc
    exact .inr ⟨hfresh.1, hfresh.2.1, hfresh.2.2, rfl, rfl⟩
  · have hcount : l.length ≠ 0 := fun h0 => hmiss (.inr (h.count.trans h0))
    cases l with
    | nil => exact absurd rfl hcount
    | cons v l =>
      have hpop := (IntrusiveStack.pop_spec h.holds).1
      simp only [create, pop, if_neg hmiss, hpop, Option.map_some, Option.some.injEq,
        Prod.mk.injEq] at hc
      obtain ⟨rfl, rfl⟩ := hc
      exact .inl ⟨l, rfl, rfl⟩

theorem inv_reuse (h : Inv size s (v :: l)) : Inv size (s.reuse v) l := by
  obtain ⟨hvl, hnodup⟩ := List.nodup_cons.mp h.holds.nodup
  obtain ⟨hlive, hfreed⟩ := h.cached v (by simp)
  have hmain : s.main v = false := by
    by_contra hm
    rw [Bool.not_eq_false] at hm
    rw [h.main v hm] at hlive
    exact absurd hlive (by simp)
  have hne : ∀ u ∈ l, u ≠ v := fun u hu he => hvl (he ▸ hu)
  refine ⟨(IntrusiveStack.pop_spec h.holds).2, ?_, ?_, fun u hu => h.reset u (by simp [hu]),
    fun u hu => ?_, fun u hu => ?_, fun u hu => ?_, fun u => ?_, ?_, ?_,
    fun u hu => h.clock u (by simp [hu])⟩
  · simp [State.reuse, h.count]
  · have hle := h.le
    rw [List.length_cons] at hle
    omega
  · simpa [State.reuse, Function.update_of_ne (hne u hu)] using h.cached u (by simp [hu])
  · have hnv : u ≠ v := by
      rintro rfl
      change s.freed u = true at hu
      rw [hfreed] at hu
      exact absurd hu (by simp)
    simpa [State.reuse, Function.update_of_ne hnv] using h.freed u hu
  · by_cases hnv : u = v
    · simp [State.reuse, hnv]
    · simpa [State.reuse, Function.update_of_ne hnv] using h.main u hu
  · by_cases hnv : u = v
    · subst hnv
      simp [State.reuse, h.made u]
    · simp [State.reuse, h.made u, hnv]
  · have hpop : (s.reuse v).population = insert v s.population := by
      ext u
      by_cases hnv : u = v <;> simp [State.population, State.reuse, hnv, hmain]
    have hout : v ∉ s.population := by simp [State.population, hlive]
    rw [hpop, ← total_insert hout, ← h.total]
    rfl
  · exact (List.pairwise_cons.mp h.recent).2

/-- The uThread `u` is about to leave the live ones. -/
def State.leave (s : State K C) (u : Addr) : State K C :=
  { s with
    totalNumberofUTs := s.totalNumberofUTs - 1
    live := Function.update s.live u false }

theorem Inv.total_leave (h : Inv size s l) (hu : u ∈ s.population) :
    (s.leave u).totalNumberofUTs = BitVec.ofNat 64 (s.leave u).population.ncard := by
  have hpop : (s.leave u).population = s.population \ {u} := by
    ext v
    by_cases hne : v = u <;> simp [State.population, State.leave, hne]
  rw [hpop, ← total_remove hu, ← h.total]
  rfl

theorem Inv.notMem_of_live (h : Inv size s l) (hu : s.live u = true) : u ∉ l := by
  intro hl
  rw [(h.cached u hl).1] at hu
  exact absurd hu (by simp)

theorem Inv.not_freed_of_live (h : Inv size s l) (hu : s.live u = true) : s.freed u = false := by
  by_contra hf
  rw [h.freed u (by simpa using hf)] at hu
  exact absurd hu (by simp)

/-- The state after `destory` has pushed `u` to the cache. -/
def State.keep (s : State K C) (u : Addr) : State K C :=
  { s.leave u with
    ut := Function.update s.ut u (s.ut u).reset
    next := (s.stack.push s.next u).1
    stack := (s.stack.push s.next u).2
    count := s.count + 1
    pushedAt := Function.update s.pushedAt u s.clock
    clock := s.clock + 1 }

/-- `destory` keeps the uThread in the cache, if there is room, or frees it. -/
theorem destory_cases (size : ℕ) (force lock : Bool) (u : Addr) (s : State K C) :
    s.count ≠ size ∧ destory size force lock u s = s.keep u ∨
      destory size force lock u s = (s.leave u).free u := by
  by_cases hforce : force = true
  · exact .inr (by simp [destory, hforce, State.leave])
  · by_cases hfull : lock = false ∨ s.count = size
    · exact .inr (by simp [destory, push, hforce, hfull, State.leave])
    · exact .inl ⟨fun he => hfull (.inr he),
        by simp [destory, push, hforce, hfull, State.keep, State.leave]⟩

theorem inv_keep (h : Inv size s l) (hu : u ∈ s.population) (hroom : s.count ≠ size) :
    Inv size (s.keep u) (u :: l) := by
  obtain ⟨hlive, hmain⟩ := hu
  have hl : u ∉ l := h.notMem_of_live hlive
  have hne : ∀ v ∈ l, v ≠ u := fun v hv he => hl (he ▸ hv)
  refine ⟨IntrusiveStack.push_spec h.holds hl, ?_, ?_, fun v hv => ?_, fun v hv => ?_,
    fun v hv => ?_, fun v hv => ?_, fun v => ?_, h.total_leave ⟨hlive, hmain⟩, ?_, fun v hv => ?_⟩
  · simp [State.keep, h.count]
  · have hle := h.le
    have hcount := h.count
    rw [List.length_cons]
    omega
  · rcases List.mem_cons.mp hv with rfl | hv
    · simp [State.keep, UThread.reset]
    · simpa [State.keep, Function.update_of_ne (hne v hv)] using h.reset v hv
  · rcases List.mem_cons.mp hv with rfl | hv
    · simpa [State.keep, State.leave] using h.not_freed_of_live hlive
    · simpa [State.keep, State.leave, Function.update_of_ne (hne v hv)] using h.cached v hv
  · have hnv : v ≠ u := by
      rintro rfl
      have hfreed := h.not_freed_of_live hlive
      simp only [State.keep, State.leave] at hv
      rw [hfreed] at hv
      exact absurd hv (by simp)
    simpa [State.keep, State.leave, Function.update_of_ne hnv] using h.freed v hv
  · have hnv : v ≠ u := by
      rintro rfl
      simp only [State.keep, State.leave] at hv
      rw [hmain] at hv
      exact absurd hv (by simp)
    simpa [State.keep, State.leave, Function.update_of_ne hnv] using h.main v hv
  · by_cases hnv : v = u
    · simp [State.keep, State.leave, hnv, h.made u, hlive]
    · simp [State.keep, State.leave, hnv, h.made v]
  · refine List.pairwise_cons.mpr ⟨fun v hv => ?_, h.recent.imp_of_mem fun {v w} hv hw hlt => ?_⟩
    · simpa [State.keep, Function.update_of_ne (hne v hv)] using h.clock v hv
    · simpa [State.keep, Function.update_of_ne (hne v hv), Function.update_of_ne (hne w hw)]
        using hlt
  · rcases List.mem_cons.mp hv with rfl | hv
    · simp [State.keep]
    · have hlt := h.clock v hv
      simp only [State.keep, Function.update_of_ne (hne v hv)]
      omega

theorem inv_free (h : Inv size s l) (hu : u ∈ s.population) : Inv size ((s.leave u).free u) l := by
  obtain ⟨hlive, hmain⟩ := hu
  have hl : u ∉ l := h.notMem_of_live hlive
  have hne : ∀ v ∈ l, v ≠ u := fun v hv he => hl (he ▸ hv)
  refine ⟨h.holds, h.count, h.le, h.reset, fun v hv => ?_, fun v hv => ?_, fun v hv => ?_,
    fun v => ?_, h.total_leave ⟨hlive, hmain⟩, h.recent, h.clock⟩
  · simpa [State.leave, State.free, Function.update_of_ne (hne v hv)] using h.cached v hv
  · by_cases hnv : v = u
    · simp [State.leave, State.free, hnv]
    · simp only [State.leave, State.free, Function.update_of_ne hnv] at hv ⊢
      exact h.freed v hv
  · have hnv : v ≠ u := by
      rintro rfl
      simp only [State.leave, State.free] at hv
      rw [hmain] at hv
      exact absurd hv (by simp)
    simpa [State.leave, State.free, Function.update_of_ne hnv] using h.main v hv
  · by_cases hnv : v = u
    · simp [State.leave, State.free, hnv, h.made u, hlive]
    · simp [State.leave, State.free, hnv, h.made v]

theorem inv_destory (h : Inv size s l) (hu : u ∈ s.population) (force lock : Bool) :
    ∃ l', Inv size (destory size force lock u s) l' := by
  rcases destory_cases size force lock u s with ⟨hroom, he⟩ | he
  · exact ⟨u :: l, he ▸ inv_keep h hu hroom⟩
  · exact ⟨l, he ▸ inv_free h hu⟩

/-- `initializeMainUT`: the constructor counts the uThread, and then it is not counted. -/
theorem inv_newMainUT (h : Inv size s l) (hu : s.fresh u = true) (c : C) :
    Inv size (newMainUT u c s) l := by
  obtain ⟨hlive, hl⟩ := h.fresh hu
  have hx := inv_construct h hlive hl
    { (newUT 0 0 : UThread K C) with state := .running, currentCluster := some c }
  have hin : u ∈ (s.construct u { (newUT 0 0 : UThread K C) with
      state := .running, currentCluster := some c }).population := by
    simp [State.population, State.construct]
  refine { hx with main := fun v hv => ?_, total := ?_ }
  · by_cases hnv : v = u
    · simp [newMainUT, State.construct, hnv]
    · refine hx.main v ?_
      simpa [newMainUT, Function.update_of_ne hnv] using hv
  · have hpop : (newMainUT u c s).population = (s.construct u { (newUT 0 0 : UThread K C) with
        state := .running, currentCluster := some c }).population \ {u} := by
      ext v
      by_cases hne : v = u <;> simp [State.population, newMainUT, hne]
    rw [hpop, ← total_remove hin, ← hx.total]
    rfl

theorem Inv.note (h : Inv size s l) (asked blocks : List (BitVec 64)) :
    Inv size { s with asked := asked, blocks := blocks } l :=
  { h with }

theorem inv_create {ss mem : BitVec 64} {joinable lock : Bool} {w : Addr} (h : Inv size s l)
    (hc : create ss joinable lock u mem s = some (w, s')) : ∃ l', Inv size s' l' := by
  rcases create_cases h hc with ⟨l', rfl, rfl⟩ | ⟨hfresh, -, -, -, rfl⟩
  · have hreuse := inv_reuse (h.note (ss :: s.asked) s.blocks)
    have hw : w ∉ l' := (List.nodup_cons.mp h.holds.nodup).1
    exact ⟨l', inv_setJoinable hreuse hw joinable⟩
  · obtain ⟨hlive, hu⟩ := h.fresh hfresh
    have hnew := inv_construct (h.note (ss :: s.asked) (mem :: s.blocks)) hlive hu (newUT mem ss)
    exact ⟨l, inv_setJoinable hnew hu joinable⟩

theorem inv_step {a : Action K C} (h : Inv size s l) (hs : step size s a = some s') :
    ∃ l', Inv size s' l' := by
  cases a with
  | create ss joinable lock u mem =>
    obtain ⟨⟨w, s₁⟩, hc, rfl⟩ := Option.map_eq_some_iff.mp hs
    exact inv_create h hc
  | destory u force lock =>
    simp only [step] at hs
    split_ifs at hs with hu
    cases hs
    exact inv_destory h hu force lock
  | startkThread u c =>
    simp only [step] at hs
    split_ifs at hs with hu
    cases hs
    exact ⟨l, inv_newMainUT h hu c⟩
  | use u x link =>
    simp only [step] at hs
    split_ifs at hs with hu
    cases hs
    exact ⟨l, h.touch (h.notMem_of_live hu) _ link⟩

theorem inv_initial {mainUT initUT : Addr} (hne : mainUT ≠ initUT) (mem : BitVec 64) (k : K)
    (c : C) : Inv size (initial mainUT initUT mem k c) [] := by
  refine ⟨IntrusiveStack.holds_new, rfl, Nat.zero_le _, by simp, by simp, by simp [initial],
    fun u hu => ?_, by simp [initial], ?_, .nil, by simp⟩
  · simp only [initial, decide_eq_true_eq] at hu ⊢
    exact .inl hu
  · have hpop : (initial mainUT initUT mem k c).population = {initUT} := by
      ext u
      by_cases hu : u = mainUT
      · simp [State.population, initial, hu, hne]
      · simp [State.population, initial, hu]
    rw [hpop, Set.ncard_singleton]
    rfl

theorem reachable_inv (h : (machine K C size).Reachable s) : ∃ l, Inv size s l := by
  refine h.invariant (I := fun s => ∃ l, Inv size s l) ?_ ?_
  · rintro s ⟨mainUT, initUT, mem, k, c, hne, -, rfl⟩
    exact ⟨[], inv_initial hne mem k c⟩
  · rintro s a s' ⟨l, hl⟩ hs
    exact inv_step hl hs

/-! ## Accounting -/

/-- The cache gives out its top element, if it can be locked and is not empty. -/
theorem Inv.pop_eq (h : Inv size s l) (lock : Bool) :
    (pop lock s).map Prod.fst = some (if lock then l.head? else none) := by
  cases lock with
  | false => simp [pop]
  | true =>
    cases l with
    | nil => simp [pop, h.count]
    | cons v l => simp [pop, h.count, (IntrusiveStack.pop_spec h.holds).1]

/-- **The accounting of uThreads is exact.** Every object is live, cached or freed, and only one of
these; the cache counts its elements, which are reset and at most `size`; `pop` gives out the
element pushed last; `totalNumberofUTs` is the number of live uThreads that are not the `mainUT` of
a kThread. -/
theorem population_exact (h : (machine K C size).Reachable s) :
    (∀ u, s.made u = true →
      s.live u = true ∧ u ∉ s.cached ∧ s.freed u = false ∨
      s.live u = false ∧ u ∈ s.cached ∧ s.freed u = false ∨
      s.live u = false ∧ u ∉ s.cached ∧ s.freed u = true) ∧
    (s.stack.Holds s.next s.cached ∧ s.count = s.cached.length ∧ s.count ≤ size) ∧
    (∀ u ∈ s.cached, (s.ut u).state = .initialized ∧ (s.ut u).jState = .detached ∧
      (s.ut u).currentCluster = none ∧ (s.ut u).homekThread = none) ∧
    (∀ lock, ∃ r s', pop lock s = some (r, s') ∧
      (r = none ↔ lock = false ∨ s.cached = []) ∧
      ∀ u, r = some u → u ∈ s.cached ∧ ∀ v ∈ s.cached, v ≠ u → s.pushedAt v < s.pushedAt u) ∧
    s.totalNumberofUTs.toNat = {u | s.live u = true ∧ s.main u = false}.ncard := by
  obtain ⟨l, hl⟩ := reachable_inv h
  rw [hl.cached_eq]
  refine ⟨fun u hu => ?_, ⟨hl.holds, hl.count, hl.count ▸ hl.le⟩, fun u hu => ?_,
    fun lock => ?_, ?_⟩
  · rcases (hl.made u).mp hu with hlive | hcached | hfreed
    · exact .inl ⟨hlive, hl.notMem_of_live hlive, hl.not_freed_of_live hlive⟩
    · obtain ⟨hlive, hfreed⟩ := hl.cached u hcached
      exact .inr (.inl ⟨hlive, hcached, hfreed⟩)
    · refine .inr (.inr ⟨hl.freed u hfreed, fun hcached => ?_, hfreed⟩)
      rw [(hl.cached u hcached).2] at hfreed
      exact absurd hfreed (by simp)
  · rw [← hl.reset u hu]
    exact ⟨rfl, rfl, rfl, rfl⟩
  · obtain ⟨⟨r, s'⟩, hpop, hr⟩ := Option.map_eq_some_iff.mp (hl.pop_eq lock)
    simp only at hr
    subst hr
    refine ⟨_, s', hpop, ?_, fun u hu => ?_⟩
    · cases lock <;> simp
    · cases lock with
      | false => simp at hu
      | true =>
        cases l with
        | nil => simp at hu
        | cons w l =>
          simp only [if_true, List.head?_cons, Option.some.injEq] at hu
          subst hu
          refine ⟨by simp, fun v hv hne => ?_⟩
          have hvl : v ∈ l := (List.mem_cons.mp hv).resolve_left hne
          exact (List.pairwise_cons.mp hl.recent).1 v hvl
  · rw [hl.total, BitVec.toNat_ofNat, Nat.mod_eq_of_lt (population_lt _)]
    rfl

/-- The first state, with the two objects of the default kThread at 1 and 2. -/
def start : State Unit Unit := initial ⟨1, by decide⟩ ⟨2, by decide⟩ 64 () ()

theorem start_init (size : ℕ) : (machine Unit Unit size).init start :=
  ⟨_, _, _, _, _, by decide, by decide, rfl⟩

/-- A uThread is created and terminates; it goes into the cache. -/
def recycleRun : List (Action Unit Unit) :=
  [.create 4096 false true ⟨3, by decide⟩ 128, .destory ⟨3, by decide⟩ false true]

theorem population_exact_recycled :
    ∃ s : State Unit Unit, (machine Unit Unit 1).Reachable s ∧ s.cached ≠ [] ∧ s.count ≤ 1 ∧
      s.totalNumberofUTs = 1 ∧ {u | s.live u = true ∧ s.main u = false}.ncard = 1 := by
  have h0 : (machine Unit Unit 1).Reachable start := .of_init (start_init 1)
  have hrun := h0.get recycleRun (by decide +kernel)
  have hcached : (((machine Unit Unit 1).run start recycleRun).get (by decide +kernel)).cached ≠
      [] := by
    decide +kernel
  have htotal : (((machine Unit Unit 1).run start recycleRun).get
      (by decide +kernel)).totalNumberofUTs = 1 := by decide +kernel
  obtain ⟨-, ⟨-, -, hsize⟩, -, -, hcard⟩ := population_exact hrun
  refine ⟨_, hrun, hcached, hsize, htotal, ?_⟩
  rw [← hcard, htotal]
  rfl

/-! ## Stacks -/

/-- The object at `u` has its memory. -/
def State.inUse (s : State K C) (u : Addr) : Prop := s.made u = true ∧ s.freed u = false

/-- Each object with a stack has a block of memory of its own, of a size that was asked for. -/
structure Stacks (s : State K C) : Prop where
  nodup : s.blocks.Nodup
  block : ∀ u, s.inUse u → (s.ut u).stackBottom ≠ 0 → (s.ut u).stackBottom ∈ s.blocks
  own : ∀ u v, s.inUse u → s.inUse v → (s.ut u).stackBottom ≠ 0 →
    (s.ut u).stackBottom = (s.ut v).stackBottom → u = v
  size : ∀ u, s.inUse u → s.main u = false → (s.ut u).stackBottom ≠ 0 →
    (s.ut u).stackSize ∈ s.asked
  cached : ∀ u, s.inUse u → s.live u = false → (s.ut u).stackBottom ≠ 0

/-- The condition on runs: no `create` asks for more than an earlier one did, and no uThread without
a stack is destroyed. -/
def Fitting (s : State K C) : Action K C → Prop
  | .create ss .. => ∀ x ∈ s.asked, ss ≤ x
  | .destory u .. => (s.ut u).stackBottom ≠ 0
  | _ => True

instance (s : State K C) : (a : Action K C) → Decidable (Fitting s a)
  | .create ss .. => List.decidableBAll (fun x => ss ≤ x) s.asked
  | .destory u .. => inferInstanceAs (Decidable ((s.ut u).stackBottom ≠ 0))
  | .startkThread .. => inferInstanceAs (Decidable True)
  | .use .. => inferInstanceAs (Decidable True)

/-- The stacks of the objects in use stay. -/
theorem Stacks.stay (h : Stacks s)
    (hsb : ∀ u, (s'.ut u).stackBottom = (s.ut u).stackBottom)
    (hss : ∀ u, (s'.ut u).stackSize = (s.ut u).stackSize)
    (huse : ∀ u, s'.inUse u ↔ s.inUse u) (hmain : s'.main = s.main) (hblocks : s'.blocks = s.blocks)
    (hasked : ∀ x ∈ s.asked, x ∈ s'.asked)
    (hcached : ∀ u, s.inUse u → s'.live u = false → (s.ut u).stackBottom ≠ 0) : Stacks s' where
  nodup := hblocks ▸ h.nodup
  block := fun u hu => by
    rw [hsb, hblocks]
    exact h.block u ((huse u).mp hu)
  own := fun u v hu hv => by
    rw [hsb, hsb]
    exact h.own u v ((huse u).mp hu) ((huse v).mp hv)
  size := fun u hu hm => by
    rw [hsb, hss]
    rw [hmain] at hm
    exact fun h0 => hasked _ (h.size u ((huse u).mp hu) hm h0)
  cached := fun u hu hlive => by
    rw [hsb]
    exact hcached u ((huse u).mp hu) hlive

theorem Stacks.setJoinable (h : Stacks s) (u : Addr) (joinable : Bool) :
    Stacks (s.setJoinable u joinable) := by
  unfold State.setJoinable
  split_ifs
  · refine h.stay (fun v => ?_) (fun v => ?_) (fun v => Iff.rfl) rfl rfl (fun _ => id) h.cached
    · by_cases hv : v = u <;> simp [hv]
    · by_cases hv : v = u <;> simp [hv]
  · exact h

theorem Inv.inUse_iff (h : Inv size s l) : s.inUse u ↔ s.live u = true ∨ u ∈ l := by
  constructor
  · rintro ⟨hmade, hfreed⟩
    rcases (h.made u).mp hmade with hlive | hcached | hf
    · exact .inl hlive
    · exact .inr hcached
    · rw [hfreed] at hf
      exact absurd hf (by simp)
  · intro hu
    refine ⟨(h.made u).mpr (hu.imp_right .inl), ?_⟩
    rcases hu with hlive | hcached
    · exact h.not_freed_of_live hlive
    · exact (h.cached u hcached).2

/-- A new object at `u`; it has no stack, or one in a block that no other object has. -/
theorem Stacks.construct (h : Stacks s) (u : Addr) (x : UThread K C)
    (hblock : x.stackBottom ≠ 0 → x.stackBottom ∈ s.blocks ∧ x.stackSize ∈ s.asked ∧
      ∀ v, s.inUse v → (s.ut v).stackBottom ≠ x.stackBottom) : Stacks (s.construct u x) := by
  have huse : ∀ v, v ≠ u → (s.construct u x).inUse v → s.inUse v := by
    intro v hv hin
    simpa [State.inUse, State.construct, Function.update_of_ne hv] using hin
  have hut : (s.construct u x).ut u = x := by simp [State.construct]
  have hother : ∀ v, v ≠ u → (s.construct u x).ut v = s.ut v := by
    intro v hv
    simp [State.construct, hv]
  refine ⟨h.nodup, fun v hv => ?_, fun v w hv hw => ?_, fun v hv hm => ?_, fun v hv hlive => ?_⟩
  · by_cases hvu : v = u
    · rw [hvu, hut]
      exact fun h0 => (hblock h0).1
    · rw [hother v hvu]
      exact h.block v (huse v hvu hv)
  · by_cases hvu : v = u
    · by_cases hwu : w = u
      · exact fun _ _ => hvu.trans hwu.symm
      · rw [hvu, hut, hother w hwu]
        exact fun h0 he => absurd he.symm ((hblock h0).2.2 w (huse w hwu hw))
    · by_cases hwu : w = u
      · rw [hwu, hut, hother v hvu]
        intro h0 he
        exact absurd he ((hblock (he ▸ h0)).2.2 v (huse v hvu hv))
      · rw [hother v hvu, hother w hwu]
        exact h.own v w (huse v hvu hv) (huse w hwu hw)
  · by_cases hvu : v = u
    · rw [hvu, hut]
      exact fun h0 => (hblock h0).2.1
    · rw [hother v hvu]
      simp only [State.construct, Function.update_of_ne hvu] at hm
      exact h.size v (huse v hvu hv) hm
  · by_cases hvu : v = u
    · simp [State.construct, hvu] at hlive
    · rw [hother v hvu]
      simp only [State.construct, Function.update_of_ne hvu] at hlive
      exact h.cached v (huse v hvu hv) hlive

/-- `malloc` -/
theorem Stacks.alloc (h : Stacks s) {mem : BitVec 64} (hmem : mem ∉ s.blocks) (ss : BitVec 64) :
    Stacks { s with asked := ss :: s.asked, blocks := mem :: s.blocks } where
  nodup := List.nodup_cons.mpr ⟨hmem, h.nodup⟩
  block := fun u hu h0 => List.mem_cons_of_mem _ (h.block u hu h0)
  own := h.own
  size := fun u hu hm h0 => List.mem_cons_of_mem _ (h.size u hu hm h0)
  cached := h.cached

theorem Stacks.free (h : Stacks s) (hin : s.inUse u) :
    Stacks ((s.leave u).free u) := by
  have huse : ∀ v, ((s.leave u).free u).inUse v → v ≠ u ∧ s.inUse v := by
    rintro v ⟨hmade, hfreed⟩
    have hvu : v ≠ u := by
      rintro rfl
      simp [State.free] at hfreed
    refine ⟨hvu, hmade, ?_⟩
    simpa [State.free, State.leave, Function.update_of_ne hvu] using hfreed
  refine ⟨h.nodup.erase _, fun v hv h0 => ?_, fun v w hv hw => ?_, fun v hv => ?_,
    fun v hv hlive => ?_⟩
  · obtain ⟨hvu, hv⟩ := huse v hv
    have hne : (s.ut v).stackBottom ≠ (s.ut u).stackBottom :=
      fun he => hvu (h.own v u hv hin h0 he)
    exact (List.mem_erase_of_ne hne).mpr (h.block v hv h0)
  · exact h.own v w (huse v hv).2 (huse w hw).2
  · exact h.size v (huse v hv).2
  · obtain ⟨hvu, hv⟩ := huse v hv
    simp only [State.free, State.leave, Function.update_of_ne hvu] at hlive
    exact h.cached v hv hlive

theorem Stacks.keep (h : Stacks s) (hu : (s.ut u).stackBottom ≠ 0) : Stacks (s.keep u) := by
  refine h.stay (fun v => ?_) (fun v => ?_) (fun v => Iff.rfl) rfl rfl (fun _ => id)
    fun v hv hlive => ?_
  · by_cases hvu : v = u <;> simp [State.keep, UThread.reset, hvu]
  · by_cases hvu : v = u <;> simp [State.keep, UThread.reset, hvu]
  · by_cases hvu : v = u
    · exact hvu ▸ hu
    · simp only [State.keep, State.leave, Function.update_of_ne hvu] at hlive
      exact h.cached v hv hlive

theorem Stacks.create {ss mem : BitVec 64} {joinable lock : Bool} {w : Addr} (h : Stacks s)
    (hl : Inv size s l) (hc : create ss joinable lock u mem s = some (w, s')) : Stacks s' := by
  rcases create_cases hl hc with ⟨l', rfl, rfl⟩ | ⟨-, hmem, hblocks, -, rfl⟩
  · apply Stacks.setJoinable
    refine h.stay (fun v => rfl) (fun v => rfl) (fun v => Iff.rfl) rfl rfl (fun x hx => ?_)
      fun v hv hlive => ?_
    · exact List.mem_cons_of_mem ss hx
    · by_cases hvw : v = w
      · simp [State.reuse, hvw] at hlive
      · simp only [State.reuse, Function.update_of_ne hvw] at hlive
        exact h.cached v hv hlive
  · apply Stacks.setJoinable
    refine (h.alloc hblocks ss).construct u _
      fun _ => ⟨by simp [newUT], by simp [newUT], fun v hv he => ?_⟩
    have he' : (s.ut v).stackBottom = mem := he
    exact hblocks (he' ▸ h.block v hv (he' ▸ hmem))

theorem Stacks.newMainUT (h : Stacks s) (u : Addr) (c : C) : Stacks (newMainUT u c s) := by
  have hx := h.construct u
    { (newUT 0 0 : UThread K C) with state := .running, currentCluster := some c }
    fun h0 => absurd rfl h0
  refine { hx with size := fun v hv hm => hx.size v hv ?_ }
  by_cases hvu : v = u
  · simp [UThreadCache.newMainUT, hvu] at hm
  · simpa [UThreadCache.newMainUT, Function.update_of_ne hvu] using hm

theorem stacks_step {a : Action K C} (h : Stacks s) (hl : Inv size s l) (ha : Fitting s a)
    (hs : step size s a = some s') : Stacks s' := by
  cases a with
  | create ss joinable lock u mem =>
    obtain ⟨⟨w, s₁⟩, hc, rfl⟩ := Option.map_eq_some_iff.mp hs
    exact h.create hl hc
  | destory u force lock =>
    simp only [step] at hs
    split_ifs at hs with hu
    cases hs
    rcases destory_cases size force lock u s with ⟨-, he⟩ | he
    · exact he ▸ h.keep ha
    · exact he ▸ h.free (hl.inUse_iff.mpr (.inl hu.1))
  | startkThread u c =>
    simp only [step] at hs
    split_ifs at hs with hu
    cases hs
    exact h.newMainUT u c
  | use u x link =>
    simp only [step] at hs
    split_ifs at hs with hu
    cases hs
    refine h.stay (fun v => ?_) (fun v => ?_) (fun v => Iff.rfl) rfl rfl (fun _ => id) h.cached
    · by_cases hvu : v = u <;> simp [hvu]
    · by_cases hvu : v = u <;> simp [hvu]

theorem stacks_initial {mainUT initUT : Addr} (hne : mainUT ≠ initUT) (mem : BitVec 64)
    (k : K) (c : C) : Stacks (initial mainUT initUT mem k c) := by
  have hsb : ∀ u, ((initial mainUT initUT mem k c).ut u).stackBottom ≠ 0 → u = mainUT := by
    intro u h0
    by_contra hu
    by_cases hi : u = initUT <;> simp [initial, hu, hi, newUT] at h0
  refine ⟨List.nodup_singleton _, fun u _ h0 => ?_, fun u v _ _ h0 he => ?_, fun u _ hm h0 => ?_,
    fun u hu hlive => ?_⟩
  · rw [hsb u h0]
    simp [initial, hne, newUT]
  · rw [hsb u h0, hsb v (he ▸ h0)]
  · simp [initial, hsb u h0] at hm
  · have hmade := hu.1
    simp only [initial] at hmade hlive
    rw [hlive] at hmade
    exact absurd hmade (by simp)

theorem reachable_stacks (h : (machine K C size).ReachableBy Fitting s) :
    (∃ l, Inv size s l) ∧ Stacks s := by
  refine h.invariant (I := fun s => (∃ l, Inv size s l) ∧ Stacks s) ?_ ?_
  · rintro s ⟨mainUT, initUT, mem, k, c, hne, -, rfl⟩
    exact ⟨⟨[], inv_initial hne mem k c⟩, stacks_initial hne mem k c⟩
  · rintro s a s' ⟨⟨l, hl⟩, hstacks⟩ ha hs
    exact ⟨inv_step hl hs, stacks_step hstacks hl ha hs⟩

/-- The stack of the uThread that `create` returns. -/
theorem create_spec {ss mem : BitVec 64} {joinable lock : Bool} {w : Addr} (h : Stacks s)
    (hl : Inv size s l) (hc : create ss joinable lock u mem s = some (w, s')) :
    s'.inUse w ∧ (s'.ut w).stackBottom ≠ 0 ∧
      ((s'.ut w).stackSize = ss ∨ (s'.ut w).stackSize ∈ s.asked) := by
  have hjoin : ∀ (t : State K C), (t.setJoinable w joinable).inUse w = t.inUse w ∧
      ((t.setJoinable w joinable).ut w).stackBottom = (t.ut w).stackBottom ∧
      ((t.setJoinable w joinable).ut w).stackSize = (t.ut w).stackSize := by
    intro t
    unfold State.setJoinable
    split_ifs
    · simp [State.inUse]
    · simp
  rcases create_cases hl hc with ⟨l', rfl, rfl⟩ | ⟨-, hmem, -, rfl, rfl⟩
  · have hin : s.inUse w := hl.inUse_iff.mpr (.inr (by simp))
    have hlive := (hl.cached w (by simp)).1
    have hmain : s.main w = false := by
      by_contra hm
      rw [hl.main w (by simpa using hm)] at hlive
      exact absurd hlive (by simp)
    have h0 := h.cached w hin hlive
    rw [(hjoin _).1, (hjoin _).2.1, (hjoin _).2.2]
    exact ⟨hin, h0, .inr (h.size w hin hmain h0)⟩
  · rw [(hjoin _).1, (hjoin _).2.1, (hjoin _).2.2]
    simpa [State.inUse, State.construct, newUT] using hmem

/-- **`create` honours the stack size**, in runs where no `create` asks for more than an earlier one
and every uThread that is destroyed has a stack: the uThread that `create` returns has a stack of
the size asked for, and no other live uThread has the same stack. -/
theorem create_stack {ss mem : BitVec 64} {joinable lock : Bool} {w : Addr}
    (h : (machine K C size).ReachableBy Fitting s)
    (hfit : Fitting s (.create ss joinable lock u mem : Action K C))
    (hc : create ss joinable lock u mem s = some (w, s')) :
    ss ≤ (s'.ut w).stackSize ∧ (s'.ut w).stackBottom ≠ 0 ∧
      ∀ v, v ≠ w → s'.live v = true → (s'.ut v).stackBottom ≠ (s'.ut w).stackBottom := by
  obtain ⟨⟨l, hl⟩, hstacks⟩ := reachable_stacks h
  obtain ⟨l', hl'⟩ := inv_create hl hc
  obtain ⟨hin, h0, hsize⟩ := create_spec hstacks hl hc
  refine ⟨?_, h0, fun v hv hlive he => ?_⟩
  · rcases hsize with he | hasked
    · exact he ▸ BitVec.le_refl _
    · exact hfit _ hasked
  · exact hv ((hstacks.create hl hc).own w v hin (hl'.inUse_iff.mpr (.inl hlive)) h0 he.symm).symm

theorem create_stack_recycled :
    ∃ s s' : State Unit Unit, (machine Unit Unit 1).ReachableBy Fitting s ∧
      create 2048 false true ⟨4, by decide⟩ 8192 s = some (⟨3, by decide⟩, s') ∧
      2048 ≤ (s'.ut ⟨3, by decide⟩).stackSize := by
  have h0 : (machine Unit Unit 1).ReachableBy Fitting start := .init (start_init 1)
  have hrun := h0.get recycleRun (by decide +kernel)
  have hfst : (create 2048 false true ⟨4, by decide⟩ 8192
      (((machine Unit Unit 1).runBy Fitting start recycleRun).get (by decide +kernel))).map
        Prod.fst =
        some ⟨3, by decide⟩ := by decide +kernel
  obtain ⟨⟨w, s'⟩, hc, rfl⟩ := Option.map_eq_some_iff.mp hfst
  exact ⟨_, s', hrun, hc, (create_stack hrun (by decide +kernel) hc).1⟩

/-- A uThread with a stack of 4096 terminates, and `create` gives it out for a stack of 65536;
`initUT` terminates, and `create` gives out an object that has no stack at all. -/
theorem create_recycles_small_stack :
    (∃ s w s', (machine Unit Unit 1).Reachable s ∧
      create 65536 false true ⟨4, by decide⟩ 8192 s = some (w, s') ∧
      ¬65536 ≤ (s'.ut w).stackSize) ∧
    ∃ s w s', (machine Unit Unit 1).Reachable s ∧
      create 4096 false true ⟨4, by decide⟩ 8192 s = some (w, s') ∧ (s'.ut w).stackBottom = 0 := by
  have h0 : (machine Unit Unit 1).Reachable start := .of_init (start_init 1)
  constructor
  · have hrun := h0.get recycleRun (by decide +kernel)
    have hsmall : ((create 65536 false true ⟨4, by decide⟩ 8192
        (((machine Unit Unit 1).run start recycleRun).get (by decide +kernel))).map
          fun r => (r.2.ut r.1).stackSize) = some 4096 := by decide +kernel
    obtain ⟨⟨w, s'⟩, hc, hsize⟩ := Option.map_eq_some_iff.mp hsmall
    refine ⟨_, w, s', hrun, hc, ?_⟩
    rw [show (s'.ut w).stackSize = 4096 from hsize]
    decide
  · have hrun := h0.get [.destory ⟨2, by decide⟩ false true] (by decide +kernel)
    have hnone : ((create 4096 false true ⟨4, by decide⟩ 8192
        (((machine Unit Unit 1).run start [.destory ⟨2, by decide⟩ false true]).get
          (by decide +kernel))).map fun r => (r.2.ut r.1).stackBottom) = some 0 := by
      decide +kernel
    obtain ⟨⟨w, s'⟩, hc, hbottom⟩ := Option.map_eq_some_iff.mp hnone
    exact ⟨_, w, s', hrun, hc, hbottom⟩

end UThreads.UThreadCache
