import UThreads.Sync.Mutex
import Mathlib.Tactic.Common
import Mathlib.Data.List.Nodup

/-!
# `Mutex`: mutual exclusion and FIFO baton passing

`Inv` says, for each position of a kThread, what it relies on (`View`). The positions under the
internal lock exclude each other. Outside it, two kinds of position rely on `owner`: a call of
`release` that waits for the lock, whose caller is the owner and stays it, and a kThread that has
dequeued a waiter and is about to resume it: until then that waiter is suspended, so nobody can
release the mutex and change `owner` under the second read.

Main result: `baton_passing`.
-/

namespace UThreads.Mutex

variable {K U : Type*}

/-- The positions under the internal lock. -/
def Act.locked : Act U → Bool
  | .acqTest _ | .acqSet _ | .acqUnlock _ | .suspend _ | .parkPush _ | .parkUnlock _ => true
  | .relTest _ | .relSet _ | .relPop _ | .relUnlock _ _ | .relClear _ | .relFree _ => true
  | _ => false

/-- The uThread a kThread acts for, and the status of that uThread. -/
def Act.role : Act U → Option (U × Status)
  | .acqLock u | .acqTest u | .acqSet u | .acqUnlock u | .suspend u => some (u, .acquiring)
  | .parkPush u | .parkUnlock u => some (u, .waiting)
  | .relLock u | .relTest u | .relSet u | .relPop u | .relUnlock u _ | .relClear u | .relFree u =>
    some (u, .releasing)
  | _ => none

/-- The uThread that was dequeued and is still to be resumed. -/
def Act.handing : Act U → Option U
  | .relUnlock _ w | .relRead w | .relResume w _ => some w
  | _ => none

/-- What a position says of the owner and the queue. -/
def View (s : State K U) : Act U → Prop
  | .acqSet _ => s.owner = none
  | .acqUnlock u => s.owner = some u
  | .suspend _ => s.owner ≠ none
  | .parkPush u => s.owner ≠ none ∧ s.owner ≠ some u ∧ u ∉ s.bq
  | .parkUnlock u => u ∈ s.bq
  | .relLock u | .relTest u => s.owner = some u
  | .relSet u => s.owner = some u ∧ s.bq ≠ []
  | .relClear u => s.owner = some u ∧ s.bq = []
  | .relPop _ => s.owner = s.bq.head? ∧ s.bq ≠ []
  | .relFree _ => s.owner = none ∧ s.bq = []
  | .relUnlock _ w | .relRead w => s.owner = some w ∧ s.status w = .waiting ∧ w ∉ s.bq
  | .relResume w r => r = some w ∧ s.owner = some w ∧ s.status w = .waiting ∧ w ∉ s.bq
  | _ => True

structure Inv (s : State K U) : Prop where
  locked : ∀ k, (s.act k).locked = true ↔ s.lock = some k
  role : ∀ k u x, (s.act k).role = some (u, x) → s.status u = x
  /-- A uThread has at most one kThread acting for it. -/
  role_inj : ∀ k k' u x x', (s.act k).role = some (u, x) → (s.act k').role = some (u, x') → k = k'
  view : ∀ k, View s (s.act k)
  /-- At most one waiter is in the hands of a waker. -/
  hand_inj : ∀ k k' w w', (s.act k).handing = some w → (s.act k').handing = some w' → k = k'
  owns : ∀ u, s.status u = .inside ∨ s.status u = .ready → s.owner = some u
  owned : ∀ u, s.owner = some u →
    s.status u ≠ .out ∧ (s.status u = .acquiring → ∃ k, s.act k = .acqUnlock u)
  parked : ∀ u ∈ s.bq, s.status u = .waiting
  nodup : s.bq.Nodup
  /-- A suspended uThread is queued, or a kThread is about to queue or to resume it. -/
  waits : ∀ u, s.status u = .waiting →
    u ∈ s.bq ∨ (∃ k, s.act k = .parkPush u) ∨ ∃ k, (s.act k).handing = some u
  empty : s.owner = none → s.bq = []

/-! ## The positions of other kThreads -/

/-- Nothing this position says depends on the owner. -/
def Act.quiet (a : Act U) : Prop := (∀ u, a.role ≠ some (u, .releasing)) ∧ a.handing = none

theorem Act.handing_of_locked {a : Act U} {w : U} (hw : a.handing = some w)
    (hl : a.locked = false) : a = .relRead w ∨ ∃ r, a = .relResume w r := by
  cases a <;> simp_all [Act.handing, Act.locked]

/-- What an unlocked position says survives steps that change neither the owner it relies on nor
the waiter in its hands. -/
theorem View.of_unlocked {s s' : State K U} {a : Act U} (h : View s a) (hl : a.locked = false)
    (hown : a.quiet ∨ s'.owner = s.owner)
    (hhand : ∀ w, a.handing = some w → s'.status w = s.status w ∧ (w ∈ s'.bq → w ∈ s.bq)) :
    View s' a := by
  cases a with
  | relLock u =>
    rcases hown with hq | ho
    · exact absurd rfl (hq.1 u)
    · exact ho.trans h
  | relRead w =>
    obtain ⟨hst, hbq⟩ := hhand w rfl
    rcases hown with hq | ho
    · exact absurd hq.2 nofun
    · exact ⟨ho.trans h.1, hst.trans h.2.1, fun hm => h.2.2 (hbq hm)⟩
  | relResume w r =>
    obtain ⟨hst, hbq⟩ := hhand w rfl
    rcases hown with hq | ho
    · exact absurd hq.2 nofun
    · exact ⟨h.1, ho.trans h.2.1, hst.trans h.2.2.1, fun hm => h.2.2.2 (hbq hm)⟩
  | idle | acqLock u => trivial
  | _ => cases hl

/-- What any position says survives steps that leave the owner, the queue and the waiter in its
hands alone. -/
theorem View.of_same {s s' : State K U} {a : Act U} (h : View s a) (ho : s'.owner = s.owner)
    (hb : s'.bq = s.bq) (hst : ∀ w, a.handing = some w → s'.status w = s.status w) :
    View s' a := by
  cases a with
  | relUnlock u w | relRead w | relResume w r =>
    have hw := hst w rfl
    simpa only [View, ho, hb, hw] using h
  | idle | acqLock u | acqTest u => trivial
  | _ => simpa only [View, ho, hb] using h

section Steps

variable {s s' : State K U} {k : K}

/-- While `k` has the internal lock, no other kThread is under it. -/
theorem Inv.other_unlocked (h : Inv s) {k' : K} (hk : s.lock = some k ∨ s.lock = none)
    (hne : k' ≠ k) : (s.act k').locked = false := by
  rw [← Bool.not_eq_true, h.locked k']
  rcases hk with hk | hk <;> rw [hk]
  · exact fun he => hne (Option.some.inj he).symm
  · exact nofun

/-- A kThread under the lock has it. -/
theorem Inv.lock_of (h : Inv s) {a : Act U} (ha : s.act k = a) (hl : a.locked = true) :
    s.lock = some k :=
  (h.locked k).mp (by rw [ha, hl])

theorem Inv.not_lock_of (h : Inv s) {a : Act U} (ha : s.act k = a) (hl : a.locked = false) :
    s.lock ≠ some k := by
  rw [ne_eq, ← h.locked k, ha, hl]
  exact nofun

theorem Inv.other_role (h : Inv s) {k' : K} {u v : U} {x y : Status}
    (hk : (s.act k).role = some (u, x)) (hne : k' ≠ k) (hk' : (s.act k').role = some (v, y)) :
    v ≠ u := by
  rintro rfl
  exact hne (h.role_inj k' k v y x hk' hk)

/-- No kThread acts for a uThread that is outside, inside or on a run queue. -/
theorem Inv.no_role (h : Inv s) {u : U}
    (hu : s.status u = .out ∨ s.status u = .inside ∨ s.status u = .ready) (k : K) (x : Status) :
    (s.act k).role ≠ some (u, x) := by
  intro hr
  have hx := h.role k u x hr
  cases ha : s.act k <;> simp only [ha, Act.role] at hr <;> cases hr <;> simp [hx] at hu

/-- A dequeued waiter is the owner, and it is suspended. -/
theorem Inv.hand_waiting (h : Inv s) {w : U} (hw : (s.act k).handing = some w) :
    s.owner = some w ∧ s.status w = .waiting ∧ w ∉ s.bq := by
  have hview := h.view k
  cases ha : s.act k <;> simp only [ha, Act.handing] at hw <;> cases hw <;>
    simp only [ha, View] at hview
  · exact hview
  · exact hview
  · exact hview.2

theorem Inv.notMem_bq (h : Inv s) {u : U} {x : Status} (hu : s.status u = x) (hx : x ≠ .waiting) :
    u ∉ s.bq := by
  intro hm
  exact hx (hu.symm.trans (h.parked u hm))

theorem Inv.handing_ne (h : Inv s) {u : U} {x : Status} (hu : s.status u = x) (hx : x ≠ .waiting) :
    (s.act k).handing ≠ some u := by
  intro hk
  exact hx (hu.symm.trans (h.hand_waiting hk).2.1)

/-- The waiter in the hands of a waker is not one that is being queued. -/
theorem Inv.hand_ne_role (h : Inv s) {k' : K} {w v : U} {y : Status}
    (hw : (s.act k).handing = some w) (hv : (s.act k').role = some (v, y)) : v ≠ w := by
  rintro rfl
  have hview' := h.view k'
  have hy := h.role k' v y hv
  have hwait := h.hand_waiting hw
  rw [hwait.2.1] at hy
  cases ha : s.act k' <;> simp only [ha, Act.role] at hv <;> cases hv <;> try cases hy
  · rw [ha] at hview'
    exact hview'.2.1 hwait.1
  · rw [ha] at hview'
    exact hwait.2.2 hview'

/-- A uThread in `acquire` is the owner only after `owner = current`. -/
theorem Inv.not_owner (h : Inv s) {u : U} {x : Status} (hr : (s.act k).role = some (u, x))
    (hx : x = .acquiring) (hset : ∀ v, s.act k ≠ .acqUnlock v) : s.owner ≠ some u := by
  intro ho
  obtain ⟨k', hk'⟩ := (h.owned u ho).2 ((h.role k u x hr).trans hx)
  have hr' : (s.act k').role = some (u, .acquiring) := by rw [hk']; rfl
  rw [h.role_inj k' k u _ x hr' hr] at hk'
  exact hset u hk'

/-- With no owner, no kThread outside the lock relies on one. -/
theorem Inv.quiet_of_none (h : Inv s) (ho : s.owner = none) {k' : K}
    (hl : (s.act k').locked = false) : (s.act k').quiet := by
  have hview := h.view k'
  unfold Act.quiet
  cases ha : s.act k' <;> simp_all [View, Act.role, Act.handing, Act.locked]

/-- While the owner is in `release`, no other kThread outside the lock relies on the owner. -/
theorem Inv.quiet_of_releasing (h : Inv s) {u : U} (ho : s.owner = some u)
    (hr : (s.act k).role = some (u, .releasing)) {k' : K} (hne : k' ≠ k)
    (hl : (s.act k').locked = false) : (s.act k').quiet := by
  have hview := h.view k'
  have hst := h.role k u .releasing hr
  refine ⟨fun v hv => ?_, ?_⟩
  · have hvu := h.other_role hr hne hv
    cases ha : s.act k' <;> simp only [ha, Act.role] at hv <;> cases hv <;>
      simp only [ha, Act.locked] at hl <;> try cases hl
    rw [ha] at hview
    exact hvu (Option.some.inj (hview.symm.trans ho))
  · -- A waiter in a waker's hands is the owner, and it is suspended.
    cases ha : s.act k' <;> simp only [ha, Act.locked] at hl <;> try cases hl
    all_goals first | rfl | skip
    · rw [ha] at hview
      obtain ⟨hw, hwait, -⟩ := hview
      rw [← Option.some.inj (ho.symm.trans hw), hst] at hwait
      cases hwait
    · rw [ha] at hview
      obtain ⟨-, hw, hwait, -⟩ := hview
      rw [← Option.some.inj (ho.symm.trans hw), hst] at hwait
      cases hwait

variable [DecidableEq K]

/-- **One kThread moves.** The invariant, from what the step does to the others and to itself. -/
theorem Inv.move (h : Inv s) {b : Act U} (hact : s'.act = Function.update s.act k b)
    (hlock : b.locked = true ↔ s'.lock = some k)
    (hlock' : ∀ k', k' ≠ k → (s.lock = some k' ↔ s'.lock = some k'))
    (hst' : ∀ k', k' ≠ k → ∀ v y, (s.act k').role = some (v, y) → s'.status v = s.status v)
    (hview' : ∀ k', k' ≠ k → View s' (s.act k'))
    (hrole : ∀ u x, b.role = some (u, x) →
      s'.status u = x ∧ ∀ k' y, k' ≠ k → (s.act k').role ≠ some (u, y))
    (hview : View s' b)
    (hhand : ∀ w, b.handing = some w → ∀ k', k' ≠ k → (s.act k').handing = none)
    (howns : ∀ u, s'.status u = .inside ∨ s'.status u = .ready → s'.owner = some u)
    (howned : ∀ u, s'.owner = some u → s'.status u ≠ .out ∧ (s'.status u = .acquiring →
      b = .acqUnlock u ∨ ∃ k', k' ≠ k ∧ s.act k' = .acqUnlock u))
    (hparked : ∀ u ∈ s'.bq, s'.status u = .waiting) (hnodup : s'.bq.Nodup)
    (hwaits : ∀ u, s'.status u = .waiting → u ∈ s'.bq ∨ b = .parkPush u ∨ b.handing = some u ∨
      ∃ k', k' ≠ k ∧ (s.act k' = .parkPush u ∨ (s.act k').handing = some u))
    (hempty : s'.owner = none → s'.bq = []) : Inv s' := by
  have hk : s'.act k = b := by rw [hact, Function.update_self]
  have hk' : ∀ k', k' ≠ k → s'.act k' = s.act k' := by
    intro k' hne
    rw [hact, Function.update_of_ne hne]
  refine ⟨?_, ?_, ?_, ?_, ?_, howns, ?_, hparked, hnodup, ?_, hempty⟩
  · intro k'
    by_cases hne : k' = k
    · rw [hne, hk]; exact hlock
    · rw [hk' k' hne, h.locked k']; exact hlock' k' hne
  · intro k' u x hr
    by_cases hne : k' = k
    · rw [hne, hk] at hr; exact (hrole u x hr).1
    · rw [hk' k' hne] at hr
      rw [hst' k' hne u x hr]
      exact h.role k' u x hr
  · intro k₁ k₂ u x x' h₁ h₂
    by_cases hne₁ : k₁ = k <;> by_cases hne₂ : k₂ = k
    · rw [hne₁, hne₂]
    · rw [hne₁, hk] at h₁
      rw [hk' k₂ hne₂] at h₂
      exact absurd h₂ ((hrole u x h₁).2 k₂ x' hne₂)
    · rw [hne₂, hk] at h₂
      rw [hk' k₁ hne₁] at h₁
      exact absurd h₁ ((hrole u x' h₂).2 k₁ x hne₁)
    · rw [hk' k₁ hne₁] at h₁
      rw [hk' k₂ hne₂] at h₂
      exact h.role_inj k₁ k₂ u x x' h₁ h₂
  · intro k'
    by_cases hne : k' = k
    · rw [hne, hk]; exact hview
    · rw [hk' k' hne]; exact hview' k' hne
  · intro k₁ k₂ w w' h₁ h₂
    by_cases hne₁ : k₁ = k <;> by_cases hne₂ : k₂ = k
    · rw [hne₁, hne₂]
    · rw [hne₁, hk] at h₁
      rw [hk' k₂ hne₂, hhand w h₁ k₂ hne₂] at h₂
      cases h₂
    · rw [hne₂, hk] at h₂
      rw [hk' k₁ hne₁, hhand w' h₂ k₁ hne₁] at h₁
      cases h₁
    · rw [hk' k₁ hne₁] at h₁
      rw [hk' k₂ hne₂] at h₂
      exact h.hand_inj k₁ k₂ w w' h₁ h₂
  · intro u hu
    refine ⟨(howned u hu).1, fun hacq => ?_⟩
    rcases (howned u hu).2 hacq with hb | ⟨k', hne, hk₁⟩
    · exact ⟨k, by rw [hk, hb]⟩
    · exact ⟨k', by rw [hk' k' hne, hk₁]⟩
  · intro u hu
    rcases hwaits u hu with hq | hb | hb | ⟨k', hne, hp | hw⟩
    · exact .inl hq
    · exact .inr (.inl ⟨k, by rw [hk, hb]⟩)
    · exact .inr (.inr ⟨k, by rw [hk, hb]⟩)
    · exact .inr (.inl ⟨k', by rw [hk' k' hne, hp]⟩)
    · exact .inr (.inr ⟨k', by rw [hk' k' hne, hw]⟩)

/-- **A step under the internal lock**, for uThread `u`: it may change the status of `u`, put `u`
on the queue, take a waiter off it into its own hands, and change the owner if there is none or if
the owner is `u` in `release`. -/
theorem Inv.move_locked (h : Inv s) {b : Act U} {u : U} {x y : Status} (hk : s.lock = some k)
    (hu : (s.act k).role = some (u, x)) (hact : s'.act = Function.update s.act k b)
    (hlock : s'.lock = if b.locked then some k else none)
    (hst : ∀ v, v ≠ u → s'.status v = s.status v) (hy : s'.status u = y)
    (hown : s'.owner = s.owner ∨ s.owner = none ∨ s.owner = some u ∧ x = .releasing)
    (hbq : ∀ v, v ∈ s'.bq → v ∈ s.bq ∨ v = u ∧ y = .waiting)
    (hkeep : ∀ v, v ∈ s.bq → v ∈ s'.bq ∨ b.handing = some v)
    (hrole : b.role = none ∨ b.role = some (u, y)) (hview : View s' b)
    (hhand : ∀ w, b.handing = some w → ∀ k', k' ≠ k → (s.act k').handing = none)
    (hhand' : ∀ w, (s.act k).handing = some w → b.handing = some w)
    (howns : y = .inside ∨ y = .ready → s'.owner = some u)
    (howned : s'.owner = some u → y ≠ .out ∧ (y = .acquiring → b = .acqUnlock u))
    (howned' : ∀ v, v ≠ u → s'.owner = some v → s.owner = some v ∨ s.status v = .waiting)
    (hwaits : y = .waiting → u ∈ s'.bq ∨ b = .parkPush u)
    (hx : u ∈ s.bq → y = x) (hnodup : s'.bq.Nodup)
    (hempty : s'.owner = none → s'.bq = []) : Inv s' := by
  have hunl : ∀ k', k' ≠ k → (s.act k').locked = false := fun k' => h.other_unlocked (.inl hk)
  refine h.move hact ?_ ?_ ?_ ?_ ?_ hview hhand ?_ ?_ ?_ hnodup ?_ hempty
  · cases hb : b.locked <;> simp [hlock, hb]
  · intro k' hne
    have h₁ : s.lock ≠ some k' := by rw [hk]; exact fun e => hne (Option.some.inj e).symm
    have h₂ : s'.lock ≠ some k' := by
      rw [hlock]
      split_ifs
      · exact fun e => hne (Option.some.inj e).symm
      · exact nofun
    exact iff_of_false h₁ h₂
  · intro k' hne v y hv
    exact hst v (h.other_role hu hne hv)
  · intro k' hne
    refine (h.view k').of_unlocked (hunl k' hne) ?_ ?_
    · rcases hown with ho | ho | ⟨ho, rfl⟩
      · exact .inr ho
      · exact .inl (h.quiet_of_none ho (hunl k' hne))
      · exact .inl (h.quiet_of_releasing ho hu hne (hunl k' hne))
    · intro w hw
      have hwu : w ≠ u := (h.hand_ne_role hw hu).symm
      exact ⟨hst w hwu, fun hm => (hbq w hm).resolve_right fun he => hwu he.1⟩
  · intro v y hv
    rcases hrole with hr | hr <;> rw [hr] at hv <;> cases hv
    exact ⟨hy, fun k' y hne hk' => h.other_role hu hne hk' rfl⟩
  · intro v hv
    by_cases hvu : v = u
    · subst hvu; exact howns (hy ▸ hv)
    · rw [hst v hvu] at hv
      have hov := h.owns v hv
      rcases hown with ho | ho | ⟨ho, -⟩
      · rw [ho]; exact hov
      · rw [ho] at hov; cases hov
      · exact absurd (Option.some.inj (hov.symm.trans ho)) hvu
  · intro v hv
    by_cases hvu : v = u
    · subst hvu
      rw [hy]
      exact ⟨(howned hv).1, fun hacq => .inl ((howned hv).2 hacq)⟩
    · rw [hst v hvu]
      rcases howned' v hvu hv with ho | hw
      · refine ⟨(h.owned v ho).1, fun hacq => ?_⟩
        obtain ⟨k', hk'⟩ := (h.owned v ho).2 hacq
        refine .inr ⟨k', ?_, hk'⟩
        rintro rfl
        rw [hk'] at hu
        exact hvu (congrArg Prod.fst (Option.some.inj hu))
      · rw [hw]
        exact ⟨nofun, nofun⟩
  · intro v hv
    rcases hbq v hv with hv | ⟨rfl, hv⟩
    · by_cases hvu : v = u
      · subst hvu
        rw [hy, hx hv, ← h.role k v x hu]
        exact h.parked v hv
      · rw [hst v hvu]; exact h.parked v hv
    · exact hy.trans hv
  · intro v hv
    by_cases hvu : v = u
    · subst hvu
      rcases hwaits (hy ▸ hv) with hq | hb
      · exact .inl hq
      · exact .inr (.inl hb)
    · rw [hst v hvu] at hv
      rcases h.waits v hv with hq | ⟨k', hp⟩ | ⟨k', hw⟩
      · rcases hkeep v hq with hq | hb
        · exact .inl hq
        · exact .inr (.inr (.inl hb))
      · -- That kThread is not `k`, which acts for `u`.
        refine .inr (.inr (.inr ⟨k', ?_, .inl hp⟩))
        rintro rfl
        rw [hp] at hu
        exact hvu (congrArg Prod.fst (Option.some.inj hu))
      · by_cases hne : k' = k
        · subst hne
          exact .inr (.inr (.inl (hhand' v hw)))
        · exact .inr (.inr (.inr ⟨k', hne, .inr hw⟩))

/-- **A step outside the internal lock**, or one that takes it: it may change the status of a
uThread that no other kThread acts for. -/
theorem Inv.move_unlocked (h : Inv s) {b : Act U} {u : U} {y : Status}
    (hk : (s.act k).locked = false) (hact : s'.act = Function.update s.act k b)
    (hlock : s'.lock = if b.locked then some k else s.lock)
    (hfree : b.locked = true → s.lock = none) (hown : s'.owner = s.owner) (hbq : s'.bq = s.bq)
    (hst : ∀ v, v ≠ u → s'.status v = s.status v) (hy : s'.status u = y)
    (hu : ∀ k' y, k' ≠ k → (s.act k').role ≠ some (u, y))
    (hu' : s.status u = y ∨ u ∉ s.bq ∧ y ≠ .waiting ∧
      ∀ k', k' ≠ k → (s.act k').handing ≠ some u)
    (hrole : b.role = none ∨ b.role = some (u, y)) (hview : View s' b)
    (hhand : ∀ w, b.handing = some w → (s.act k).handing = some w)
    (hhand' : ∀ w, (s.act k).handing = some w → b.handing = some w ∨ w = u ∧ y ≠ .waiting)
    (howns : y = .inside ∨ y = .ready → s.owner = some u)
    (howned : s.owner = some u → y ≠ .out ∧ y ≠ .acquiring) : Inv s' := by
  have hlk : s.lock ≠ some k := h.not_lock_of rfl hk
  refine h.move hact ?_ ?_ ?_ ?_ ?_ hview ?_ ?_ ?_ ?_ ?_ ?_ ?_
  · cases hb : b.locked <;> simp [hlock, hb, hlk]
  · intro k' hne
    cases hb : b.locked
    · simp [hlock, hb]
    · simp [hlock, hb, hfree hb, hne.symm]
  · intro k' hne v y hv
    exact hst v fun he => hu k' y hne (he ▸ hv)
  · intro k' hne
    refine (h.view k').of_same hown hbq fun w hw => ?_
    by_cases hwu : w = u
    · subst hwu
      rcases hu' with hsame | ⟨-, -, hno⟩
      · exact hy.trans hsame.symm
      · exact absurd hw (hno k' hne)
    · exact hst w hwu
  · intro v y hv
    rcases hrole with hr | hr <;> rw [hr] at hv <;> cases hv
    exact ⟨hy, fun k' y hne => hu k' y hne⟩
  · intro w hw k' hne
    cases hk' : (s.act k').handing with
    | none => rfl
    | some w' => exact absurd (h.hand_inj k' k w' w hk' (hhand w hw)) hne
  · intro v hv
    rw [hown]
    by_cases hvu : v = u
    · subst hvu; exact howns (hy ▸ hv)
    · rw [hst v hvu] at hv; exact h.owns v hv
  · intro v hv
    rw [hown] at hv
    by_cases hvu : v = u
    · subst hvu
      rw [hy]
      exact ⟨(howned hv).1, fun hacq => absurd hacq (howned hv).2⟩
    · rw [hst v hvu]
      refine ⟨(h.owned v hv).1, fun hacq => ?_⟩
      obtain ⟨k', hk'⟩ := (h.owned v hv).2 hacq
      refine .inr ⟨k', ?_, hk'⟩
      rintro rfl
      rw [hk'] at hk
      cases hk
  · intro v hv
    rw [hbq] at hv
    by_cases hvu : v = u
    · subst hvu
      rcases hu' with hsame | ⟨hno, -⟩
      · rw [hy, ← hsame]; exact h.parked v hv
      · exact absurd hv hno
    · rw [hst v hvu]; exact h.parked v hv
  · rw [hbq]; exact h.nodup
  · intro v hv
    have hvw : s.status v = .waiting := by
      by_cases hvu : v = u
      · subst hvu
        rcases hu' with hsame | ⟨-, hno, -⟩
        · rw [hsame, ← hy]; exact hv
        · exact absurd (hy.symm.trans hv) hno
      · rw [← hst v hvu]; exact hv
    rcases h.waits v hvw with hq | ⟨k', hp⟩ | ⟨k', hw⟩
    · exact .inl (hbq ▸ hq)
    · refine .inr (.inr (.inr ⟨k', ?_, .inl hp⟩))
      rintro rfl
      rw [hp] at hk
      cases hk
    · by_cases hne : k' = k
      · subst hne
        rcases hhand' v hw with hb | ⟨rfl, hno⟩
        · exact .inr (.inr (.inl hb))
        · exact absurd (hy.symm.trans hv) hno
      · exact .inr (.inr (.inr ⟨k', hne, .inr hw⟩))
  · rw [hown, hbq]; exact h.empty

/-- A step under the lock that only decides where to go. -/
theorem Inv.move_test (h : Inv s) {b : Act U} {u : U} {x : Status} (hk : s.lock = some k)
    (hu : (s.act k).role = some (u, x)) (hx : x ≠ .waiting) (hb : b.locked = true)
    (hrole : b.role = some (u, x)) (hview : View s b) (hhand : b.handing = none)
    (hhand' : (s.act k).handing = none) (hset : ∀ v, s.act k ≠ .acqUnlock v) :
    Inv (s.goto k b) := by
  have hst := h.role k u x hu
  refine h.move_locked hk hu rfl (by rw [hb]; exact hk) (fun _ _ => rfl) hst (.inl rfl)
    (fun v => .inl) (fun v => .inl) (.inr hrole) (hview.of_same rfl rfl fun _ _ => rfl) ?_ ?_
    (fun hy => h.owns u (hst ▸ hy)) ?_ (fun v _ => .inl) ?_ (fun _ => rfl) h.nodup h.empty
  · rw [hhand]; exact nofun
  · rw [hhand']; exact nofun
  · intro ho
    exact ⟨hst ▸ (h.owned u ho).1, fun hacq => absurd ho (h.not_owner hu hacq hset)⟩
  · intro hu
    exact absurd hu hx

variable [DecidableEq U]

/-- The steps of `acquire` up to its return or its suspension. -/
theorem inv_acquire (h : Inv s) {u : U} (hs : run false k s = some s')
    (ha : s.act k = .acqLock u ∨ s.act k = .acqTest u ∨ s.act k = .acqSet u ∨
      s.act k = .acqUnlock u) : Inv s' := by
  have hr : (s.act k).role = some (u, .acquiring) := by
    rcases ha with ha | ha | ha | ha <;> rw [ha] <;> rfl
  have hst : s.status u = .acquiring := h.role k u _ hr
  have hu : u ∉ s.bq := h.notMem_bq hst nofun
  have hview := h.view k
  unfold run at hs
  rcases ha with ha | ha | ha | ha <;> simp only [ha] at hs <;> rw [ha] at hview
  · split_ifs at hs with hl
    cases hs
    exact h.move_unlocked (by rw [ha]; rfl) rfl rfl (fun _ => hl) rfl rfl (fun _ _ => rfl) hst
      (fun k' y hne hk' => h.other_role hr hne hk' rfl) (.inl hst) (.inr rfl) trivial nofun
      (by rw [ha]; exact nofun) nofun
      (fun ho => absurd ho (h.not_owner hr rfl (by rw [ha]; exact nofun)))
  · cases hs
    by_cases hw : mustWait false s.owner u
    · rw [if_pos hw]
      exact h.move_test (h.lock_of ha rfl) hr nofun rfl rfl hw.1 rfl (by rw [ha]; rfl)
        (by rw [ha]; exact nofun)
    · have hnone : s.owner = none := by
        by_contra hne
        exact hw ⟨hne, .inl rfl⟩
      rw [if_neg hw]
      exact h.move_test (h.lock_of ha rfl) hr nofun rfl rfl hnone rfl (by rw [ha]; rfl)
        (by rw [ha]; exact nofun)
  · cases hs
    exact h.move_locked (h.lock_of ha rfl) hr rfl (h.lock_of ha rfl) (fun _ _ => rfl) hst
      (.inr (.inl hview)) (fun v => .inl) (fun v => .inl) (.inr rfl) rfl nofun
      (by rw [ha]; exact nofun) nofun (fun _ => ⟨nofun, fun _ => rfl⟩)
      (fun v hne ho => absurd (Option.some.inj ho).symm hne) nofun (fun _ => rfl) h.nodup nofun
  · cases hs
    exact h.move_locked (h.lock_of ha rfl) hr rfl rfl (fun v hv => Function.update_of_ne hv ..)
      (Function.update_self ..) (.inl rfl) (fun v => .inl) (fun v => .inl) (.inl rfl) trivial nofun
      (by rw [ha]; exact nofun) (fun _ => hview) (fun _ => ⟨nofun, nofun⟩) (fun v _ => .inl) nofun
      (fun hm => absurd hm hu) h.nodup h.empty

/-- The suspension in `acquire`, and the `postSwitchFunc` after it. -/
theorem inv_suspend (h : Inv s) {u : U} (hs : run false k s = some s')
    (ha : s.act k = .suspend u ∨ s.act k = .parkPush u ∨ s.act k = .parkUnlock u) : Inv s' := by
  have hview := h.view k
  unfold run at hs
  rcases ha with ha | ha | ha <;> simp only [ha] at hs <;> rw [ha] at hview <;> cases hs
  · have hr : (s.act k).role = some (u, .acquiring) := by rw [ha]; rfl
    have hst : s.status u = .acquiring := h.role k u _ hr
    have hu : u ∉ s.bq := h.notMem_bq hst nofun
    have hne : s.owner ≠ some u := h.not_owner hr rfl (by rw [ha]; exact nofun)
    exact h.move_locked (h.lock_of ha rfl) hr rfl (h.lock_of ha rfl)
      (fun v hv => Function.update_of_ne hv ..) (Function.update_self ..) (.inl rfl) (fun v => .inl)
      (fun v => .inl) (.inr rfl) ⟨hview, hne, hu⟩ nofun (by rw [ha]; exact nofun) nofun
      (fun ho => absurd ho hne) (fun v _ => .inl) (fun _ => .inr rfl) (fun hm => absurd hm hu)
      h.nodup h.empty
  · have hr : (s.act k).role = some (u, .waiting) := by rw [ha]; rfl
    have hst : s.status u = .waiting := h.role k u _ hr
    have hmem : u ∈ s.bq ++ [u] := List.mem_append_right _ (List.mem_singleton_self u)
    obtain ⟨hne, hnot, hu⟩ := hview
    have hnodup : (s.bq ++ [u]).Nodup := by
      rw [← List.concat_eq_append]
      exact h.nodup.concat hu
    refine h.move_locked (h.lock_of ha rfl) hr rfl (h.lock_of ha rfl) (fun _ _ => rfl) hst
      (.inl rfl) ?_ (fun v hv => .inl (List.mem_append_left _ hv)) (.inr rfl) hmem nofun
      (by rw [ha]; exact nofun) nofun (fun ho => absurd ho hnot) (fun v _ => .inl)
      (fun _ => .inl hmem) (fun _ => rfl) hnodup (fun ho => absurd ho hne)
    intro v hv
    rcases List.mem_append.mp hv with hv | hv
    · exact .inl hv
    · exact .inr ⟨List.mem_singleton.mp hv, rfl⟩
  · have hr : (s.act k).role = some (u, .waiting) := by rw [ha]; rfl
    exact h.move_locked (h.lock_of ha rfl) hr rfl rfl (fun _ _ => rfl) (h.role k u _ hr) (.inl rfl)
      (fun v => .inl) (fun v => .inl) (.inl rfl) trivial nofun (by rw [ha]; exact nofun) nofun
      (fun _ => ⟨nofun, nofun⟩) (fun v _ => .inl) (fun _ => .inl hview) (fun _ => rfl) h.nodup
      h.empty

/-- The steps of `release` that find no waiter. -/
theorem inv_release (h : Inv s) {u : U} (hs : run false k s = some s')
    (ha : s.act k = .relLock u ∨ s.act k = .relTest u ∨ s.act k = .relClear u ∨
      s.act k = .relFree u) : Inv s' := by
  have hr : (s.act k).role = some (u, .releasing) := by
    rcases ha with ha | ha | ha | ha <;> rw [ha] <;> rfl
  have hst : s.status u = .releasing := h.role k u _ hr
  have hu : u ∉ s.bq := h.notMem_bq hst nofun
  have hview := h.view k
  unfold run at hs
  rcases ha with ha | ha | ha | ha <;> simp only [ha] at hs <;> rw [ha] at hview
  · split_ifs at hs with hl
    cases hs
    exact h.move_unlocked (by rw [ha]; rfl) rfl rfl (fun _ => hl) rfl rfl (fun _ _ => rfl) hst
      (fun k' y hne hk' => h.other_role hr hne hk' rfl) (.inl hst) (.inr rfl) hview nofun
      (by rw [ha]; exact nofun) nofun (fun _ => ⟨nofun, nofun⟩)
  · cases hs
    by_cases hb : s.bq = []
    · rw [if_pos hb]
      exact h.move_test (h.lock_of ha rfl) hr nofun rfl rfl ⟨hview, hb⟩ rfl (by rw [ha]; rfl)
        (by rw [ha]; exact nofun)
    · rw [if_neg hb]
      exact h.move_test (h.lock_of ha rfl) hr nofun rfl rfl ⟨hview, hb⟩ rfl (by rw [ha]; rfl)
        (by rw [ha]; exact nofun)
  · cases hs
    exact h.move_locked (h.lock_of ha rfl) hr rfl (h.lock_of ha rfl) (fun _ _ => rfl) hst
      (.inr (.inr ⟨hview.1, rfl⟩)) (fun v => .inl) (fun v => .inl) (.inr rfl) ⟨rfl, hview.2⟩ nofun
      (by rw [ha]; exact nofun) nofun nofun (fun _ _ => nofun) nofun (fun _ => rfl) h.nodup
      (fun _ => hview.2)
  · cases hs
    exact h.move_locked (h.lock_of ha rfl) hr rfl rfl (fun v hv => Function.update_of_ne hv ..)
      (Function.update_self ..) (.inl rfl) (fun v => .inl) (fun v => .inl) (.inl rfl) trivial nofun
      (by rw [ha]; exact nofun) nofun (fun ho => absurd (ho.symm.trans hview.1) nofun)
      (fun v _ => .inl) nofun (fun hm => absurd hm hu) h.nodup h.empty

/-- The steps of `release` that pass the mutex on, up to the unlock. -/
theorem inv_pass (h : Inv s) {u : U} (hs : run false k s = some s')
    (ha : s.act k = .relSet u ∨ s.act k = .relPop u ∨ ∃ w, s.act k = .relUnlock u w) : Inv s' := by
  have hr : (s.act k).role = some (u, .releasing) := by
    rcases ha with ha | ha | ⟨w, ha⟩ <;> rw [ha] <;> rfl
  have hst : s.status u = .releasing := h.role k u _ hr
  have hu : u ∉ s.bq := h.notMem_bq hst nofun
  have hview := h.view k
  unfold run at hs
  rcases ha with ha | ha | ⟨w, ha⟩ <;> simp only [ha] at hs <;> rw [ha] at hview
  · obtain ⟨w, hw, rfl⟩ := Option.map_eq_some_iff.mp hs
    have hmem : w ∈ s.bq := List.mem_of_head? hw
    exact h.move_locked (h.lock_of ha rfl) hr rfl (h.lock_of ha rfl) (fun _ _ => rfl) hst
      (.inr (.inr ⟨hview.1, rfl⟩)) (fun v => .inl) (fun v => .inl) (.inr rfl)
      ⟨hw.symm, hview.2⟩ nofun (by rw [ha]; exact nofun) nofun
      (fun ho => absurd (Option.some.inj ho ▸ hmem) hu)
      (fun v _ ho => .inr (Option.some.inj ho ▸ h.parked w hmem)) nofun (fun _ => rfl) h.nodup nofun
  · obtain ⟨w, hw, rfl⟩ := Option.map_eq_some_iff.mp hs
    obtain ⟨rest, hbq⟩ := List.head?_eq_some_iff.mp hw
    have hnodup := h.nodup
    rw [hbq, List.nodup_cons] at hnodup
    have hown : s.owner = some w := hview.1.trans hw
    have hwu : w ≠ u := by
      rintro rfl
      exact hu (List.mem_of_head? hw)
    refine h.move_locked (h.lock_of ha rfl) hr rfl (h.lock_of ha rfl) (fun _ _ => rfl) hst
      (.inl rfl) (fun v hv => .inl (List.mem_of_mem_tail hv)) ?_ (.inr rfl)
      ⟨hown, h.parked w (List.mem_of_head? hw), ?_⟩ ?_ (by rw [ha]; exact nofun) nofun
      (fun _ => ⟨nofun, nofun⟩) (fun v _ => .inl) nofun (fun _ => rfl) h.nodup.tail ?_
    · intro v hv
      rw [hbq, List.mem_cons] at hv
      rcases hv with rfl | hv
      · exact .inr rfl
      · refine .inl ?_
        show v ∈ s.bq.tail
        rw [hbq]
        exact hv
    · show w ∉ s.bq.tail
      rw [hbq]
      exact hnodup.1
    · -- No other waiter is in a waker's hands: it would be the owner, yet `w` is still queued.
      intro w' hw' k' hne
      cases hk' : (s.act k').handing with
      | none => rfl
      | some v =>
        have hl := h.other_unlocked (.inl (h.lock_of ha rfl)) hne
        have hv := h.view k'
        have hmem : w ∈ s.bq := List.mem_of_head? hw
        rcases Act.handing_of_locked hk' hl with he | ⟨r, he⟩ <;> rw [he] at hv
        · rw [Option.some.inj (hown.symm.trans hv.1)] at hmem
          exact absurd hmem hv.2.2
        · rw [Option.some.inj (hown.symm.trans hv.2.1)] at hmem
          exact absurd hmem hv.2.2.2
    · intro ho
      exact absurd (ho.symm.trans hown) nofun
  · cases hs
    have hwu : w ≠ u := by
      rintro rfl
      exact absurd (hst.symm.trans hview.2.1) nofun
    refine h.move_locked (h.lock_of ha rfl) hr rfl rfl (fun v hv => Function.update_of_ne hv ..)
      (Function.update_self ..) (.inl rfl) (fun v => .inl) (fun v => .inl) (.inl rfl)
      ⟨hview.1, ?_, hview.2.2⟩ ?_ (by rw [ha]; exact fun _ => id) nofun
      (fun ho => absurd (Option.some.inj (hview.1.symm.trans ho)) hwu) (fun v _ => .inl) nofun
      (fun hm => absurd hm hu) h.nodup h.empty
    · exact (Function.update_of_ne hwu ..).trans hview.2.1
    · intro w' hw' k' hne
      cases hk' : (s.act k').handing with
      | none => rfl
      | some v => exact absurd (h.hand_inj k' k v w hk' (by rw [ha]; rfl)) hne

/-- `owner->resume()`, after the unlock. -/
theorem inv_resume (h : Inv s) {w : U} (hs : run false k s = some s')
    (ha : s.act k = .relRead w ∨ ∃ r, s.act k = .relResume w r) : Inv s' := by
  have hw : (s.act k).handing = some w := by rcases ha with ha | ⟨r, ha⟩ <;> rw [ha] <;> rfl
  have hview := h.view k
  unfold run at hs
  rcases ha with ha | ⟨r, ha⟩ <;> simp only [ha] at hs <;> rw [ha] at hview
  · cases hs
    exact h.move_unlocked (by rw [ha]; rfl) rfl rfl nofun rfl rfl (fun _ _ => rfl) hview.2.1
      (fun k' y _ hk' => h.hand_ne_role hw hk' rfl) (.inl hview.2.1) (.inl rfl)
      ⟨hview.1, hview.1, hview.2⟩ (fun v hv => by rw [ha]; exact hv)
      (fun v hv => .inl (by rw [ha] at hv; exact hv)) nofun (fun _ => ⟨nofun, nofun⟩)
  · obtain ⟨rfl, hown, hwait, hbq⟩ := hview
    obtain ⟨v, hv, rfl⟩ := Option.map_eq_some_iff.mp hs
    obtain rfl := Option.some.inj hv
    rw [State.resume_of_waiting hwait]
    refine h.move_unlocked (b := .idle) (u := w) (by rw [ha]; rfl) rfl rfl nofun rfl rfl
      (fun v hv => Function.update_of_ne hv ..) (Function.update_self ..)
      (fun k' y _ hk' => h.hand_ne_role hw hk' rfl) (.inr ⟨hbq, nofun, ?_⟩) (.inl rfl) trivial nofun
      ?_ (fun _ => hown) (fun _ => ⟨nofun, nofun⟩)
    · intro k' hne hk'
      exact hne (h.hand_inj k' k w w hk' hw)
    · intro v hv
      exact .inr ⟨Option.some.inj (hv.symm.trans hw), nofun⟩

theorem inv_run (h : Inv s) (hs : run false k s = some s') : Inv s' := by
  cases ha : s.act k with
  | idle => simp [run, ha] at hs
  | acqLock u => exact inv_acquire h hs (.inl ha)
  | acqTest u => exact inv_acquire h hs (.inr (.inl ha))
  | acqSet u => exact inv_acquire h hs (.inr (.inr (.inl ha)))
  | acqUnlock u => exact inv_acquire h hs (.inr (.inr (.inr ha)))
  | suspend u => exact inv_suspend h hs (.inl ha)
  | parkPush u => exact inv_suspend h hs (.inr (.inl ha))
  | parkUnlock u => exact inv_suspend h hs (.inr (.inr ha))
  | relLock u => exact inv_release h hs (.inl ha)
  | relTest u => exact inv_release h hs (.inr (.inl ha))
  | relClear u => exact inv_release h hs (.inr (.inr (.inl ha)))
  | relFree u => exact inv_release h hs (.inr (.inr (.inr ha)))
  | relSet u => exact inv_pass h hs (.inl ha)
  | relPop u => exact inv_pass h hs (.inr (.inl ha))
  | relUnlock u w => exact inv_pass h hs (.inr (.inr ⟨w, ha⟩))
  | relRead w => exact inv_resume h hs (.inl ha)
  | relResume w r => exact inv_resume h hs (.inr ⟨r, ha⟩)

theorem inv_step (h : Inv s) {a : Action K U} (hs : step s a = some s') : Inv s' := by
  cases a with
  | acquire k u =>
    simp only [step] at hs
    split_ifs at hs with hg
    cases hs
    obtain ⟨ha, hu⟩ := hg
    have hbq : u ∉ s.bq := h.notMem_bq hu nofun
    refine h.move_unlocked (by rw [ha]; rfl) rfl rfl nofun rfl rfl
      (fun v hv => Function.update_of_ne hv ..) (Function.update_self ..)
      (fun k' y _ => h.no_role (.inl hu) k' y) (.inr ⟨hbq, nofun, ?_⟩) (.inr rfl) trivial nofun
      (by rw [ha]; exact nofun) nofun (fun ho => absurd hu (h.owned u ho).1)
    intro k' _ hk'
    exact h.handing_ne hu nofun hk'
  | release k u =>
    simp only [step] at hs
    split_ifs at hs with hg
    cases hs
    obtain ⟨ha, hu⟩ := hg
    have hbq : u ∉ s.bq := h.notMem_bq hu nofun
    refine h.move_unlocked (by rw [ha]; rfl) rfl rfl nofun rfl rfl
      (fun v hv => Function.update_of_ne hv ..) (Function.update_self ..)
      (fun k' y _ => h.no_role (.inr (.inl hu)) k' y) (.inr ⟨hbq, nofun, ?_⟩) (.inr rfl)
      (h.owns u (.inl hu)) nofun (by rw [ha]; exact nofun) nofun (fun _ => ⟨nofun, nofun⟩)
    intro k' _ hk'
    exact h.handing_ne hu nofun hk'
  | run k => exact inv_run h hs
  | dispatch u =>
    simp only [step] at hs
    split_ifs at hs with hu
    cases hs
    have hst : ∀ v, v ≠ u → Function.update s.status u .inside v = s.status v :=
      fun v hv => Function.update_of_ne hv ..
    have hself : Function.update s.status u .inside u = .inside := Function.update_self ..
    refine { h with role := ?_, view := ?_, owns := ?_, owned := ?_, parked := ?_, waits := ?_ }
    · intro k v x hr
      have hvu : v ≠ u := by
        rintro rfl
        exact h.no_role (.inr (.inr hu)) k x hr
      exact (hst v hvu).trans (h.role k v x hr)
    · intro k
      refine (h.view k).of_same rfl rfl fun w hw => hst w ?_
      rintro rfl
      exact h.handing_ne hu nofun hw
    · intro v hv
      by_cases hvu : v = u
      · rw [hvu]; exact h.owns u (.inr hu)
      · exact h.owns v (hst v hvu ▸ hv)
    · intro v hv
      by_cases hvu : v = u
      · subst hvu
        exact ⟨fun e => absurd (hself.symm.trans e) nofun,
          fun e => absurd (hself.symm.trans e) nofun⟩
      · show Function.update s.status u .inside v ≠ .out ∧
          (Function.update s.status u .inside v = _ → _)
        rw [hst v hvu]
        exact h.owned v hv
    · intro v hv
      have hvu : v ≠ u := by
        rintro rfl
        exact absurd (hu.symm.trans (h.parked v hv)) nofun
      exact (hst v hvu).trans (h.parked v hv)
    · intro v hv
      have hvu : v ≠ u := by
        rintro rfl
        exact absurd (hself.symm.trans hv) nofun
      exact h.waits v (hst v hvu ▸ hv)

end Steps

theorem inv_initial : Inv (initial : State K U) where
  locked := fun _ => ⟨nofun, nofun⟩
  role := nofun
  role_inj := nofun
  view := fun _ => trivial
  hand_inj := nofun
  owns := fun _ hu => by rcases hu with hu | hu <;> cases hu
  owned := nofun
  parked := nofun
  nodup := List.nodup_nil
  waits := nofun
  empty := fun _ => rfl

variable {s : State K U}

theorem inv_reachable [DecidableEq K] [DecidableEq U] (h : (machine K U).Reachable s) : Inv s :=
  Machine.Reachable.invariant (I := Inv) (fun _ h0 => h0 ▸ inv_initial)
    (fun _ _ _ hI hs => inv_step hI hs) h

/-! ## The order of the grants -/

/-- The uThreads that have arrived and are still to be granted the mutex, in order. -/
def Act.line (bq : List U) : Act U → List U
  | .acqTest u | .acqSet u | .suspend u | .parkPush u => bq ++ [u]
  | .relPop _ => bq.tail
  | _ => bq

def State.line (s : State K U) : List U :=
  match s.lock with
  | none => s.bq
  | some k => (s.act k).line s.bq

theorem State.line_of_lock {k : K} {a : Act U} (hl : s.lock = some k) (ha : s.act k = a) :
    s.line = a.line s.bq := by
  rw [State.line, hl]
  show (s.act k).line s.bq = _
  rw [ha]

theorem State.line_of_free (hl : s.lock = none) : s.line = s.bq := by rw [State.line, hl]

variable [DecidableEq K]

theorem line_goto_self {k : K} {b : Act U} (hl : s.lock = some k) :
    (s.goto k b).line = b.line s.bq :=
  State.line_of_lock hl (Function.update_self ..)

theorem line_goto_of_ne {k : K} {b : Act U} (hl : s.lock ≠ some k) :
    (s.goto k b).line = s.line := by
  unfold State.line
  cases hk : s.lock with
  | none => simp [State.goto, hk]
  | some j =>
    have hne : j ≠ k := by
      rintro rfl
      exact hl hk
    simp [State.goto, hk, hne]

/-- Those granted the mutex and those still in line are the arrivals. -/
def Ordered (s : State K U) : Prop := s.arrivals = s.grants ++ s.line

theorem Ordered.goto_self {k : K} {b : Act U} (hl : s.lock = some k)
    (h : s.arrivals = s.grants ++ b.line s.bq) : Ordered (s.goto k b) := by
  rw [Ordered, line_goto_self hl]
  exact h

theorem Ordered.goto_of_ne {k : K} {b : Act U} (hl : s.lock ≠ some k) (h : Ordered s) :
    Ordered (s.goto k b) := by
  rw [Ordered, line_goto_of_ne hl]
  exact h

variable [DecidableEq U]

theorem ordered_run {s s' : State K U} {k : K} (h : Inv s) (ho : Ordered s)
    (hs : run false k s = some s') : Ordered s' := by
  have hview := h.view k
  have hline : ∀ {a}, s.act k = a → a.locked = true → s.arrivals = s.grants ++ a.line s.bq :=
    fun ha hl => ho.trans (by rw [State.line_of_lock (h.lock_of ha hl) ha])
  unfold run at hs
  cases ha : s.act k with
  | idle => simp [ha] at hs
  | acqLock u =>
    simp only [ha] at hs
    split_ifs at hs with hl
    cases hs
    refine .goto_self rfl ?_
    show s.arrivals ++ [u] = s.grants ++ (s.bq ++ [u])
    rw [ho, State.line_of_free hl, List.append_assoc]
  | relLock u =>
    simp only [ha] at hs
    split_ifs at hs with hl
    cases hs
    refine .goto_self rfl ?_
    rw [ho, State.line_of_free hl]
    rfl
  | acqSet u =>
    simp only [ha] at hs
    cases hs
    rw [ha] at hview
    refine .goto_self (h.lock_of ha rfl) ?_
    show s.arrivals = (s.grants ++ [u]) ++ s.bq
    rw [hline ha rfl, Act.line, h.empty hview, List.nil_append, List.append_nil]
  | relSet u =>
    simp only [ha] at hs
    obtain ⟨w, hw, rfl⟩ := Option.map_eq_some_iff.mp hs
    obtain ⟨rest, hbq⟩ := List.head?_eq_some_iff.mp hw
    refine .goto_self (h.lock_of ha rfl) ?_
    have hl : s.arrivals = s.grants ++ s.bq := hline ha rfl
    show s.arrivals = (s.grants ++ [w]) ++ s.bq.tail
    rw [hl, hbq, List.append_assoc]
    rfl
  | relPop u =>
    simp only [ha] at hs
    obtain ⟨w, hw, rfl⟩ := Option.map_eq_some_iff.mp hs
    exact .goto_self (h.lock_of ha rfl) (hline ha rfl)
  | acqTest u | relTest u =>
    simp only [ha] at hs
    cases hs
    have hl := hline ha rfl
    refine .goto_self (h.lock_of ha rfl) ?_
    split_ifs <;> exact hl
  | suspend u | parkPush u | relClear u =>
    simp only [ha] at hs
    cases hs
    have hl := hline ha rfl
    exact .goto_self (h.lock_of ha rfl) hl
  | acqUnlock u | parkUnlock u | relUnlock u w | relFree u =>
    simp only [ha] at hs
    cases hs
    have hl := hline ha rfl
    exact .goto_of_ne nofun hl
  | relRead w =>
    simp only [ha] at hs
    cases hs
    exact ho.goto_of_ne (h.not_lock_of ha rfl)
  | relResume w r =>
    simp only [ha] at hs
    obtain ⟨v, hv, rfl⟩ := Option.map_eq_some_iff.mp hs
    rw [ha] at hview
    obtain ⟨rfl, -, hwait, -⟩ := hview
    obtain rfl := Option.some.inj hv
    rw [State.resume_of_waiting hwait]
    exact .goto_of_ne (h.not_lock_of ha rfl) ho

theorem ordered_step {s s' : State K U} (h : Inv s) (ho : Ordered s) {a : Action K U}
    (hs : step s a = some s') : Ordered s' := by
  cases a with
  | acquire k u | release k u =>
    simp only [step] at hs
    split_ifs at hs with hg
    cases hs
    exact .goto_of_ne (h.not_lock_of hg.1 rfl) ho
  | run k => exact ordered_run h ho hs
  | dispatch u =>
    simp only [step] at hs
    split_ifs at hs
    cases hs
    exact ho

/-! ## Suspensions and resumptions -/

/-- Every suspension but the present one has been followed by one `resume`. -/
def Paired (s : State K U) : Prop :=
  ∀ u, s.parks u = s.resumes u + if s.status u = .waiting then 1 else 0

omit [DecidableEq K] in
/-- A step that only changes a status, and not from or to `waiting`. -/
theorem Paired.setStatus {s : State K U} (hp : Paired s) {u : U} {x : Status}
    (hu : s.status u ≠ .waiting) (hx : x ≠ .waiting) : Paired (s.setStatus u x) := by
  intro v
  have hv := hp v
  by_cases hvu : v = u
  · subst hvu
    rw [if_neg hu] at hv
    show s.parks v = s.resumes v + if Function.update s.status v x v = .waiting then 1 else 0
    rw [Function.update_self, if_neg hx]
    exact hv
  · show s.parks v = s.resumes v + if Function.update s.status u x v = .waiting then 1 else 0
    rw [Function.update_of_ne hvu]
    exact hv

theorem paired_run {s s' : State K U} {k : K} (h : Inv s) (hp : Paired s)
    (hs : run false k s = some s') : Paired s' := by
  have hview := h.view k
  have hrole := h.role k
  unfold run at hs
  cases ha : s.act k with
  | idle => simp [ha] at hs
  | acqLock u | relLock u =>
    simp only [ha] at hs
    split_ifs at hs
    cases hs
    exact hp
  | relSet u | relPop u =>
    simp only [ha] at hs
    obtain ⟨w, -, rfl⟩ := Option.map_eq_some_iff.mp hs
    exact hp
  | acqTest u | acqSet u | parkPush u | parkUnlock u | relTest u | relRead u | relClear u =>
    simp only [ha] at hs
    cases hs
    exact hp
  | acqUnlock u | relUnlock u w | relFree u =>
    simp only [ha] at hs
    cases hs
    have hu := hrole u _ (by rw [ha]; rfl)
    exact Paired.setStatus (s := { s with lock := none }) hp (by rw [hu]; exact nofun) nofun
  | suspend u =>
    simp only [ha] at hs
    cases hs
    have hu := hrole u _ (by rw [ha]; rfl)
    intro v
    have hv := hp v
    show Function.update s.parks u _ v =
      s.resumes v + if Function.update s.status u .waiting v = .waiting then 1 else 0
    by_cases hvu : v = u
    · subst hvu
      rw [if_neg (by rw [hu]; exact nofun)] at hv
      rw [Function.update_self, Function.update_self, if_pos rfl, hv]
    · rw [Function.update_of_ne hvu, Function.update_of_ne hvu]
      exact hv
  | relResume w r =>
    simp only [ha] at hs
    obtain ⟨v, hv, rfl⟩ := Option.map_eq_some_iff.mp hs
    rw [ha] at hview
    obtain ⟨rfl, -, hwait, -⟩ := hview
    obtain rfl := Option.some.inj hv
    rw [State.resume_of_waiting hwait]
    intro v
    have hpv := hp v
    show s.parks v = Function.update s.resumes w _ v +
      if Function.update s.status w .ready v = .waiting then 1 else 0
    by_cases hvw : v = w
    · subst hvw
      rw [if_pos hwait] at hpv
      rw [Function.update_self, Function.update_self, if_neg nofun, hpv]
    · rw [Function.update_of_ne hvw, Function.update_of_ne hvw]
      exact hpv

theorem paired_step {s s' : State K U} (h : Inv s) (hp : Paired s) {a : Action K U}
    (hs : step s a = some s') : Paired s' := by
  cases a with
  | acquire k u | release k u =>
    simp only [step] at hs
    split_ifs at hs with hg
    cases hs
    exact Paired.setStatus hp (by rw [hg.2]; exact nofun) nofun
  | run k => exact paired_run h hp hs
  | dispatch u =>
    simp only [step] at hs
    split_ifs at hs with hu
    cases hs
    exact hp.setStatus (by rw [hu]; exact nofun) nofun

theorem ordered_paired_reachable (h : (machine K U).Reachable s) :
    Inv s ∧ Ordered s ∧ Paired s := by
  refine Machine.Reachable.invariant (I := fun s => Inv s ∧ Ordered s ∧ Paired s) ?_ ?_ h
  · rintro s rfl
    exact ⟨inv_initial, rfl, fun _ => rfl⟩
  · rintro s a s' ⟨hI, ho, hp⟩ hs
    exact ⟨inv_step hI hs, ordered_step hI ho hs, paired_step hI hp hs⟩

/-- **Mutual exclusion with FIFO baton passing.** In every reachable state:
a uThread whose `acquire` has returned is the owner, so there is at most one;
while the internal lock is free, a mutex without owner has no waiters;
the mutex is granted in the order of the arrivals, and with the lock free those not granted it yet
are exactly the queue;
the uThread a release resumes is the one it dequeued, which is suspended;
and every suspension but the present one was followed by one `resume`. -/
theorem baton_passing (h : (machine K U).Reachable s) :
    (∀ u, s.status u = .inside → s.owner = some u) ∧
      (∀ u v, s.status u = .inside → s.status v = .inside → u = v) ∧
      (s.lock = none → s.owner = none → s.bq = [] ∧ ∀ u, s.status u ≠ .waiting) ∧
      s.grants <+: s.arrivals ∧ (s.lock = none → s.arrivals = s.grants ++ s.bq) ∧
      (∀ k w read, s.act k = .relResume w read → read = some w ∧ s.status w = .waiting) ∧
      ∀ u, s.parks u = s.resumes u + if s.status u = .waiting then 1 else 0 := by
  obtain ⟨hI, ho, hp⟩ := ordered_paired_reachable h
  refine ⟨fun u hu => hI.owns u (.inl hu), ?_, ?_, ⟨s.line, ho.symm⟩, ?_, ?_, hp⟩
  · intro u v hu hv
    exact Option.some.inj ((hI.owns u (.inl hu)).symm.trans (hI.owns v (.inl hv)))
  · intro hl hnone
    refine ⟨hI.empty hnone, fun u hu => ?_⟩
    rcases hI.waits u hu with hq | ⟨k, hk⟩ | ⟨k, hk⟩
    · rw [hI.empty hnone] at hq
      cases hq
    · exact absurd (hl.symm.trans (hI.lock_of hk rfl)) nofun
    · exact absurd (hnone.symm.trans (hI.hand_waiting hk).1) nofun
  · intro hl
    rw [← State.line_of_free hl]
    exact ho
  · intro k w read ha
    have hview := hI.view k
    rw [ha] at hview
    exact ⟨hview.1, hview.2.2.1⟩

/-- uThread `0` has the mutex when `1` and `2` arrive and park; then it releases the mutex. -/
def twoWaiters : List (Action ℕ ℕ) :=
  List.flatten [.acquire 0 0 :: List.replicate 4 (.run 0),
    .acquire 1 1 :: List.replicate 5 (.run 1),
    .acquire 1 2 :: List.replicate 5 (.run 1), .release 0 0 :: List.replicate 7 (.run 0),
    [.dispatch 1]]

theorem baton_passing_twoWaiters :
    ∃ s, (machine ℕ ℕ).Reachable s ∧ s.status 1 = .inside ∧ s.owner = some 1 ∧ s.bq = [2] ∧
      s.grants = [0, 1] ∧ s.grants <+: s.arrivals := by
  have hinit : (machine ℕ ℕ).Reachable initial := .of_init rfl
  have hr := hinit.get twoWaiters (by decide +kernel)
  exact ⟨_, hr, by decide +kernel, (baton_passing hr).1 1 (by decide +kernel), by decide +kernel,
    by decide +kernel, (baton_passing hr).2.2.2.1⟩

end UThreads.Mutex
