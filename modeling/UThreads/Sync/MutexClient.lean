import UThreads.Sync.MutexProof

/-!
# `Mutex`: what its clients rely on

A client of a mutex calls `acquire` and `release` and sees the status of each uThread change under
the steps of the mutex. `Status.Moves` says how; **`not_inside_of_releasing`** that nobody is inside
before a release is over; **`passing_of_waiting`** that an owner which is suspended is about to be
resumed; **`idle_of_out`** that a mutex nobody uses is as it was at the start.
-/

namespace UThreads.Mutex

variable {K U : Type*}

/-- The changes of status the steps of the mutex itself make. -/
inductive Status.Moves : Status → Status → Prop
  | same (x : Status) : Moves x x
  | enter : Moves .acquiring .inside
  | wait : Moves .acquiring .waiting
  | wake : Moves .waiting .ready
  | switch : Moves .ready .inside
  | leave : Moves .releasing .out

/-- In a call, and not switched out. -/
def Status.busy : Status → Bool
  | .acquiring | .releasing => true
  | _ => false

/-- A uThread in a call is on a kThread. -/
def Busy (s : State K U) : Prop :=
  ∀ u, (s.status u).busy = true → ∃ k, (s.act k).role = some (u, s.status u)

section Steps

variable [DecidableEq K] [DecidableEq U] {s s' : State K U} {k : K}

omit [DecidableEq K] in
theorem Status.Moves.update {u : U} {x y : Status} (hu : s.status u = x)
    (hm : Status.Moves x y) (v : U) :
    Status.Moves (s.status v) (Function.update s.status u y v) := by
  by_cases hv : v = u
  · rw [hv, Function.update_self, hu]
    exact hm
  · rw [Function.update_of_ne hv]
    exact .same _

theorem moves_run (h : Inv s) (hs : run false k s = some s') (u : U) :
    Status.Moves (s.status u) (s'.status u) := by
  have hrole := h.role k
  have hview := h.view k
  unfold run at hs
  cases ha : s.act k <;> rw [ha] at hrole hview <;> simp only [ha] at hs
  case idle => cases hs
  case acqLock | relLock =>
    split_ifs at hs
    cases hs
    exact .same _
  case acqTest | acqSet | parkPush | parkUnlock | relTest | relRead | relClear =>
    cases hs
    exact .same _
  case acqUnlock v =>
    cases hs
    exact .update (hrole v _ rfl) .enter u
  case suspend v =>
    cases hs
    exact .update (hrole v _ rfl) .wait u
  case relSet | relPop =>
    obtain ⟨w, -, rfl⟩ := Option.map_eq_some_iff.mp hs
    exact .same _
  case relUnlock v w =>
    cases hs
    exact .update (hrole v _ rfl) .leave u
  case relFree v =>
    cases hs
    exact .update (hrole v _ rfl) .leave u
  case relResume w r =>
    obtain ⟨rfl, -, hw, -⟩ := hview
    cases hs
    show Status.Moves (s.status u) ((s.resume w).status u)
    rw [State.resume_of_waiting hw]
    exact .update hw .wake u

theorem moves_dispatch {v : U} (hs : step s (.dispatch v) = some s') (u : U) :
    Status.Moves (s.status u) (s'.status u) := by
  simp only [step] at hs
  split_ifs at hs with hv
  cases hs
  exact .update hv .switch u

theorem reachable_step (h : (machine K U).Reachable s) {a : Action K U} (hs : step s a = some s') :
    (machine K U).Reachable s' :=
  h.next (a := a) hs

theorem status_acquire {u : U} (hs : step s (.acquire k u) = some s') :
    s.status u = .out ∧ s'.status = Function.update s.status u .acquiring := by
  simp only [step] at hs
  split_ifs at hs with hg
  cases hs
  exact ⟨hg.2, rfl⟩

theorem status_release {u : U} (hs : step s (.release k u) = some s') :
    s.status u = .inside ∧ s'.status = Function.update s.status u .releasing := by
  simp only [step] at hs
  split_ifs at hs with hg
  cases hs
  exact ⟨hg.2, rfl⟩

omit [DecidableEq U] in
/-- kThread `k` moves, and goes on acting for its uThread unless the call is over for that one. -/
theorem Busy.move (h : Busy s) {b : Act U} (hact : s'.act = Function.update s.act k b)
    (hst : ∀ u, Status.Moves (s.status u) (s'.status u))
    (hrole : ∀ u x, (s.act k).role = some (u, x) →
      b.role = some (u, x) ∨ (s'.status u).busy = false) : Busy s' := by
  intro u hu
  have hsame : s'.status u = s.status u := by
    have hm := hst u
    generalize s.status u = x at hm
    generalize s'.status u = y at hm hu
    cases hm with
    | same => rfl
    | _ => cases hu
  obtain ⟨k', hk'⟩ := h u (hsame ▸ hu)
  rw [← hsame] at hk'
  refine ⟨k', ?_⟩
  by_cases hne : k' = k
  · subst hne
    rw [hact, Function.update_self]
    refine (hrole u _ hk').resolve_right ?_
    rw [hu]
    exact nofun
  · rw [hact, Function.update_of_ne hne]
    exact hk'

theorem busy_run (h : Inv s) (hb : Busy s) (hs : run false k s = some s') : Busy s' := by
  have hm := moves_run h hs
  have hmove : ∀ b, s'.act = Function.update s.act k b → (∀ u x, (s.act k).role = some (u, x) →
      b.role = some (u, x) ∨ (s'.status u).busy = false) → Busy s' :=
    fun b hact hrole => hb.move hact hm hrole
  -- The call is over for `u`, whose new status is `y`.
  have hover : ∀ {u y}, s'.status u = y → y.busy = false → (s'.status u).busy = false := by
    rintro u y rfl hy
    exact hy
  unfold run at hs
  cases ha : s.act k <;> rw [ha] at hmove <;> simp only [ha] at hs
  case idle => cases hs
  case acqLock u | relLock u =>
    split_ifs at hs
    cases hs
    exact hmove _ rfl fun v x hr => .inl hr
  case acqTest u | relTest u =>
    cases hs
    refine hmove _ rfl fun v x hr => .inl ?_
    split_ifs <;> exact hr
  case acqSet u | parkPush u | relClear u | relRead w =>
    cases hs
    exact hmove _ rfl fun v x hr => .inl hr
  case relSet u | relPop u =>
    obtain ⟨w, -, rfl⟩ := Option.map_eq_some_iff.mp hs
    exact hmove _ rfl fun v x hr => .inl hr
  case parkUnlock u =>
    cases hs
    refine hmove _ rfl ?_
    rintro v x ⟨⟩
    exact .inr (hover (h.role k u _ (by rw [ha]; rfl)) rfl)
  case acqUnlock u | suspend u | relUnlock u w | relFree u =>
    cases hs
    refine hmove _ rfl ?_
    rintro v x ⟨⟩
    exact .inr (hover (Function.update_self ..) rfl)
  case relResume w r =>
    obtain ⟨v, -, rfl⟩ := Option.map_eq_some_iff.mp hs
    refine hmove .idle ?_ nofun
    show Function.update (s.resume v).act k .idle = _
    rw [State.resume]
    split_ifs <;> rfl

/-- A call, from a kThread that acts for nobody. -/
theorem Busy.call (h : Busy s) {u : U} {b : Act U} {x : Status} (hk : s.act k = .idle)
    (hb : b.role = some (u, x)) (hact : s'.act = Function.update s.act k b)
    (hst : s'.status = Function.update s.status u x) : Busy s' := by
  intro v hv
  rw [hst] at hv ⊢
  by_cases hvu : v = u
  · rw [hvu, Function.update_self]
    exact ⟨k, by rw [hact, Function.update_self]; exact hb⟩
  · rw [Function.update_of_ne hvu] at hv ⊢
    obtain ⟨k', hk'⟩ := h v hv
    refine ⟨k', ?_⟩
    rw [hact, Function.update_of_ne]
    · exact hk'
    · rintro rfl
      rw [hk] at hk'
      cases hk'

theorem busy_step (h : Inv s) (hb : Busy s) {a : Action K U} (hs : step s a = some s') :
    Busy s' := by
  cases a with
  | acquire k u | release k u =>
    simp only [step] at hs
    split_ifs at hs with hg
    cases hs
    exact hb.call hg.1 rfl rfl rfl
  | run k => exact busy_run h hb hs
  | dispatch u =>
    simp only [step] at hs
    split_ifs at hs with hu
    cases hs
    intro v hv
    replace hv : (Function.update s.status u .inside v).busy = true := hv
    show ∃ k, (s.act k).role = some (v, Function.update s.status u .inside v)
    by_cases hvu : v = u
    · rw [hvu, Function.update_self] at hv
      cases hv
    · rw [Function.update_of_ne hvu] at hv ⊢
      exact hb v hv

theorem busy_reachable (h : (machine K U).Reachable s) : Busy s := by
  have hI : Inv s ∧ Busy s := by
    refine Machine.Reachable.invariant (I := fun s => Inv s ∧ Busy s) ?_ ?_ h
    · rintro s rfl
      exact ⟨inv_initial, nofun⟩
    · intro s a s' hI hs
      exact ⟨inv_step hI.1 hs, busy_step hI.1 hI.2 hs⟩
  exact hI.2

/-- **At most one uThread is inside.** -/
theorem inside_inj (h : (machine K U).Reachable s) {u v : U} (hu : s.status u = .inside)
    (hv : s.status v = .inside) : u = v := by
  have hI := inv_reachable h
  exact Option.some.inj ((hI.owns u (.inl hu)).symm.trans (hI.owns v (.inl hv)))

/-- **Nobody is inside before a release is over.** -/
theorem not_inside_of_releasing (h : (machine K U).Reachable s) {u v : U}
    (hu : s.status u = .releasing) : s.status v ≠ .inside := by
  intro hv
  have hI := inv_reachable h
  obtain ⟨k, hk⟩ := busy_reachable h u (by rw [hu]; rfl)
  rw [hu] at hk
  have hview := hI.view k
  have hown := hI.owns v (.inl hv)
  have hne : s.owner ≠ some u := by
    intro ho
    obtain rfl := Option.some.inj (hown.symm.trans ho)
    rw [hu] at hv
    cases hv
  have hwait : s.status v ≠ .waiting := by
    rw [hv]
    exact nofun
  -- The owner is `u`, or a waiter, or there is none.
  cases ha : s.act k <;> rw [ha] at hk hview <;> cases hk
  case relLock | relTest => exact hne hview
  case relSet | relClear => exact hne hview.1
  case relPop =>
    exact hwait (hI.parked v (List.mem_of_mem_head? (hview.1.symm.trans hown)))
  case relUnlock w =>
    obtain rfl := Option.some.inj (hown.symm.trans hview.1)
    exact hwait hview.2.1
  case relFree =>
    rw [hview.1] at hown
    cases hown

/-- The owner is on the queue only before it is dequeued. -/
def Passed (s : State K U) : Prop := ∀ w ∈ s.bq, s.owner = some w → ∃ k u, s.act k = .relPop u

omit [DecidableEq U] in
/-- kThread `k`, which is not about to dequeue, moves; the owner and the queue stay. -/
theorem Passed.move (h : Passed s) {a b : Act U} (hk : s.act k = a) (ha : ∀ u, a ≠ .relPop u)
    (hact : s'.act = Function.update s.act k b) (ho : s'.owner = s.owner) (hbq : s'.bq = s.bq) :
    Passed s' := by
  intro w hw how
  rw [hbq] at hw
  rw [ho] at how
  obtain ⟨k', u, hk'⟩ := h w hw how
  refine ⟨k', u, ?_⟩
  rw [hact, Function.update_of_ne]
  · exact hk'
  · rintro rfl
    exact ha u (hk.symm.trans hk')

theorem passed_run (h : Inv s) (hp : Passed s) (hs : run false k s = some s') : Passed s' := by
  have hview := h.view k
  have hrole := h.role k
  unfold run at hs
  cases ha : s.act k <;> rw [ha] at hview hrole <;> simp only [ha] at hs
  case idle => cases hs
  case acqLock | relLock =>
    split_ifs at hs
    cases hs
    exact hp.move ha nofun rfl rfl rfl
  case acqTest | acqUnlock | suspend | parkUnlock | relTest | relUnlock | relRead | relFree =>
    cases hs
    exact hp.move ha nofun rfl rfl rfl
  case relResume w r =>
    obtain ⟨v, -, rfl⟩ := Option.map_eq_some_iff.mp hs
    rw [State.resume]
    split_ifs <;> exact hp.move ha nofun rfl rfl rfl
  case acqSet u =>
    -- The new owner is on a kThread.
    cases hs
    intro w hw how
    obtain rfl := Option.some.inj how
    exact absurd ((hrole u _ rfl).symm.trans (h.parked u hw)) nofun
  case relClear u =>
    cases hs
    intro w hw how
    cases how
  case parkPush u =>
    cases hs
    intro w hw how
    have hwu : w ≠ u := by
      rintro rfl
      exact hview.2.1 how
    obtain ⟨k', v, hk'⟩ := hp w
      ((List.mem_append.mp hw).resolve_right fun h => hwu (List.mem_singleton.mp h)) how
    refine ⟨k', v, ?_⟩
    show Function.update s.act k _ k' = _
    rw [Function.update_of_ne]
    · exact hk'
    · rintro rfl
      exact absurd (ha.symm.trans hk') nofun
  case relSet u =>
    obtain ⟨w, -, rfl⟩ := Option.map_eq_some_iff.mp hs
    exact fun _ _ _ => ⟨k, u, Function.update_self ..⟩
  case relPop u =>
    -- The owner is dequeued, and it was on the queue once.
    obtain ⟨w, hw, rfl⟩ := Option.map_eq_some_iff.mp hs
    intro v hv how
    obtain ⟨l, hl⟩ := List.head?_eq_some_iff.mp hw
    have hvl : v ∈ l := by
      have hv' : v ∈ s.bq.tail := hv
      rw [hl] at hv'
      exact hv'
    have hvw : some v = some w := how.symm.trans (hview.1.trans hw)
    obtain rfl := Option.some.inj hvw
    have hnd := h.nodup
    rw [hl] at hnd
    exact absurd hvl (List.nodup_cons.mp hnd).1

theorem passed_step (h : Inv s) (hp : Passed s) {a : Action K U} (hs : step s a = some s') :
    Passed s' := by
  cases a with
  | acquire k u | release k u =>
    simp only [step] at hs
    split_ifs at hs with hg
    cases hs
    exact hp.move hg.1 (by simp) rfl rfl rfl
  | run k => exact passed_run h hp hs
  | dispatch u =>
    simp only [step] at hs
    split_ifs at hs with hu
    cases hs
    exact hp

theorem passed_reachable (h : (machine K U).Reachable s) : Passed s := by
  have hI : Inv s ∧ Passed s := by
    refine Machine.Reachable.invariant (I := fun s => Inv s ∧ Passed s) ?_ ?_ h
    · rintro s rfl
      exact ⟨inv_initial, nofun⟩
    · intro s a s' hI hs
      exact ⟨inv_step hI.1 hs, passed_step hI.1 hI.2 hs⟩
  exact hI.2

/-- In `internalRelease`, between the choice of the next owner and its resumption. -/
def Act.passing : Act U → Bool
  | .relPop _ | .relUnlock _ _ | .relRead _ | .relResume _ _ => true
  | _ => false

/-- **A suspended owner is about to be resumed.** -/
theorem passing_of_waiting (h : (machine K U).Reachable s) {u : U} (ho : s.owner = some u)
    (hu : s.status u = .waiting) : ∃ k, (s.act k).passing = true := by
  have hI := inv_reachable h
  rcases hI.waits u hu with hq | ⟨k, hk⟩ | ⟨k, hk⟩
  · obtain ⟨k, v, hk⟩ := passed_reachable h u hq ho
    exact ⟨k, by rw [hk]; rfl⟩
  · have hview := hI.view k
    rw [hk] at hview
    exact absurd ho hview.2.1
  · refine ⟨k, ?_⟩
    cases ha : s.act k <;> rw [ha] at hk <;> first | rfl | cases hk

/-- A uThread that is not suspended is neither queued nor in the hands of a kThread. -/
theorem not_queued (h : (machine K U).Reachable s) {u : U} (hu : s.status u ≠ .waiting) :
    u ∉ s.bq ∧ (∀ k, s.act k ≠ .parkPush u) ∧ ∀ k, (s.act k).handing ≠ some u := by
  have hI := inv_reachable h
  refine ⟨fun hq => hu (hI.parked u hq), fun k hk => ?_, fun k hk => hu (hI.hand_waiting hk).2.1⟩
  exact hu (hI.role k u .waiting (by rw [hk]; rfl))

/-- **A mutex that no uThread uses** has no owner and nobody queued, and no kThread is in its
code. -/
theorem idle_of_out (h : (machine K U).Reachable s) (hout : ∀ u, s.status u = .out) :
    s.owner = none ∧ s.bq = [] ∧ ∀ k, s.act k = .idle := by
  have hI := inv_reachable h
  have hown : s.owner = none := by
    rw [Option.eq_none_iff_forall_ne_some]
    intro u hu
    exact (hI.owned u hu).1 (hout u)
  refine ⟨hown, hI.empty hown, fun k => ?_⟩
  have hrole := hI.role k
  have hhand := fun w => hI.hand_waiting (k := k) (w := w)
  cases ha : s.act k <;> rw [ha] at hrole hhand
  case relRead w | relResume w r =>
    have hw := (hhand w rfl).2.1
    rw [hout w] at hw
    cases hw
  all_goals
    have hu := hrole _ _ rfl
    rw [hout] at hu
    cases hu

end Steps

end UThreads.Mutex
