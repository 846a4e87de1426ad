import UThreads.Runtime.KThreadSwitch

/-!
# kThreads and uThreads: every uThread is in one place

New uThreads and kThreads, then all steps together (`inv_step`), and the result (`one_place`).
-/

namespace UThreads.Runtime

variable {K U C M B : Type*} {mutexOf : B → M} {s s' : State K U C M B} {k : K} {u w : U}

/-! ## New uThreads and kThreads -/

/-- A uThread that was not started, and is no `mainUT`, is nowhere. -/
theorem Inv.nowhere (h : Inv mutexOf s) (hstarted : (s.ut u).life ≠ .started)
    (hmain : ∀ k, (s.ut u).life ≠ .mainUT k) (p : Place K M B) : u ∉ s.items p := by
  intro hu
  cases p with
  | executing k => exact (h.life_of_on (.inl rfl) hu).elim (hmain k) hstarted
  | switchingOut k => exact (h.life_of_on (.inr rfl) hu).elim (hmain k) hstarted
  | runQueue k => exact hstarted (h.content (.runQueue k) u hu).1
  | blockingQueue q => exact hstarted (h.content (.blockingQueue q) u hu).1
  | waker k => exact hstarted (h.content (.waker k) u hu).1

section New

variable [DecidableEq U]

theorem inv_create (h : Inv mutexOf s) (hu : (s.ut u).life = .absent) :
    Inv mutexOf (s.setUT u newUT) := by
  have hut : ∀ v, v ≠ u → (s.setUT u newUT).ut v = s.ut v := fun v hv => Function.update_of_ne hv ..
  have hu' : (s.setUT u newUT).ut u = newUT := Function.update_self ..
  have hnowhere := h.nowhere (u := u) (by simp [hu]) (by simp [hu])
  have hitems : (s.setUT u newUT).items = s.items := by funext r; cases r <;> rfl
  have hstarted : (s.setUT u newUT).Started = s.Started := by
    funext v
    by_cases hv : v = u
    · subst hv
      simp only [State.Started, hu', hu]
      simp [newUT]
    · rw [State.Started, State.Started, hut v hv]
  refine ⟨?_, fun r v hv => ?_, fun j => ?_, ?_, ?_⟩
  · rw [hitems, hstarted]
    exact h.filed
  · rw [hitems] at hv
    have hne : v ≠ u := fun he => hnowhere r (he ▸ hv)
    exact (h.content r v hv).congr (hut v hne)
  · exact h.fits_congr rfl hut fun r _ => hnowhere r
  · refine h.world.update hut (fun _ => rfl) (fun _ => rfl) (by simp [hu]) ?_ ?_
    · rw [hu']
      simp [newUT]
    · rw [hu']
      simp [newUT]
  · refine ⟨fun j v b hc => ?_, h.claims.alone, h.claims.via⟩
    rw [hitems, hstarted]
    exact h.claims.claimed j v b hc

/-- A created uThread gets a home and goes to its run queue. -/
theorem inv_enter [DecidableEq K] (h : Inv mutexOf s) (hu : (s.ut u).life = .created) {home : K}
    {c : C} (hmem : home ∈ (s.cluster c).ktVector) {x : UThread K C} (hlife : x.life = .started)
    (hsaved : x.saved = true) (hhome : x.homekThread = some home)
    (hcluster : x.currentCluster = some c) : Inv mutexOf ((s.setUT u x).schedule u home) := by
  have hut : ∀ v, v ≠ u → ((s.setUT u x).schedule u home).ut v = s.ut v :=
    fun v hv => Function.update_of_ne hv ..
  have hu' : ((s.setUT u x).schedule u home).ut u = x := Function.update_self ..
  have hnowhere := h.nowhere (u := u) (by simp [hu]) (by simp [hu])
  have hother : ∀ r : Place K M B, r ≠ .runQueue home →
      ((s.setUT u x).schedule u home).items r = s.items r := by
    intro r hr
    cases r with
    | runQueue j => exact Function.update_of_ne (fun he => hr (by rw [he])) ..
    | executing | switchingOut | blockingQueue | waker => rfl
  have hnew : ((s.setUT u x).schedule u home).items (.runQueue home) =
      s.items (.runQueue home) ++ [u] := Function.update_self ..
  have hstarted : ∀ v, ((s.setUT u x).schedule u home).Started v ↔ s.Started v ∨ v = u := by
    intro v
    by_cases hv : v = u
    · subst hv
      simp [State.Started, hu', hlife]
    · simp [State.Started, hut v hv, hv]
  have hsub : ∀ r, ∀ v ∈ s.items r, v ∈ ((s.setUT u x).schedule u home).items r := by
    intro r v hv
    by_cases hr : r = .runQueue home
    · subst hr
      rw [hnew]
      exact List.mem_append_left _ hv
    · rw [hother r hr]
      exact hv
  refine ⟨?_, fun r v hv => ?_, fun j => ?_, ?_, ?_⟩
  · refine h.filed.enter hnowhere hstarted (q := .runQueue home) ?_ hother
    rw [hnew]
    exact List.perm_append_singleton u _
  · by_cases hvu : v = u
    · subst hvu
      have hr : r = .runQueue home := by
        by_contra hr
        rw [hother r hr] at hv
        exact hnowhere r hv
      subst hr
      simp [Content, hu', hlife, hsaved, hhome]
    · refine (h.content r v ?_).congr (hut v hvu)
      by_cases hr : r = .runQueue home
      · subst hr
        rw [hnew] at hv
        simpa [hvu] using hv
      · rwa [hother r hr] at hv
  · exact h.fits_congr rfl hut fun r _ => hnowhere r
  · refine h.world.update hut (fun _ => rfl) (fun _ => rfl) (by simp [hu]) (fun _ => ?_) ?_
    · rw [hu']
      exact ⟨home, c, hhome, hcluster, hmem⟩
    · simp [hu', hlife]
  · refine ⟨fun j v b hc => ?_, h.claims.alone, h.claims.via⟩
    obtain ⟨howner, hv, hvmem⟩ := h.claims.claimed j v b hc
    exact ⟨howner, (hstarted v).mpr (.inl hv), hsub _ v hvmem⟩

variable [DecidableEq K] [DecidableEq C]

theorem inv_start (h : Inv mutexOf s) {c : C} {n : ℕ} (hs : start u c n s = some s') :
    Inv mutexOf s' := by
  unfold start at hs
  split_ifs at hs with hu
  obtain ⟨hstate, hhome⟩ := h.world.created u hu
  simp only [resume, State.setUT, Function.update_self, hstate, hhome, UState.resumable,
    if_true] at hs
  split at hs <;> cases hs
  next home s₁ ha =>
    obtain ⟨hmem, rfl⟩ := assignkThread_spec ha
    have hnew := inv_enter (h.setLast c n) hu (c := c) (by simpa using hmem)
      (x := ⟨.started, .ready, some home, some c, true⟩) rfl rfl rfl rfl
    simpa [State.setUT, State.schedule] using hnew

/-- A kThread is created, and `m` is its `mainUT`. -/
theorem World.newkThread (h : World s) (hpos : (s.kt k).pos = .absent) {m : U}
    (hm : (s.ut m).life = .absent) {c : C} {t : KThread U C M B} (ht : t.pos ≠ .absent)
    (hlocal : t.localCluster = some c) (hmain : t.mainUT = some m) {x : UThread K C}
    (hx : x.life = .mainUT k) :
    World { s with
      kt := Function.update s.kt k t
      ut := Function.update s.ut m x
      cluster := Function.update s.cluster c
        { s.cluster c with ktVector := (s.cluster c).ktVector ++ [k] } } where
  homed := fun v hv => by
    have hne : v ≠ m := by
      rintro rfl
      simp [hx] at hv
    simp only [Function.update_of_ne hne] at hv ⊢
    obtain ⟨k', c', hhome, hcluster, hmem⟩ := h.homed v hv
    refine ⟨k', c', hhome, hcluster, ?_⟩
    by_cases hc : c' = c
    · subst hc
      simp [hmem]
    · simpa [Function.update_of_ne hc] using hmem
  created := fun v hv => by
    have hne : v ≠ m := by
      rintro rfl
      simp [hx] at hv
    simp only [Function.update_of_ne hne] at hv ⊢
    exact h.created v hv
  members := fun c' j hj => by
    have hold : j ∈ (s.cluster c').ktVector ∨ c' = c ∧ j = k := by
      by_cases hc : c' = c
      · subst hc
        simpa using hj
      · exact .inl (by simpa [Function.update_of_ne hc] using hj)
    rcases hold with hold | ⟨rfl, rfl⟩
    · have hne : j ≠ k := fun he => (h.members c' j hold).2 (he ▸ hpos)
      simpa [Function.update_of_ne hne] using h.members c' j hold
    · simpa using ⟨hlocal, ht⟩
  mains := fun j v hv => by
    by_cases hj : j = k
    · subst hj
      simp only [Function.update_self, hmain, Option.some.injEq] at hv
      subst hv
      simpa using hx
    · simp only [Function.update_of_ne hj] at hv
      have hold := h.mains j v hv
      have hne : v ≠ m := by
        rintro rfl
        simp [hm] at hold
      simpa [Function.update_of_ne hne] using hold

theorem inv_newkThread (h : Inv mutexOf s) {c : C} {m : U} (hs : newkThread k c m s = some s') :
    Inv mutexOf s' := by
  unfold newkThread at hs
  split at hs <;> cases hs
  next hpos hm =>
    set s' : State K U C M B := { s with
      kt := Function.update s.kt k ⟨.run, some c, some m, some m⟩
      ut := Function.update s.ut m ⟨.mainUT k, .running, none, some c, false⟩
      cluster := Function.update s.cluster c
        { s.cluster c with ktVector := (s.cluster c).ktVector ++ [k] } } with hs'
    have hut : ∀ v, v ≠ m → s'.ut v = s.ut v := fun v hv => Function.update_of_ne hv ..
    have hm' : s'.ut m = ⟨.mainUT k, .running, none, some c, false⟩ := Function.update_self ..
    have hkt : ∀ j, j ≠ k → s'.kt j = s.kt j := fun j hj => Function.update_of_ne hj ..
    have hk : s'.kt k = ⟨.run, some c, some m, some m⟩ := Function.update_self ..
    have hnowhere := h.nowhere (u := m) (by simp [hm]) (by simp [hm])
    have hstarted : s'.Started = s.Started := by
      funext v
      by_cases hv : v = m
      · subst hv
        simp [State.Started, hm', hm]
      · rw [State.Started, State.Started, hut v hv]
    have hitems : ∀ r : Place K M B, r ≠ .executing k → s'.items r = s.items r := by
      intro r hr
      by_cases hon : r.On k
      · rw [hon.resolve_left hr]
        simp [State.items, hk, KThread.switchingOut, hpos]
      · exact State.items_congr hkt rfl rfl rfl hon
    have hold : s.items (.executing k) = [] := by simp [State.items, KThread.executing, hpos]
    have hnew : s'.items (.executing k) = [m] := by simp [State.items, hk, KThread.executing]
    refine ⟨?_, fun r v hv => ?_, fun j => ?_,
      h.world.newkThread hpos hm (by simp) rfl rfl rfl, ?_⟩
    · rw [hstarted]
      refine h.filed.congr (fun v hv r => ?_) fun r => ?_
      · by_cases hr : r = .executing k
        · subst hr
          have hne : v ≠ m := by
            rintro rfl
            rw [State.Started, hm] at hv
            exact absurd hv (by simp)
          simp [hnew, hold, hne]
        · rw [hitems r hr]
      · by_cases hr : r = .executing k
        · subst hr
          simp [hnew]
        · rw [hitems r hr]
          exact h.filed.nodup r
    · by_cases hr : r = .executing k
      · subst hr
        trivial
      · rw [hitems r hr] at hv
        have hne : v ≠ m := fun he => hnowhere r (he ▸ hv)
        exact (h.content r v hv).congr (hut v hne)
    · by_cases hj : j = k
      · subst hj
        rw [hk]
        exact ⟨m, rfl, .inl rfl⟩
      · exact h.fits_congr (hkt j hj) hut fun r _ => hnowhere r
    · refine h.claims.step (k := k) rfl (fun _ _ hx => .inl hx) hkt (fun j hj v b hc => ?_) ?_
      · obtain ⟨-, hv, hvmem⟩ := h.claims.claimed j v b hc
        rw [hstarted, hitems _ fun he => ?_]
        · exact ⟨hv, hvmem⟩
        · rw [he, hold] at hvmem
          exact absurd hvmem (by simp)
      · simp [hk, KThread.claim]

end New

/-! ## All steps -/

section All

variable [DecidableEq K] [DecidableEq U] [DecidableEq C] [DecidableEq M] [DecidableEq B]

theorem inv_switchStep (h : Inv mutexOf s) {n : ℕ} (hs : switchStep mutexOf k n s = some s') :
    Inv mutexOf s' := by
  unfold switchStep at hs
  cases hpos : (s.kt k).pos <;> simp only [hpos] at hs
  case absent => cases hs
  case run => exact inv_blockingSwitch h hpos hs
  case pop args => exact inv_nonBlockingSwitch h hpos hs
  case stackSwitch next args => exact inv_stackSwitch h hpos hs
  case postSwitch next args => exact inv_postSwitchFunc h hpos hs
  case unlock next q => exact inv_unlock h hpos hs
  case finish next => exact inv_finish h hpos hs

theorem inv_step (h : Inv mutexOf s) {a : Action K U C M B} (hs : step mutexOf s a = some s') :
    Inv mutexOf s' := by
  cases a with
  | newkThread k c m => exact inv_newkThread h hs
  | create u =>
    simp only [step] at hs
    split_ifs at hs with hu
    cases hs
    exact inv_create h hu
  | start u c n => exact inv_start h hs
  | yield k =>
    obtain ⟨u, hc, rfl⟩ := Option.map_eq_some_iff.mp hs
    exact inv_switchContext h (freeCaller_eq hc) .yield none (.inl ⟨.inl rfl, rfl⟩) (by simp)
  | migrate k c n =>
    obtain ⟨u, hc, hs⟩ := Option.bind_eq_some_iff.mp hs
    exact inv_migrate h (freeCaller_eq hc) hs
  | terminate k =>
    obtain ⟨u, hc, rfl⟩ := Option.map_eq_some_iff.mp hs
    exact inv_switchContext h (freeCaller_eq hc) .terminated none (.inl ⟨.inr rfl, rfl⟩) (by simp)
  | acquire k m =>
    obtain ⟨u, hc, hs⟩ := Option.bind_eq_some_iff.mp hs
    exact inv_acquire h (freeCaller_eq hc) hs
  | release k m =>
    obtain ⟨u, hc, hs⟩ := Option.bind_eq_some_iff.mp hs
    exact inv_release h (h.not_claimed_of_caller hc) (h.not_held_of_caller hc) hs
  | wait k b =>
    obtain ⟨u, hc, hs⟩ := Option.bind_eq_some_iff.mp hs
    split_ifs at hs with hm
    cases hs
    refine inv_switchContext h (freeCaller_eq hc) .waiting _ (.inr ⟨rfl, rfl⟩) fun b' hb => ?_
    cases hb
    exact hm
  | dequeue k b =>
    obtain ⟨u, hc, hs⟩ := Option.bind_eq_some_iff.mp hs
    exact inv_dequeue h hc hs
  | wake k n => exact inv_wake h hs
  | switch k n => exact inv_switchStep h hs

omit [DecidableEq M] [DecidableEq B] in
theorem inv_initial (k : K) (c : C) {m u : U} (hne : m ≠ u) :
    Inv mutexOf (initial k c m u : State K U C M B) := by
  have hk : (initial k c m u : State K U C M B).kt k = ⟨.run, some c, some u, some m⟩ := by
    simp [initial]
  have hkt : ∀ j, j ≠ k →
      (initial k c m u : State K U C M B).kt j = ⟨.absent, none, none, none⟩ := by
    intro j hj
    simp [initial, hj]
  have hu : (initial k c m u : State K U C M B).ut u =
      ⟨.started, .initialized, some k, some c, false⟩ := Function.update_self ..
  have hlife : ∀ v, v ≠ u → ((initial k c m u : State K U C M B).ut v).life =
      if v = m then .mainUT k else .absent := by
    intro v hv
    by_cases hvm : v = m
    · subst hvm
      simp [initial, hv]
    · simp [initial, hv, hvm]
  have hstarted : ∀ v, (initial k c m u : State K U C M B).Started v → v = u := by
    intro v hv
    by_contra hvu
    rw [State.Started, hlife v hvu] at hv
    split_ifs at hv
  have hitems : ∀ r, (initial k c m u : State K U C M B).items r = [u] ∧ r = .executing k ∨
      (initial k c m u : State K U C M B).items r = [] := by
    intro r
    cases r with
    | executing j =>
      by_cases hj : j = k
      · subst hj
        exact .inl ⟨by simp [State.items, hk, KThread.executing], rfl⟩
      · exact .inr (by simp [State.items, hkt j hj, KThread.executing])
    | switchingOut j =>
      by_cases hj : j = k
      · subst hj
        exact .inr (by simp [State.items, hk, KThread.switchingOut])
      · exact .inr (by simp [State.items, hkt j hj, KThread.switchingOut])
    | runQueue | blockingQueue | waker => exact .inr rfl
  have hclaim : ∀ j, ((initial k c m u : State K U C M B).kt j).claim = none := by
    intro j
    by_cases hj : j = k
    · subst hj
      simp [hk, KThread.claim]
    · simp [hkt j hj, KThread.claim]
  refine ⟨⟨fun v hv => ?_, fun r => ?_⟩, fun r v hv => ?_, fun j => ?_,
    ⟨fun v hv => ?_, fun v hv => ?_, fun c' j hj => ?_, fun j v hv => ?_⟩,
    ⟨by simp [hclaim], by simp [hclaim], by simp [initial]⟩⟩
  · rw [hstarted v hv]
    refine ⟨.executing k, by simp [State.items, hk, KThread.executing], fun r hr => ?_⟩
    rcases hitems r with ⟨-, rfl⟩ | he
    · rfl
    · simp [he] at hr
  · rcases hitems r with ⟨he, -⟩ | he <;> simp [he]
  · rcases hitems r with ⟨-, rfl⟩ | he
    · trivial
    · rw [he] at hv
      exact absurd hv (by simp)
  · by_cases hj : j = k
    · subst hj
      rw [hk]
      exact ⟨u, rfl, .inr (by simp [hu])⟩
    · rw [hkt j hj]
      trivial
  · rw [hstarted v hv, hu]
    exact ⟨k, c, rfl, rfl, by simp [initial]⟩
  · by_cases hvu : v = u
    · subst hvu
      simp [hu] at hv
    · rw [hlife v hvu] at hv
      split_ifs at hv
  · have hc : c' = c ∧ j = k := by
      by_cases hc : c' = c
      · subst hc
        simpa [initial] using hj
      · simp [initial, hc] at hj
    obtain ⟨rfl, rfl⟩ := hc
    simp [hk]
  · have hj : j = k ∧ v = m := by
      by_cases hj : j = k
      · subst hj
        simp only [hk, Option.some.injEq] at hv
        exact ⟨rfl, hv.symm⟩
      · simp [hkt j hj] at hv
    obtain ⟨rfl, rfl⟩ := hj
    rw [hlife v hne, if_pos rfl]

theorem reachable_inv (h : (machine mutexOf).Reachable s) : Inv mutexOf s := by
  refine h.invariant (I := Inv mutexOf) ?_ fun s a s' hi hs => inv_step hi hs
  rintro s ⟨k, c, m, u, hne, rfl⟩
  exact inv_initial k c hne

/-- **A uThread is never in two places and never lost.** It is in one place, and there once; it is
in a queue only with its context saved; a run queue belongs to the home of its uThreads, which is a
kThread of their cluster; a kThread switches only to uThreads at home on it; no `mainUT` is in a
queue. -/
theorem one_place (mutexOf : B → M) {s : State K U C M B} (h : (machine mutexOf).Reachable s) :
    (∀ u, s.Started u → ∃! p, u ∈ s.items p) ∧ (∀ p, (s.items p).Nodup) ∧
    (∀ k, ∀ u ∈ s.runQueue k, (s.ut u).saved = true) ∧
    (∀ q, ∀ u ∈ s.bq q, (s.ut u).saved = true) ∧
    (∀ k, ∀ u ∈ s.runQueue k, (s.ut u).homekThread = some k ∧
      ∃ c, (s.kt k).localCluster = some c ∧ (s.ut u).currentCluster = some c) ∧
    (∀ k u, (s.kt k).next = some u → (s.kt k).mainUT ≠ some u →
      s.Started u ∧ (s.ut u).homekThread = some k) ∧
    ∀ k m, (s.kt k).mainUT = some m →
      (∀ j, m ∉ s.runQueue j) ∧ (∀ q, m ∉ s.bq q) ∧ ∀ j, m ∉ (s.hands j).map Held.ut := by
  have hi := reachable_inv h
  refine ⟨hi.filed.one, hi.filed.nodup, fun k u hu => (hi.content (.runQueue k) u hu).2.1,
    fun q u hu => (hi.content (.blockingQueue q) u hu).2.1, fun k u hu => ?_, fun k u hn hm => ?_,
    fun k m hm => ?_⟩
  · obtain ⟨hstarted, -, hhome⟩ := hi.content (.runQueue k) u hu
    obtain ⟨k', c, hhome', hcluster, hmem⟩ := hi.world.homed u hstarted
    rw [hhome, Option.some.injEq] at hhome'
    subst hhome'
    exact ⟨hhome, c, (hi.world.members c k hmem).1, hcluster⟩
  · exact ((hi.fits k).runs_next hn).resolve_left hm
  · have hnot : ∀ u, s.Started u → u ≠ m := by
      rintro u hu rfl
      rw [State.Started, hi.world.mains k u hm] at hu
      exact absurd hu (by simp)
    refine ⟨fun j hj => ?_, fun q hq => ?_, fun j hj => ?_⟩
    · exact hnot m (hi.content (.runQueue j) m hj).1 rfl
    · exact hnot m (hi.content (.blockingQueue q) m hq).1 rfl
    · exact hnot m (hi.content (.waker j) m hj).1 rfl

end All

/-- `initUT` (1) migrates to a second cluster, and is switched out on the default kThread. -/
def migrateRun : List (Action Bool ℕ Bool Unit Unit) :=
  [.newkThread true true 2, .migrate false true 0, .switch false 0, .switch false 0,
    .switch false 0]

theorem one_place_migrated :
    ∃ s : State Bool ℕ Bool Unit Unit, (machine id).Reachable s ∧ 1 ∈ s.runQueue true ∧
      (s.ut 1).saved = true ∧ (s.ut 1).homekThread = some true := by
  have h0 : (machine id).Reachable (initial false false 0 1 : State Bool ℕ Bool Unit Unit) :=
    .of_init ⟨false, false, 0, 1, by decide, rfl⟩
  have hrun := h0.get migrateRun (by decide +kernel)
  have hmem : 1 ∈ ((((machine id).run (initial false false 0 1 : State Bool ℕ Bool Unit Unit)
      migrateRun).get (by decide +kernel)).runQueue true) := by decide +kernel
  obtain ⟨-, -, hsaved, -, hhome, -⟩ := one_place id hrun
  exact ⟨_, hrun, hmem, hsaved true 1 hmem, (hhome true 1 hmem).1⟩

end UThreads.Runtime
