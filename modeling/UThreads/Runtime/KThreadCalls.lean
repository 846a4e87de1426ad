import UThreads.Runtime.KThreadInv

/-!
# kThreads and uThreads: calls and wake-ups

The invariant through the steps that uThreads take in their own code: `yield`, `migrate`,
`terminate`, the calls that block, and the wake-ups. `inv_leave` is the common part of all calls of
`switchContext`. In a wake-up, a uThread goes from a queue to the hands of a kThread (`inv_take`)
and from there to its run queue (`inv_wake`); `Inv.target_eq` is the reason that reading `owner`
again finds it.
-/

namespace UThreads.Runtime

variable {K U C M B : Type*} {mutexOf : B → M} {s s' : State K U C M B} {k : K} {u w : U}

/-! ## Calls of a uThread that runs -/

section Callers

variable [DecidableEq U]

theorem caller_eq (hc : s.caller k = some u) :
    (s.kt k).pos = .run ∧ (s.kt k).currentUT = some u ∧ (s.kt k).mainUT ≠ some u := by
  unfold State.caller at hc
  split at hc
  next hpos =>
    split_ifs at hc with he
    exact ⟨hpos, hc, fun hm => he (hc.trans hm.symm)⟩
  next => exact absurd hc (by simp)

theorem freeCaller_eq (hc : s.freeCaller k = some u) : s.caller k = some u := by
  unfold State.freeCaller at hc
  split at hc
  · exact hc
  · exact absurd hc (by simp)

theorem mem_executing_of_caller (hc : s.caller k = some u) : u ∈ s.items (.executing k) := by
  obtain ⟨hpos, hcur, -⟩ := caller_eq hc
  simp [State.items, KThread.executing, hpos, hcur]

theorem Inv.runs_of_caller (h : Inv mutexOf s) (hc : s.caller k = some u) :
    (s.ut u).life = .started ∧ (s.ut u).homekThread = some k := by
  obtain ⟨hpos, hcur, hmain⟩ := caller_eq hc
  have hfits := h.fits k
  simp only [Fits, hpos, hcur, Option.some.injEq, exists_eq_left'] at hfits
  exact hfits.resolve_left hmain

/-- Nobody has something to do for a uThread that runs. -/
theorem Inv.not_claimed_of_caller (h : Inv mutexOf s) (hc : s.caller k = some u) (j : K) (b : B) :
    (s.kt j).claim ≠ some (u, b) := by
  by_cases hj : j = k
  · subst hj
    simp [KThread.claim, (caller_eq hc).1]
  · exact h.not_claimed (h.runs_of_caller hc).1 (mem_executing_of_caller hc)
      (fun hon => hj (hon.unique (.inl rfl))) (by simp) b

theorem Inv.not_held_of_caller (h : Inv mutexOf s) (hc : s.caller k = some u) (j : K) :
    u ∉ s.items (.waker j) := by
  intro hu
  have hplace := h.filed.unique (h.runs_of_caller hc).1 hu (mem_executing_of_caller hc)
  exact absurd hplace (by simp)

end Callers

section Steps

variable [DecidableEq K] [DecidableEq U]

/-- The calling uThread gets another record, and its kThread pops. -/
theorem inv_leave (h : Inv mutexOf s) (hc : s.caller k = some u) (x : UThread K C)
    (args : Option (Queue M B)) (hlife : x.life = .started)
    (hhome : ∃ k c, x.homekThread = some k ∧ x.currentCluster = some c ∧
      k ∈ (s.cluster c).ktVector)
    (hleaves : Leaves (Function.update s.ut u x) k u args)
    (howner : ∀ b, args = some (.client b) → s.owner (mutexOf b) = some u) :
    Inv mutexOf ((s.setUT u x).goto k (.pop args)) := by
  obtain ⟨hpos, hcur, hmain⟩ := caller_eq hc
  obtain ⟨hstarted, -⟩ := h.runs_of_caller hc
  have hut : ∀ v, v ≠ u → ((s.setUT u x).goto k (.pop args)).ut v = s.ut v :=
    fun v hv => Function.update_of_ne hv ..
  have hu : ((s.setUT u x).goto k (.pop args)).ut u = x := Function.update_self ..
  have hkt : ∀ j, j ≠ k → ((s.setUT u x).goto k (.pop args)).kt j = s.kt j :=
    fun j hj => Function.update_of_ne hj ..
  have hk : ((s.setUT u x).goto k (.pop args)).kt k = { s.kt k with pos := .pop args } :=
    Function.update_self ..
  have hitems : ∀ r : Place K M B, r.On k →
      ((s.setUT u x).goto k (.pop args)).items r = s.items r := by
    rintro r (rfl | rfl) <;> simp [State.items, hk, KThread.executing, KThread.switchingOut, hpos]
  refine h.stay (p := .executing k) (.inl rfl) (mem_executing_of_caller hc) hut ?_ hkt
    (fun r hr => State.items_congr hkt rfl rfl rfl hr) (fun r hr v _ => by rw [hitems r hr])
    (fun r hr => by rw [hitems r hr]; exact h.filed.nodup r) ?_ ?_ rfl rfl ?_
  · rw [hu, hlife, hstarted]
  · refine h.world.update hut (fun j => Update.apply_same ?_ j) (fun _ => rfl) ?_ ?_ ?_
    · simp [KThread.core, hpos, State.setUT]
    · simp [hstarted]
    · simpa only [hu] using fun _ => hhome
    · simp [hu, hlife]
  · simp only [Fits, hk, hcur, Option.some.injEq, exists_eq_left']
    exact hleaves
  · intro v b hv
    simp only [hk, KThread.claim, KThread.claimFor_eq, hcur, Option.some.injEq] at hv
    obtain ⟨rfl, rfl⟩ := hv
    refine ⟨hstarted, ?_, .inr ⟨howner b rfl, h.not_claimed_of_caller hc⟩⟩
    simp [KThread.claimPlace, hk, State.items, KThread.executing, hcur]

/-- `yield`, `terminate`, and the blocking calls -/
theorem inv_switchContext (h : Inv mutexOf s) (hc : s.caller k = some u) (x : UState)
    (args : Option (Queue M B))
    (hx : (x = .yield ∨ x = .terminated) ∧ args = none ∨ x = .waiting ∧ args.isSome = true)
    (howner : ∀ b, args = some (.client b) → s.owner (mutexOf b) = some u) :
    Inv mutexOf (s.switchContext k u x args) := by
  obtain ⟨hstarted, hhome⟩ := h.runs_of_caller hc
  refine inv_leave h hc _ args hstarted (h.world.homed u hstarted) ?_ howner
  rcases hx with ⟨rfl | rfl, rfl⟩ | ⟨rfl, hargs⟩
  · simp [Leaves, hstarted, hhome]
  · simp [Leaves, hstarted]
  · simpa [Leaves, hstarted, Option.isSome_iff_exists] using hargs

end Steps

/-! ## Assigning kThreads -/

section Clusters

variable [DecidableEq C]

theorem assignkThread_spec {c : C} {n : ℕ} {k : K} (ha : assignkThread c n s = some (k, s')) :
    k ∈ (s.cluster c).ktVector ∧
      s' = { s with cluster := Function.update s.cluster c { s.cluster c with ktLast := n } } := by
  obtain ⟨⟨j, m⟩, hassign, he⟩ := Option.map_eq_some_iff.mp ha
  simp only [Prod.mk.injEq] at he
  obtain ⟨rfl, rfl⟩ := he
  obtain ⟨hmem, rfl, -⟩ := AssignKThread.assign_spec hassign
  exact ⟨hmem, rfl⟩

theorem Inv.setLast (h : Inv mutexOf s) (c : C) (n : ℕ) :
    Inv mutexOf { s with
      cluster := Function.update s.cluster c { s.cluster c with ktLast := n } } :=
  ⟨h.filed, h.content, h.fits,
    h.world.congr (fun _ => rfl) (fun _ => rfl) fun c' =>
      Update.apply_same (f := Cluster.ktVector) (by rfl) c',
    h.claims.1, h.claims.2, h.claims.3⟩

end Clusters

section Migrate

variable [DecidableEq K] [DecidableEq U] [DecidableEq C]

theorem inv_migrate (h : Inv mutexOf s) (hc : s.caller k = some u) {c : C} {n : ℕ}
    (hs : migrate k u c n s = some s') : Inv mutexOf s' := by
  unfold migrate at hs
  split_ifs at hs with hlocal
  · cases hs
    exact h
  · split at hs
    next home s₁ ha =>
      obtain ⟨hmem, rfl⟩ := assignkThread_spec ha
      cases hs
      obtain ⟨hstarted, -⟩ := h.runs_of_caller hc
      refine inv_leave (h.setLast c n) hc _ none hstarted ⟨home, c, rfl, rfl, ?_⟩ ?_ (by simp)
      · simpa using hmem
      · simp [Leaves, hstarted]
    next => exact absurd hs (by simp)

end Migrate

/-! ## Waking -/

/-- What a kThread resumes is what it took, also when it reads `owner`. -/
theorem Inv.target_eq (h : Inv mutexOf s) {x : Held U M} {hs : List (Held U M)}
    (hx : s.hands k = x :: hs) : s.target x = some x.ut := by
  unfold State.target
  cases hv : x.via with
  | some m => exact h.claims.via k x (by simp [hx]) m hv
  | none => rfl

section Wake

variable [DecidableEq K] [DecidableEq U] [DecidableEq C]

theorem resume_of_home {n : ℕ} (hr : (s.ut u).state.resumable = true)
    (hh : (s.ut u).homekThread = some k) :
    resume u n s = some ((s.setUT u { s.ut u with state := .ready }).schedule u k) := by
  simp [resume, hr, hh]

theorem inv_wake (h : Inv mutexOf s) {n : ℕ} (hs : wake k n s = some s') : Inv mutexOf s' := by
  unfold wake at hs
  cases hx : s.hands k with
  | nil => simp [hx] at hs
  | cons x hs' =>
    simp only [hx, h.target_eq hx] at hs
    have hmem : x.ut ∈ s.items (.waker k) := by simp [State.items, hx]
    obtain ⟨hstarted, hsaved, hstate⟩ := h.content (.waker k) x.ut hmem
    obtain ⟨home, c, hhome, -, -⟩ := h.world.homed x.ut hstarted
    rw [resume_of_home (s := { s with hands := Function.update s.hands k hs' })
      (by simp [hstate, UState.resumable]) hhome] at hs
    cases hs
    refine h.hand (p := .waker k) (q := .runQueue home) k hstarted ?_ ?_
      (fun u hu => Function.update_of_ne hu ..) ?_ rfl rfl ?_ rfl ?_ ?_
    · refine ⟨by simp, ?_, ?_, fun r hp hq => ?_⟩
      · simp [State.items, hx, State.schedule, State.setUT]
      · simp [State.items, State.schedule, State.setUT]
      · cases r with
        | runQueue j => exact Function.update_of_ne (fun he => hq (by rw [he])) ..
        | waker j =>
          exact congrArg (List.map Held.ut) (Function.update_of_ne (fun he => hp (by rw [he])) ..)
        | executing | switchingOut | blockingQueue => rfl
    · simp [Place.On]
    · simp [State.schedule, State.setUT, UThread.core, hstarted]
    · simp [Content, State.schedule, State.setUT, hstarted, hsaved, hhome]
    · intro j y hy
      by_cases hj : j = k
      · subst hj
        simp only [State.schedule, State.setUT, Function.update_self] at hy
        exact .inl (by simp [hx, hy])
      · simp only [State.schedule, State.setUT, Function.update_of_ne hj] at hy
        exact .inl hy
    · exact fun j b => h.not_claimed hstarted hmem (by simp [Place.On]) (by simp) b

end Wake

section Mutexes

variable [DecidableEq M]

theorem Inv.setOwner (h : Inv mutexOf s) (m : M) (o : Option U)
    (hclaim : ∀ j u b, (s.kt j).claim = some (u, b) → mutexOf b ≠ m)
    (hvia : ∀ j, ∀ x ∈ s.hands j, x.via ≠ some m) :
    Inv mutexOf { s with owner := Function.update s.owner m o } :=
  ⟨h.filed, h.content, h.fits, ⟨h.world.1, h.world.2, h.world.3, h.world.4⟩,
    h.claims.setOwner m o hclaim hvia⟩

/-- A mutex without an owner is nobody's business. -/
theorem Inv.setOwner_of_none (h : Inv mutexOf s) {m : M} (hm : s.owner m = none) (o : Option U) :
    Inv mutexOf { s with owner := Function.update s.owner m o } := by
  refine h.setOwner m o (fun j v b hc he => ?_) fun j x hx hv => ?_
  · have howner := (h.claims.claimed j v b hc).1
    rw [he, hm] at howner
    exact absurd howner (by simp)
  · have howner := h.claims.via j x hx m hv
    rw [hm] at howner
    exact absurd howner (by simp)

/-- Neither is one whose owner is in no waker's hands, and of no claim. -/
theorem Inv.setOwner_of_some (h : Inv mutexOf s) {m : M} (hm : s.owner m = some u)
    (hclaim : ∀ j b, (s.kt j).claim ≠ some (u, b)) (hheld : ∀ j, u ∉ s.items (.waker j))
    (o : Option U) : Inv mutexOf { s with owner := Function.update s.owner m o } := by
  refine h.setOwner m o (fun j v b hc he => ?_) fun j x hx hv => ?_
  · have howner := (h.claims.claimed j v b hc).1
    rw [he, hm, Option.some.injEq] at howner
    exact hclaim j b (howner ▸ hc)
  · have howner := h.claims.via j x hx m hv
    rw [hm, Option.some.injEq] at howner
    exact hheld j (howner ▸ List.mem_map_of_mem hx)

variable [DecidableEq K] [DecidableEq B]

/-- A waker takes the first uThread of a queue, of which nobody has a claim. -/
theorem inv_take (h : Inv mutexOf s) {q : Queue M B} {l : List U} (hq : s.bq q = w :: l)
    (via : Option M) (hvia : ∀ m, via = some m → s.owner m = some w)
    (hfree : ∀ j b, (s.kt j).claim ≠ some (w, b)) :
    Inv mutexOf { s with
      bq := Function.update s.bq q l
      hands := Function.update s.hands k (⟨w, via⟩ :: s.hands k) } := by
  have hmem : w ∈ s.items (.blockingQueue q) := by simp [State.items, hq]
  obtain ⟨hstarted, hsaved, hstate⟩ := h.content (.blockingQueue q) w hmem
  refine h.hand (p := .blockingQueue q) (q := .waker k) k hstarted ?_ (by simp [Place.On])
    (fun _ _ => rfl) rfl rfl rfl ⟨hstarted, hsaved, hstate⟩ rfl ?_ hfree
  · refine ⟨by simp, ?_, ?_, fun r hp hr => ?_⟩
    · simp [State.items, hq]
    · simp [State.items]
    · cases r with
      | blockingQueue q' => exact Function.update_of_ne (fun he => hp (by rw [he])) ..
      | waker j =>
        exact congrArg (List.map Held.ut) (Function.update_of_ne (fun he => hr (by rw [he])) ..)
      | executing | switchingOut | runQueue => rfl
  · intro j x hx
    by_cases hj : j = k
    · subst hj
      simp only [Function.update_self, List.mem_cons] at hx
      rcases hx with rfl | hx
      · exact .inr hvia
      · exact .inl hx
    · simp only [Function.update_of_ne hj] at hx
      exact .inl hx

variable [DecidableEq U]

theorem inv_release (h : Inv mutexOf s) {m : M} (hclaim : ∀ j b, (s.kt j).claim ≠ some (u, b))
    (hheld : ∀ j, u ∉ s.items (.waker j)) (hs : release k u m s = some s') : Inv mutexOf s' := by
  unfold release at hs
  split_ifs at hs with hm
  split at hs <;> cases hs
  next w l hq =>
    have hmem : w ∈ s.items (.blockingQueue (.mutex m)) := by simp [State.items, hq]
    have hstarted := (h.content _ w hmem).1
    refine inv_take (h.setOwner_of_some hm hclaim hheld (some w)) hq (some m) ?_ ?_
    · rintro m' ⟨⟩
      exact Function.update_self ..
    · exact fun j b => h.not_claimed hstarted hmem (by simp [Place.On]) (by simp) b
  next => exact h.setOwner_of_some hm hclaim hheld none

omit [DecidableEq B] in
theorem inv_acquire (h : Inv mutexOf s) (hc : s.caller k = some u) {m : M}
    (hs : acquire k u m s = some s') : Inv mutexOf s' := by
  unfold acquire at hs
  split at hs
  next hm =>
    cases hs
    exact h.setOwner_of_none hm (some u)
  next v hm =>
    split_ifs at hs with hv
    cases hs
    exact inv_switchContext h hc .waiting _ (.inr ⟨rfl, rfl⟩) (by simp)

theorem inv_dequeue (h : Inv mutexOf s) (hc : s.caller k = some u) {b : B}
    (hs : dequeue mutexOf k u b s = some s') : Inv mutexOf s' := by
  unfold dequeue at hs
  split_ifs at hs with hm
  split at hs <;> cases hs
  next w l hq =>
    have hmem : w ∈ s.items (.blockingQueue (.client b)) := by simp [State.items, hq]
    have hstarted := (h.content _ w hmem).1
    refine inv_take h hq none (by simp) fun j b' hclaim => ?_
    -- the mutex of the queue belongs to the caller, so it is not still to be released for `w`
    obtain ⟨howner, -, hplace⟩ := h.claims.claimed j w b' hclaim
    have hu := h.filed.unique hstarted hmem hplace
    rcases KThread.claimPlace_eq (k := j) hclaim with he | he | he <;> rw [he] at hu
    · exact absurd hu (by simp)
    · exact absurd hu (by simp)
    · simp only [Place.blockingQueue.injEq, Queue.client.injEq] at hu
      subst hu
      rw [hm, Option.some.injEq] at howner
      subst howner
      exact absurd hclaim (h.not_claimed_of_caller hc j b)

end Mutexes

end UThreads.Runtime
