import UThreads.Runtime.KThreadCalls

/-!
# kThreads and uThreads: switching

The invariant through the steps of a switch: the pop, the stack switch, and the parts of
`postSwitchFunc`. `inv_goto` is for steps that move no uThread, and `inv_deal` for the cases of
`postSwitchFunc` that put the old uThread into a queue.
-/

namespace UThreads.Runtime

variable {K U C M B : Type*} {mutexOf : B → M} {s s' : State K U C M B} {k : K} {u w : U}

/-! ## Switching -/

section Switch

variable [DecidableEq K]

/-- kThread `k` goes on, with the same uThreads on it. -/
theorem inv_goto (h : Inv mutexOf s) {x : Pos U M B} (hw : w ∈ (s.kt k).executing)
    (hcore : ({ s.kt k with pos := x } : KThread U C M B).core = (s.kt k).core)
    (hexec : ∀ u, s.Started u →
      (u ∈ ({ s.kt k with pos := x } : KThread U C M B).executing ↔ u ∈ (s.kt k).executing))
    (hout : ∀ u, s.Started u →
      (u ∈ ({ s.kt k with pos := x } : KThread U C M B).switchingOut ↔
        u ∈ (s.kt k).switchingOut))
    (hnodup : ({ s.kt k with pos := x } : KThread U C M B).executing.Nodup ∧
      ({ s.kt k with pos := x } : KThread U C M B).switchingOut.Nodup)
    (hfits : Fits s.ut k { s.kt k with pos := x })
    (hclaim : ∀ u b, ({ s.kt k with pos := x } : KThread U C M B).claim = some (u, b) →
      (s.kt k).claim = some (u, b) ∧
      ({ s.kt k with pos := x } : KThread U C M B).claimPlace k = (s.kt k).claimPlace k) :
    Inv mutexOf (s.goto k x) := by
  have hkt : ∀ j, j ≠ k → (s.goto k x).kt j = s.kt j := fun j hj => Function.update_of_ne hj ..
  have hk : (s.goto k x).kt k = { s.kt k with pos := x } := Function.update_self ..
  have hmem : ∀ r : Place K M B, r.On k → ∀ u, s.Started u →
      (u ∈ (s.goto k x).items r ↔ u ∈ s.items r) := by
    rintro r (rfl | rfl) u hu
    · simpa only [State.items, hk] using hexec u hu
    · simpa only [State.items, hk] using hout u hu
  have hother : ∀ r : Place K M B, ¬r.On k → (s.goto k x).items r = s.items r :=
    fun r hr => State.items_congr hkt rfl rfl rfl hr
  refine h.stay (p := .executing k) (.inl rfl) hw (fun _ _ => rfl) rfl hkt hother hmem ?_
    (h.world.congr (fun _ => rfl) (fun j => Update.apply_same hcore j) fun _ => rfl) ?_ rfl rfl ?_
  · rintro r (rfl | rfl)
    · simpa only [State.items, hk] using hnodup.1
    · simpa only [State.items, hk] using hnodup.2
  · rw [hk]
    exact hfits
  · intro u b hc
    rw [hk] at hc ⊢
    obtain ⟨hold, hplace⟩ := hclaim u b hc
    obtain ⟨-, hstarted, hu⟩ := h.claims.claimed k u b hold
    refine ⟨hstarted, ?_, .inl hold⟩
    rw [hplace]
    by_cases hon : ((s.kt k).claimPlace k : Place K M B).On k
    · exact (hmem _ hon u hstarted).mpr hu
    · rw [hother _ hon]
      exact hu

/-- `runQueue.pop()` gives a uThread. -/
theorem inv_pop (h : Inv mutexOf s) {v : U} {q : List U} (hq : s.runQueue k = v :: q)
    (args : Option (Queue M B)) (hcur : (s.kt k).currentUT = some u)
    (hexec : (s.kt k).executing = [u]) (hout : (s.kt k).switchingOut = [])
    (hcore : ({ s.kt k with pos := .stackSwitch v args } : KThread U C M B).core = (s.kt k).core)
    (hleaves : (s.kt k).mainUT = some u ∨ Leaves s.ut k u args)
    (hclaim : ∀ b, args = some (.client b) → (s.kt k).claim = some (u, b)) :
    Inv mutexOf
      ({ s with runQueue := Function.update s.runQueue k q }.goto k (.stackSwitch v args)) := by
  have hmem : v ∈ s.items (.runQueue k) := by simp [State.items, hq]
  obtain ⟨hstarted, hsaved, hhome⟩ := h.content (.runQueue k) v hmem
  have hkt : ∀ j, j ≠ k →
      ({ s with runQueue := Function.update s.runQueue k q }.goto k (.stackSwitch v args)).kt j =
        s.kt j := fun j hj => Function.update_of_ne hj ..
  have hk : ({ s with runQueue := Function.update s.runQueue k q }.goto k
      (.stackSwitch v args)).kt k = { s.kt k with pos := .stackSwitch v args } :=
    Function.update_self ..
  refine h.move (p := .runQueue k) (q := .executing k) hstarted ?_ (by simp [Place.On])
    (fun _ _ => rfl) rfl hkt (by rw [hk]; exact hcore) rfl trivial ?_ rfl
    (fun _ _ hx => .inl hx) (fun j _ b => h.not_claimed hstarted hmem (by simp [Place.On])
      (by simp) b)
    fun w b hc => ?_
  · refine ⟨by simp, ?_, ?_, fun r hp hr => ?_⟩
    · simp [State.items, hq, State.goto, State.setKT]
    · simp only [State.items, hk, hexec]
      simpa [KThread.executing, hcur] using List.Perm.swap v u []
    · cases r with
      | executing j => simp only [State.items, hkt j fun he => hr (by rw [he])]
      | switchingOut j =>
        by_cases hj : j = k
        · subst hj
          simp only [State.items, hk, hout]
          rfl
        · simp only [State.items, hkt j hj]
      | runQueue j => exact Function.update_of_ne (fun he => hp (by rw [he])) ..
      | blockingQueue | waker => rfl
  · rw [hk]
    exact ⟨.inr ⟨hstarted, hhome⟩, u, hcur, hleaves⟩
  · rw [hk] at hc ⊢
    simp only [KThread.claim, KThread.claimFor_eq, hcur, Option.some.injEq] at hc
    obtain ⟨hargs, rfl⟩ := hc
    refine ⟨hclaim b hargs, ?_⟩
    simp [KThread.claimPlace, State.items, hk, KThread.executing, hcur]

theorem inv_blockingSwitch [DecidableEq U] (h : Inv mutexOf s) (hpos : (s.kt k).pos = .run)
    (hs : blockingSwitch k s = some s') : Inv mutexOf s' := by
  unfold blockingSwitch at hs
  split_ifs at hs with hmain
  split at hs <;> cases hs
  next v q hq =>
    have hfits := h.fits k
    simp only [Fits, hpos] at hfits
    obtain ⟨u, hcur, -⟩ := hfits
    refine inv_pop h hq none hcur (by simp [KThread.executing, hpos, hcur])
      (by simp [KThread.switchingOut, hpos]) (by simp [KThread.core, hpos])
      (.inl (hmain ▸ hcur)) (by simp)

theorem inv_nonBlockingSwitch (h : Inv mutexOf s) {args : Option (Queue M B)}
    (hpos : (s.kt k).pos = .pop args) (hs : nonBlockingSwitch k args s = some s') :
    Inv mutexOf s' := by
  have hfits := h.fits k
  simp only [Fits, hpos] at hfits
  obtain ⟨u, hcur, hleaves⟩ := hfits
  have hexec : (s.kt k).executing = [u] := by simp [KThread.executing, hpos, hcur]
  have hout : (s.kt k).switchingOut = [] := by simp [KThread.switchingOut, hpos]
  unfold nonBlockingSwitch at hs
  rw [hcur] at hs
  split at hs
  next v q hq =>
    cases hs
    refine inv_pop h hq args hcur hexec hout (by simp [KThread.core, hpos]) (.inr hleaves) ?_
    intro b hargs
    simp [KThread.claim, hpos, KThread.claimFor_eq, hargs, hcur]
  next v m hq hv hm =>
    cases hv
    have hne : ∀ x, s.Started x → x ≠ m := by
      rintro x hx rfl
      rw [State.Started, h.world.mains k x hm] at hx
      exact absurd hx (by simp)
    have hw : u ∈ (s.kt k).executing := by simp [hexec]
    split_ifs at hs with hyield <;> cases hs
    · -- the yield falls through
      refine inv_goto h hw (by simp [KThread.core, hpos]) ?_ ?_ ?_ ?_ ?_
      · simp [KThread.executing, hpos]
      · simp [KThread.switchingOut, hpos]
      · simp [KThread.executing, KThread.switchingOut, hcur]
      · simp only [Leaves, hyield] at hleaves
        exact ⟨u, hcur, .inr ⟨hleaves.1, hleaves.2.1⟩⟩
      · simp [KThread.claim]
    · refine inv_goto h hw (by simp [KThread.core, hpos]) ?_ ?_ ?_ ?_ ?_
      · intro x hx
        simp [KThread.executing, hpos, hcur, hne x hx]
      · simp [KThread.switchingOut, hpos]
      · simp [KThread.executing, KThread.switchingOut, hcur, hne u hleaves.1]
      · exact ⟨.inl hm, u, hcur, .inr hleaves⟩
      · intro x b hc
        simp only [KThread.claim, KThread.claimFor_eq, KThread.claimPlace, hpos] at hc ⊢
        exact ⟨hc, trivial⟩
  next => exact absurd hs (by simp)

omit [DecidableEq K] in
/-- A stack pointer is stored or loaded. -/
theorem Inv.setSaved [DecidableEq U] (h : Inv mutexOf s) {next : U} {args : Option (Queue M B)}
    (hpos : (s.kt k).pos = .stackSwitch next args) (hw : w ∈ (s.kt k).executing) (b : Bool) :
    Inv mutexOf (s.setUT w { s.ut w with saved := b }) := by
  have hlife : ∀ v, ((s.setUT w { s.ut w with saved := b }).ut v).life = (s.ut v).life :=
    Update.apply_same (by rfl)
  have hhome : ∀ v,
      ((s.setUT w { s.ut w with saved := b }).ut v).homekThread = (s.ut v).homekThread :=
    Update.apply_same (by rfl)
  have hstate : ∀ v, ((s.setUT w { s.ut w with saved := b }).ut v).state = (s.ut v).state :=
    Update.apply_same (by rfl)
  refine h.stay (k := k) (p := .executing k) (.inl rfl) hw (fun v hv => Function.update_of_ne hv ..)
    (hlife w) (fun _ _ => rfl) (fun r _ => ?_) (fun r _ v _ => ?_) (fun r _ => h.filed.nodup r) ?_
    ?_ rfl rfl ?_
  · cases r <;> rfl
  · cases r <;> rfl
  · exact h.world.congr (Update.apply_same (by rfl)) (fun _ => rfl) fun _ => rfl
  · have hfits := h.fits k
    simp only [Fits, hpos, State.setUT] at hfits ⊢
    obtain ⟨hr, u, hc, hl⟩ := hfits
    refine ⟨hr.congr (hlife next) (hhome next), u, hc, hl.imp_right fun hl => ?_⟩
    exact hl.congr (hlife u) (hhome u) (hstate u)
  · intro v b hc
    obtain ⟨-, hstarted, hmem⟩ := h.claims.claimed k v b hc
    exact ⟨hstarted, hmem, .inl hc⟩

/-- The switch to the stack of `next`, once the stack pointers are stored and loaded. -/
theorem inv_saved (h : Inv mutexOf s) {next : U} {args : Option (Queue M B)}
    (hpos : (s.kt k).pos = .stackSwitch next args) (hcur : (s.kt k).currentUT = some u)
    (hsaved : (s.ut u).saved = true) : Inv mutexOf (s.goto k (.postSwitch next args)) := by
  have hfits := h.fits k
  simp only [Fits, hpos, hcur, Option.some.injEq, exists_eq_left'] at hfits
  obtain ⟨hruns, hmain | hleaves⟩ := hfits
  · -- `mainUT` has no place
    have hlife := h.world.mains k u hmain
    have hne : ∀ x, s.Started x → x ≠ u := by
      rintro x hx rfl
      rw [State.Started, hlife] at hx
      exact absurd hx (by simp)
    refine inv_goto (w := u) h (by simp [KThread.executing, hpos, hcur])
      (by simp [KThread.core, hpos]) ?_ ?_ ?_ ?_ ?_
    · intro x hx
      simp [KThread.executing, hpos, hcur, hne x hx]
    · intro x hx
      simpa [KThread.switchingOut, hpos, hcur] using hne x hx
    · simp [KThread.executing, KThread.switchingOut, hcur]
    · exact ⟨hruns, u, hcur, .inl hmain⟩
    · intro x b hc
      simp only [KThread.claim, KThread.claimFor_eq, hcur, Option.some.injEq] at hc
      obtain ⟨hargs, rfl⟩ := hc
      have hold : (s.kt k).claim = some (u, b) := by
        simp [KThread.claim, hpos, KThread.claimFor_eq, hargs, hcur]
      exact absurd rfl (hne u (h.claims.claimed k u b hold).2.1)
  · have hkt : ∀ j, j ≠ k → (s.goto k (.postSwitch next args)).kt j = s.kt j :=
      fun j hj => Function.update_of_ne hj ..
    have hk : (s.goto k (.postSwitch next args)).kt k =
        { s.kt k with pos := .postSwitch next args } := Function.update_self ..
    have hmem : u ∈ s.items (.executing k) := by
      simp [State.items, KThread.executing, hpos, hcur]
    refine h.move (k := k) (p := .executing k) (q := .switchingOut k) hleaves.1 ?_
      (fun j hj => hj.unique (.inl rfl)) (fun _ _ => rfl) rfl hkt
      (by simp [hk, KThread.core, hpos]) rfl trivial ?_ rfl (fun _ _ hx => .inl hx) ?_ ?_
    · refine ⟨by simp, ?_, ?_, fun r hp hq => ?_⟩
      · simp [State.items, hk, KThread.executing, hpos, hcur]
      · simp [State.items, hk, KThread.switchingOut, hpos, hcur]
      · exact State.items_congr hkt rfl rfl rfl fun hon => hon.elim hp hq
    · rw [hk]
      exact ⟨hruns, u, hcur, .inr ⟨hleaves, hsaved⟩⟩
    · intro j hj b
      exact h.not_claimed hleaves.1 hmem (fun hon => hj (hon.unique (.inl rfl))) (by simp) b
    · intro x b hc
      simp only [hk, KThread.claim, KThread.claimFor_eq, hcur, Option.some.injEq] at hc
      obtain ⟨hargs, rfl⟩ := hc
      refine ⟨by simp [KThread.claim, hpos, KThread.claimFor_eq, hargs, hcur], ?_⟩
      simp [hk, KThread.claimPlace, State.items, KThread.switchingOut, hcur]

theorem inv_stackSwitch [DecidableEq U] (h : Inv mutexOf s) {next : U} {args : Option (Queue M B)}
    (hpos : (s.kt k).pos = .stackSwitch next args) (hs : stackSwitch k next args s = some s') :
    Inv mutexOf s' := by
  have hfits := h.fits k
  simp only [Fits, hpos] at hfits
  obtain ⟨-, u, hcur, -⟩ := hfits
  have hexec : (s.kt k).executing = [u, next] := by simp [KThread.executing, hpos, hcur]
  have hne : u ≠ next := by
    have hnodup := h.filed.nodup (.executing k)
    simp only [State.items, hexec] at hnodup
    simpa using hnodup
  simp only [stackSwitch, hcur, Option.some.injEq] at hs
  subst hs
  have h₁ := h.setSaved hpos (w := u) (by simp [hexec]) true
  have h₂ := h₁.setSaved (w := next) hpos (by simp [State.setUT, hexec]) false
  set s₂ := (s.setUT u { s.ut u with saved := true }).setUT next
    { (s.setUT u { s.ut u with saved := true }).ut next with saved := false } with hs₂
  have hsaved : (s₂.ut u).saved = true := by simp [hs₂, State.setUT, hne]
  exact inv_saved h₂ hpos hcur hsaved

/-- The old uThread is dealt with, and is in `q` now. -/
theorem inv_deal (h : Inv mutexOf s) {next : U} {args : Option (Queue M B)} {x : Pos U M B}
    {q : Place K M B} (hpos : (s.kt k).pos = .postSwitch next args)
    (hcur : (s.kt k).currentUT = some u) (hu : s.Started u)
    (hx : x = .finish next ∨ ∃ q', x = .unlock next q')
    (hk : s'.kt k = { s.kt k with pos := x }) (hkt : ∀ j, j ≠ k → s'.kt j = s.kt j)
    (hq : ∀ j, ¬q.On j) (hinto : (s'.items q).Perm (u :: s.items q))
    (hother : ∀ r : Place K M B, (∀ j, ¬r.On j) → r ≠ q → s'.items r = s.items r)
    (hut : ∀ v, v ≠ u → s'.ut v = s.ut v) (hcore : (s'.ut u).core = (s.ut u).core)
    (hcluster : s'.cluster = s.cluster) (hcontent : Content s'.ut q u)
    (howner : s'.owner = s.owner) (hhands : s'.hands = s.hands)
    (hclaim : ∀ v b, (s'.kt k).claim = some (v, b) → (s.kt k).claim = some (v, b) ∧
      v ∈ s'.items ((s'.kt k).claimPlace k)) : Inv mutexOf s' := by
  have hold : s.items (.switchingOut k) = [u] := by
    simp [State.items, KThread.switchingOut, hpos, hcur]
  have hmem : u ∈ s.items (.switchingOut k) := by simp [hold]
  have hnext : s.items (.executing k) = [next] := by simp [State.items, KThread.executing, hpos]
  have hexec : s'.items (.executing k) = [next] := by
    rw [State.items, hk]
    rcases hx with rfl | ⟨q', rfl⟩ <;> rfl
  have hout : s'.items (.switchingOut k) = [] := by
    rw [State.items, hk]
    rcases hx with rfl | ⟨q', rfl⟩ <;> rfl
  refine h.move (k := k) (p := .switchingOut k) (q := q) hu ?_ (fun j hj => hj.unique (.inr rfl))
    hut hcore hkt ?_ hcluster hcontent ?_ howner (fun j y hy => .inl (hhands ▸ hy)) ?_ hclaim
  · refine ⟨fun he => hq k (.inr he.symm), ?_, hinto, fun r hp hr => ?_⟩
    · rw [hold, hout]
    · cases r with
      | executing j =>
        by_cases hj : j = k
        · subst hj
          rw [hexec, hnext]
        · simp only [State.items, hkt j hj]
      | switchingOut j => simp only [State.items, hkt j fun he => hp (by rw [he])]
      | runQueue | blockingQueue | waker => exact hother _ (by simp [Place.On]) hr
  · rw [hk]
    rcases hx with rfl | ⟨q', rfl⟩ <;> simp [KThread.core, hpos]
  · have hfits := h.fits k
    simp only [Fits, hpos] at hfits
    have hne : next ≠ u := by
      rintro rfl
      have hplace := h.filed.unique (q := .executing k) hu hmem (by simp [hnext])
      exact absurd hplace (by simp)
    have hruns : Runs s'.ut k (s.kt k) next :=
      hfits.1.congr (by rw [hut next hne]) (by rw [hut next hne])
    rw [hk]
    rcases hx with rfl | ⟨q', rfl⟩ <;> exact hruns
  · intro j hj b
    exact h.not_claimed hu hmem (fun hon => hj (hon.unique (.inr rfl))) (by simp) b

/-- `resume()` of a uThread that yields or migrates -/
theorem inv_reschedule [DecidableEq U] (h : Inv mutexOf s) {next : U}
    {args : Option (Queue M B)} {home : K} (hpos : (s.kt k).pos = .postSwitch next args)
    (hcur : (s.kt k).currentUT = some u) (hu : (s.ut u).life = .started)
    (hsaved : (s.ut u).saved = true) (hhome : (s.ut u).homekThread = some home) :
    Inv mutexOf
      (((s.setUT u { s.ut u with state := .ready }).schedule u home).goto k (.finish next)) := by
  refine inv_deal (x := .finish next) (q := .runQueue home) h hpos hcur hu (.inl rfl)
    (Function.update_self ..) (fun j hj => Function.update_of_ne hj ..) (by simp [Place.On]) ?_
    (fun r hon hr => ?_) (fun v hv => Function.update_of_ne hv ..) ?_ rfl ?_ rfl rfl ?_
  · simp [State.items, State.goto, State.setKT, State.schedule, State.setUT]
  · cases r with
    | executing j => exact absurd (.inl rfl) (hon j)
    | switchingOut j => exact absurd (.inr rfl) (hon j)
    | runQueue j => exact Function.update_of_ne (fun he => hr (by rw [he])) ..
    | blockingQueue | waker => rfl
  · simp [State.goto, State.setKT, State.schedule, State.setUT, UThread.core, hu]
  · simp [Content, State.goto, State.setKT, State.schedule, State.setUT, hu, hsaved, hhome]
  · simp [State.goto, State.setKT, KThread.claim]

/-- `queue.push_back(*ut)` of `postSuspendFunc` -/
theorem inv_park [DecidableEq M] [DecidableEq B] (h : Inv mutexOf s) {next : U} {q : Queue M B}
    (hpos : (s.kt k).pos = .postSwitch next (some q)) (hcur : (s.kt k).currentUT = some u)
    (hu : (s.ut u).life = .started) (hsaved : (s.ut u).saved = true)
    (hstate : (s.ut u).state = .waiting) :
    Inv mutexOf
      ({ s with bq := Function.update s.bq q (s.bq q ++ [u]) }.goto k (.unlock next q)) := by
  have hk : ({ s with bq := Function.update s.bq q (s.bq q ++ [u]) }.goto k (.unlock next q)).kt k =
      { s.kt k with pos := .unlock next q } := Function.update_self ..
  refine inv_deal (x := .unlock next q) (q := .blockingQueue q) h hpos hcur hu (.inr ⟨q, rfl⟩) hk
    (fun j hj => Function.update_of_ne hj ..) (by simp [Place.On]) ?_ (fun r hon hr => ?_)
    (fun _ _ => rfl) rfl rfl ⟨hu, hsaved, hstate⟩ rfl rfl fun v b hc => ?_
  · simp [State.items, State.goto, State.setKT]
  · cases r with
    | executing j => exact absurd (.inl rfl) (hon j)
    | switchingOut j => exact absurd (.inr rfl) (hon j)
    | blockingQueue q' => exact Function.update_of_ne (fun he => hr (by rw [he])) ..
    | runQueue | waker => rfl
  · simp only [hk, KThread.claim, KThread.claimFor_eq, hcur, Option.some.injEq] at hc
    obtain ⟨hq, rfl⟩ := hc
    refine ⟨by simp [KThread.claim, hpos, KThread.claimFor_eq, hq, hcur], ?_⟩
    simp [KThread.claimPlace, State.items, State.goto, State.setKT]

/-- `destory(false)` -/
theorem inv_destroy [DecidableEq U] (h : Inv mutexOf s) {next : U} {args : Option (Queue M B)}
    (hpos : (s.kt k).pos = .postSwitch next args) (hcur : (s.kt k).currentUT = some u)
    (hu : s.Started u) {x : UThread K C} (hx : x.life = .absent) :
    Inv mutexOf ((s.setUT u x).goto k (.finish next)) := by
  have hut : ∀ v, v ≠ u → ((s.setUT u x).goto k (.finish next)).ut v = s.ut v :=
    fun v hv => Function.update_of_ne hv ..
  have hgone : (((s.setUT u x).goto k (.finish next)).ut u).life = .absent := by
    simp [State.goto, State.setKT, State.setUT, hx]
  have hkt : ∀ j, j ≠ k → ((s.setUT u x).goto k (.finish next)).kt j = s.kt j :=
    fun j hj => Function.update_of_ne hj ..
  have hk : ((s.setUT u x).goto k (.finish next)).kt k = { s.kt k with pos := .finish next } :=
    Function.update_self ..
  have hold : s.items (.switchingOut k) = [u] := by
    simp [State.items, KThread.switchingOut, hpos, hcur]
  have hmem : u ∈ s.items (.switchingOut k) := by simp [hold]
  have hother : ∀ r : Place K M B, r ≠ .switchingOut k →
      ((s.setUT u x).goto k (.finish next)).items r = s.items r := by
    intro r hr
    by_cases hon : r.On k
    · rw [hon.resolve_right hr]
      simp [State.items, hk, KThread.executing, hpos]
    · exact State.items_congr hkt rfl rfl rfl hon
  have hstarted : ∀ v, v ≠ u → s.Started v → ((s.setUT u x).goto k (.finish next)).Started v := by
    intro v hv hs
    rw [State.Started, hut v hv]
    exact hs
  refine ⟨?_, fun r v hv => ?_, fun j => ?_, ?_, ?_⟩
  · refine h.filed.leave (t := u) (p := .switchingOut k) (fun v hv => ?_) ?_ hother
    · have hne : v ≠ u := by
        rintro rfl
        rw [State.Started, hgone] at hv
        exact absurd hv (by simp)
      rw [State.Started, hut v hne] at hv
      exact ⟨hv, hne⟩
    · rw [hold]
      simp [State.items, hk, KThread.switchingOut]
  · by_cases hr : r = .switchingOut k
    · subst hr
      trivial
    · rw [hother r hr] at hv
      exact h.content_congr hut (.inr rfl) hmem hv
  · by_cases hj : j = k
    · subst hj
      have hfits := h.fits j
      simp only [Fits, hpos] at hfits
      have hne : next ≠ u := by
        rintro rfl
        have hplace := h.filed.unique (q := .executing j) hu hmem
          (by simp [State.items, KThread.executing, hpos])
        exact absurd hplace (by simp)
      rw [hk]
      exact hfits.1.congr (by rw [hut next hne]) (by rw [hut next hne])
    · exact h.fits_congr (hkt j hj) hut fun r hr hur => hj (h.on_unique hr (.inr rfl) hur hmem)
  · refine h.world.update hut (fun j => Update.apply_same ?_ j) (fun _ => rfl) ?_ ?_ ?_
    · simp [KThread.core, hpos, State.setUT]
    · simp [show (s.ut u).life = .started from hu]
    · simp [hgone]
    · simp [hgone]
  · refine h.claims.step rfl (fun _ _ hy => .inl hy) hkt (fun j hj v b hc => ?_) ?_
    · obtain ⟨-, hv, hvmem⟩ := h.claims.claimed j v b hc
      have hne : v ≠ u := by
        rintro rfl
        exact h.not_claimed hu hmem (fun hon => hj (hon.unique (.inr rfl))) (by simp) b hc
      refine ⟨hstarted v hne hv, ?_⟩
      rw [hother _ fun he => ?_]
      · exact hvmem
      · rw [he, hold, List.mem_singleton] at hvmem
        exact hne hvmem
    · simp [hk, KThread.claim]

theorem inv_postSwitchFunc [DecidableEq U] [DecidableEq C] [DecidableEq M] [DecidableEq B]
    (h : Inv mutexOf s) {next : U} {args : Option (Queue M B)} {n : ℕ}
    (hpos : (s.kt k).pos = .postSwitch next args)
    (hs : postSwitchFunc k next args n s = some s') : Inv mutexOf s' := by
  have hfits := h.fits k
  simp only [Fits, hpos] at hfits
  obtain ⟨hruns, u, hcur, hdo⟩ := hfits
  simp only [postSwitchFunc, hcur] at hs
  split_ifs at hs with hmain
  · cases hs
    have hlife := h.world.mains k u hmain.symm
    refine inv_goto (w := next) h (by simp [KThread.executing, hpos]) (by simp [KThread.core, hpos])
      ?_ ?_ ?_ hruns (by simp [KThread.claim])
    · simp [KThread.executing, hpos]
    · intro x hx
      have hne : x ≠ u := by
        rintro rfl
        rw [State.Started, hlife] at hx
        exact absurd hx (by simp)
      simpa [KThread.switchingOut, hpos, hcur] using hne
    · simp [KThread.executing, KThread.switchingOut]
  · obtain ⟨⟨hstarted, hstate⟩, hsaved⟩ := hdo.resolve_left fun hm => hmain hm.symm
    obtain ⟨home, c, hhome, -, -⟩ := h.world.homed u hstarted
    cases hst : (s.ut u).state <;> simp only [hst] at hs hstate
    case terminated =>
      cases hs
      exact inv_destroy h hpos hcur hstarted rfl
    case yield | migrate =>
      rw [resume_of_home (by simp [hst, UState.resumable]) hhome] at hs
      cases hs
      exact inv_reschedule h hpos hcur hstarted hsaved hhome
    case waiting =>
      obtain ⟨q, rfl⟩ := hstate
      cases hs
      exact inv_park h hpos hcur hstarted hsaved hst

/-- The position of the kThread does not matter to `release`. -/
theorem release_goto [DecidableEq U] [DecidableEq M] [DecidableEq B] {m : M} {x : Pos U M B}
    (hs : release k u m s = some s') : release k u m (s.goto k x) = some (s'.goto k x) := by
  unfold release at hs ⊢
  split_ifs at hs with hm
  simp only [State.goto, State.setKT, hm, if_true]
  split at hs <;> cases hs <;> simp_all

theorem inv_unlock [DecidableEq U] [DecidableEq M] [DecidableEq B] (h : Inv mutexOf s) {next : U}
    {q : Queue M B} (hpos : (s.kt k).pos = .unlock next q)
    (hs : unlock mutexOf k next q s = some s') : Inv mutexOf s' := by
  have hfits := h.fits k
  simp only [Fits, hpos] at hfits
  have hgoto : Inv mutexOf (s.goto k (.finish next)) := by
    refine inv_goto (w := next) h (by simp [KThread.executing, hpos]) (by simp [KThread.core, hpos])
      ?_ ?_ ?_ hfits (by simp [KThread.claim])
    · simp [KThread.executing, hpos]
    · simp [KThread.switchingOut, hpos]
    · simp [KThread.executing, KThread.switchingOut]
  cases q with
  | mutex m =>
    simp only [unlock, Option.some.injEq] at hs
    subst hs
    exact hgoto
  | client b =>
    cases hcur : (s.kt k).currentUT with
    | none => simp [unlock, hcur] at hs
    | some u =>
      simp only [unlock, hcur] at hs
      split at hs <;> cases hs
      next s₁ hs₁ =>
        have hclaim : (s.kt k).claim = some (u, b) := by
          simp [KThread.claim, hpos, KThread.claimFor_eq, hcur]
        obtain ⟨-, hu, hmem⟩ := h.claims.claimed k u b hclaim
        refine inv_release hgoto (fun j b' hc => ?_) (fun j hj => ?_) (release_goto hs₁)
        · by_cases hj : j = k
          · subst hj
            simp [State.goto, State.setKT, KThread.claim] at hc
          · simp only [State.goto, State.setKT, Function.update_of_ne hj] at hc
            exact hj (h.claims.alone j k u b' b hc hclaim)
        · have hplace := h.filed.unique hu hmem (show u ∈ s.items (.waker j) from hj)
          simp [KThread.claimPlace, hpos] at hplace

theorem inv_finish [DecidableEq U] (h : Inv mutexOf s) {next : U}
    (hpos : (s.kt k).pos = .finish next) (hs : finish k next s = some s') : Inv mutexOf s' := by
  unfold finish at hs
  split at hs <;> cases hs
  set s' := (s.setUT next { s.ut next with state := .running }).setKT k
    { s.kt k with currentUT := some next, pos := .run } with hs'
  have hfits := h.fits k
  simp only [Fits, hpos] at hfits
  have hut : ∀ v, v ≠ next → s'.ut v = s.ut v := fun v hv => Function.update_of_ne hv ..
  have hlife : (s'.ut next).life = (s.ut next).life := by simp [hs', State.setKT, State.setUT]
  have hkt : ∀ j, j ≠ k → s'.kt j = s.kt j := fun j hj => Function.update_of_ne hj ..
  have hk : s'.kt k = { s.kt k with currentUT := some next, pos := .run } := Function.update_self ..
  have hitems : ∀ r : Place K M B, r.On k → s'.items r = s.items r := by
    rintro r (rfl | rfl) <;> simp [State.items, hk, KThread.executing, KThread.switchingOut, hpos]
  refine h.stay (p := .executing k) (.inl rfl) ?_ hut hlife hkt
    (fun r hr => State.items_congr hkt rfl rfl rfl hr) (fun r hr v _ => by rw [hitems r hr])
    (fun r hr => by rw [hitems r hr]; exact h.filed.nodup r) ?_ ?_ rfl rfl ?_
  · simp [State.items, KThread.executing, hpos]
  · refine h.world.congr (Update.apply_same ?_) (Update.apply_same ?_) fun _ => rfl
    · rcases hfits with hmain | hstarted
      · simp [UThread.core, h.world.mains k next hmain]
      · simp [UThread.core, hstarted.1]
    · simp [KThread.core, hpos, State.setUT]
  · rw [hk]
    exact ⟨next, rfl, hfits.congr hlife (by simp [hs', State.setKT, State.setUT])⟩
  · simp [hk, KThread.claim]

end Switch

end UThreads.Runtime
