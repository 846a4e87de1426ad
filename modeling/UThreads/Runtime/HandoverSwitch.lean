import UThreads.Runtime.HandoverInv
import UThreads.Runtime.KThreadCalls
import UThreads.Schedulers.Scheduler01Queue

/-!
# How uThreads are handed over: `resume` and switching

A planned call leads to a next state (`Call.Leads`). **`resume_leads`** says what `resume()` does,
and **`resume_agrees`** that this is what it does in the model of `Runtime.KThread`, as far as the
uThreads and the run queues go (`Agrees`). The other lemmas say that the steps of a switch keep the
invariant, one for each function of the model.
-/

namespace UThreads.Handover

open IOHandler (Slot)

variable {U K C B D : Type*} [DecidableEq U] [DecidableEq K] [DecidableEq C] [DecidableEq B]
  [DecidableEq D]

variable {labels counts : Prop} {cfg : Config K C} {s s' s₀ : Ctl U K C B D} {l l' : Lists U K C B}
  {u v w : U} {j k : K} {p q y : Loc K C B D} {x : Cont K C B} {us : List U}

/-- The call `x` leads to `s'` and `l'`. -/
def Call.Leads (x : Call U K C B D) (l : Lists U K C B) (s' : Ctl U K C B D)
    (l' : Lists U K C B) : Prop :=
  ∃ r, l.exec x.op = some (r, l') ∧ x.next r = some s'

theorem step_eq_some {a : Action U K C B D} :
    step lists cfg (s, l) a = some (s', l') ↔ ∃ x, plan cfg s a = some x ∧ x.Leads l s' l' := by
  simp only [step, lists, Call.Leads, Option.bind_eq_some_iff, Option.map_eq_some_iff,
    Prod.mk.injEq]
  constructor
  · rintro ⟨x, hx, ⟨r, l₁⟩, hexec, s₁, hnext, rfl, rfl⟩
    exact ⟨x, hx, r, hexec, hnext⟩
  · rintro ⟨x, hx, r, hexec, hnext⟩
    exact ⟨x, hx, (r, l'), hexec, s', hnext, rfl, rfl⟩

omit [DecidableEq U] [DecidableEq D] in
theorem Ctl.call_leads (h : s.call.Leads l s' l') : s' = s ∧ l' = l := by
  obtain ⟨r, hexec, hnext⟩ := h
  simp only [Ctl.call, Lists.exec, Option.some.injEq, Prod.mk.injEq] at hexec hnext
  exact ⟨hnext.symm, hexec.2.symm⟩

omit [DecidableEq U] [DecidableEq D] in
theorem Call.andThen_leads {x : Call U K C B D} {f : Ctl U K C B D → Ctl U K C B D}
    (h : (x.andThen f).Leads l s' l') : ∃ s₁, x.Leads l s₁ l' ∧ s' = f s₁ := by
  obtain ⟨r, hexec, hnext⟩ := h
  obtain ⟨s₁, hs₁, rfl⟩ := Option.map_eq_some_iff.mp hnext
  exact ⟨s₁, ⟨r, hexec, hs₁⟩, rfl⟩

/-- The run queue that `schedule(ut, kt)` puts a uThread on. -/
def runCont (cfg : Config K C) (k : K) : Cont K C B :=
  match cfg.sched with
  | .one => .queue (.queue (cfg.localCluster k))
  | .two => .runQueue k

/-- Everything but the containers after `resume()` of `u`, which goes to kThread `home` -/
def resumed (cfg : Config K C) (u : U) (home : K) (s : Ctl U K C B D) : Ctl U K C B D :=
  { s.setUT u { s.ut u with state := .ready, homekThread := some home } with
    size := match cfg.sched with
      | .one => Function.update s.size (cfg.localCluster home) (s.size (cfg.localCluster home) + 1)
      | .two => s.size }

omit [DecidableEq U] [DecidableEq D] in
theorem schedule_leads (h : (schedule cfg u k s).Leads l s' l') :
    l' = l.push (runCont cfg k) u ∧ s' = { s with size := match cfg.sched with
      | .one => Function.update s.size (cfg.localCluster k) (s.size (cfg.localCluster k) + 1)
      | .two => s.size } := by
  obtain ⟨r, hexec, hnext⟩ := h
  cases hs : cfg.sched <;>
  · simp only [schedule, hs, Lists.exec, Option.some.injEq, Prod.mk.injEq] at hexec hnext
    simp [runCont, hs, ← hexec.2, ← hnext]

omit [DecidableEq D] in
/-- **`resume()`**: nothing happens, or `u` is READY and goes to a run queue. -/
theorem resume_leads {home : K} {x : Call U K C B D} (h : resume cfg u home s = some x)
    (hx : x.Leads l s' l') : ((s.ut u).state.resumable = false ∧ s' = s ∧ l' = l) ∨
      ((s.ut u).state.resumable = true ∧
        ∃ i, l' = l.push (runCont cfg i) u ∧ s' = resumed cfg u i s) := by
  unfold resume at h
  split at h
  next hr =>
    refine .inr ⟨hr, ?_⟩
    split at h
    next i hi =>
      cases h
      obtain ⟨hl, hs⟩ := schedule_leads hx
      refine ⟨i, hl, ?_⟩
      rw [hs, resumed, ← hi]
      rfl
    next c hhome hc =>
      split at h
      · cases h
        obtain ⟨hl, hs⟩ := schedule_leads hx
        exact ⟨home, hl, hs⟩
      · cases h
    next => cases h
  next hr =>
    cases h
    obtain ⟨hs, hl⟩ := Ctl.call_leads hx
    exact .inl ⟨by simpa using hr, hs, hl⟩

/-! ## `resume()` in the model of `Runtime.KThread` -/

section Agrees

variable {M Q : Type*} {t t' : Runtime.State K U C M Q}

/-- The uThreads and the run queues are those of `t`. -/
structure Agrees (s : Ctl U K C B D) (l : Lists U K C B) (t : Runtime.State K U C M Q) : Prop where
  state : ∀ v, (s.ut v).state = (t.ut v).state
  home : ∀ v, (s.ut v).homekThread = (t.ut v).homekThread
  current : ∀ v, (s.ut v).currentCluster = (t.ut v).currentCluster
  ktVector : ∀ c, s.ktVector c = (t.cluster c).ktVector
  runQueue : ∀ k, l (.runQueue k) = t.runQueue k

omit [DecidableEq D] in
/-- `u` is READY, at home on `k`, and on its run queue. -/
theorem Agrees.resumed (h : Agrees s l t) (hcfg : cfg.sched = .two) :
    Agrees (resumed cfg u k s) (l.push (runCont cfg k) u)
      ((t.setUT u { t.ut u with state := .ready, homekThread := some k }).schedule u k) := by
  have hcont : (runCont cfg k : Cont K C B) = .runQueue k := by simp [runCont, hcfg]
  constructor
  case ktVector => exact h.ktVector
  case runQueue =>
    intro j
    by_cases hj : j = k
    · simp [hj, Lists.push, hcont, Runtime.State.schedule, Runtime.State.setUT, h.runQueue]
    · simp [hj, Lists.push, hcont, Runtime.State.schedule, Runtime.State.setUT, h.runQueue]
  all_goals
    intro v
    by_cases hv : v = u
    · simp [hv, Handover.resumed, Ctl.setUT, Runtime.State.schedule, Runtime.State.setUT, h.current]
    · simp [hv, Handover.resumed, Ctl.setUT, Runtime.State.schedule, Runtime.State.setUT, h.state,
        h.home, h.current]

omit [DecidableEq D] in
/-- A `resume()` there is one here, when the scheduler is `Scheduler_02`. -/
theorem resume_agrees [Nonempty K] (hcfg : cfg.sched = .two) (h : Agrees s l t) {n : ℕ}
    (ht : Runtime.resume u n t = some t') :
    ∃ home x s' l', resume cfg u home s = some x ∧ x.Leads l s' l' ∧ Agrees s' l' t' := by
  have hlead : ∀ k, (schedule cfg u k (s.setUT u
      { s.ut u with state := .ready, homekThread := some k })).Leads l (resumed cfg u k s)
      (l.push (runCont cfg k) u) := by
    intro k
    simp [Call.Leads, schedule, hcfg, Lists.exec, runCont, Handover.resumed, Ctl.setUT]
  unfold Runtime.resume at ht
  split at ht
  next hr =>
    split at ht
    next k hk =>
      cases ht
      -- `u` has its home already.
      have hs : s.setState u .ready = s.setUT u
          { s.ut u with state := .ready, homekThread := some k } := by
        rw [Ctl.setState, ← hk, ← h.home]
      have ht : ({ t.ut u with state := .ready } : Runtime.UThread K C) =
          { t.ut u with state := .ready, homekThread := some k } := by
        rw [← hk]
      refine ⟨k, _, _, _, ?_, hlead k, ?_⟩
      · simp [resume, h.state, hr, h.home, hk, hs]
      · rw [ht]
        exact h.resumed hcfg
    next c hnone hc =>
      split at ht
      next k t₁ hassign =>
        cases ht
        obtain ⟨hmem, rfl⟩ := Runtime.assignkThread_spec hassign
        refine ⟨k, _, _, _, ?_, hlead k, ?_⟩
        · simp [resume, h.state, hr, h.home, hnone, h.current, hc, h.ktVector, hmem]
        · have hlast : Agrees s l { t with
              cluster := Function.update t.cluster c { t.cluster c with ktLast := n } } := by
            refine ⟨h.state, h.home, h.current, fun d => ?_, h.runQueue⟩
            by_cases hd : d = c
            · simp [hd, h.ktVector]
            · simp [hd, h.ktVector]
          exact hlast.resumed hcfg
      next => cases ht
    next => cases ht
  next hr =>
    cases ht
    obtain ⟨k⟩ := ‹Nonempty K›
    exact ⟨k, s.call, s, l, by simp [resume, h.state, hr], ⟨_, rfl, rfl⟩, h⟩

end Agrees

/-! ## `resume()` -/

omit [DecidableEq K] [DecidableEq B] [DecidableEq D] in
theorem at_resumed : At (resumed cfg u k s) l w y ↔ At s l w y := by
  have hat : At (s.setUT u { s.ut u with state := .ready, homekThread := some k }) l w y ↔
    At s l w y := at_setUT rfl
  rw [← hat]
  cases y <;> rfl

omit [DecidableEq D] in
theorem Counted.resumed (h : Counted cfg s l) : Counted cfg (resumed cfg u k s)
    (l.push (runCont cfg k) u) := by
  have hcurrent : ∀ w c, ((Handover.resumed cfg u k s).ut w).currentCluster = some c →
    s.cluster c = true :=
    (h.setUT (u := u) (z := { s.ut u with state := .ready, homekThread := some k })
      (h.current u)).current
  cases hs : cfg.sched with
  | one =>
    have hcont : (runCont cfg k : Cont K C B) = .queue (.queue (cfg.localCluster k)) := by
      simp [runCont, hs]
    rw [hcont]
    refine h.congr (fun c => ?_) (by simpa [Lists.push, Handover.resumed, Ctl.setUT] using h.cache)
      (by simpa [Lists.push, Handover.resumed, Ctl.setUT] using h.filled) hcurrent rfl rfl
        (fun _ => Iff.rfl)
      (fun _ => by simp [Lists.push]) (by simp [Lists.push])
    by_cases hc : c = cfg.localCluster k
    · subst hc
      simp [Handover.resumed, hs, Lists.push, h.size, BitVec.ofNat_add]
    · simp [Handover.resumed, hs, Lists.push, h.size, hc]
  | two =>
    have hcont : (runCont cfg k : Cont K C B) = .runQueue k := by simp [runCont, hs]
    rw [hcont]
    exact h.congr (by simpa [Lists.push, Handover.resumed, Ctl.setUT, hs] using h.size)
      (by simpa [Lists.push, Handover.resumed, Ctl.setUT] using h.cache)
      (by simpa [Lists.push, Handover.resumed, Ctl.setUT] using h.filled) hcurrent rfl rfl
        (fun _ => Iff.rfl)
      (fun _ => by simp [Lists.push]) (by simp [Lists.push])

omit [DecidableEq D] in
/-- `u`, which has left its place, is resumed. -/
theorem Inv.resumed (h : Inv labels counts cfg s l) (hp : At s l u p) (hpx : ∀ x, p ≠ .cont x)
    (hgone : ∀ w y, At s₀ l w y ↔ At s l w y ∧ ¬(w = u ∧ y = p))
    (hold : ∀ w y, w ≠ u → At s l w y → Good labels s w y → Good labels s₀ w y)
    (hhands : ∀ k, (s₀.hands k).Nodup) (hcounted : counts → Counted cfg s₀ l) :
    Inv labels counts cfg (resumed cfg u k s₀) (l.push (runCont cfg k) u) := by
  refine h.push hp hpx (List.perm_append_singleton ..)
    (fun w y => at_resumed.trans (hgone w y)) ?_ ?_ hhands
    fun hc => (hcounted hc).resumed
  · have hstate : ((Handover.resumed cfg u k s₀).ut u).state = .ready := by
      simp [Handover.resumed, Ctl.setUT]
    unfold runCont
    cases cfg.sched <;> exact fun _ _ => hstate
  · intro w y hw hy hg
    refine (hold w y hw hy hg).congr ?_ id fun _ _ => rfl
    simp [Handover.resumed, Ctl.setUT, hw]

omit [DecidableEq D] in
/-- `start` -/
theorem inv_start {c : C} {home : K} {x : Call U K C B D} (h : Inv labels counts cfg s l)
    (hlife : (s.ut u).life = .created) (hc : s.cluster c = true)
    (hr : resume cfg u home (s.setUT u { s.ut u with life := .inUse, currentCluster := some c }) =
    some x) (hx : x.Leads l s' l') : Inv labels counts cfg s' l' := by
  have hnew : s.ut u = newUT := h.good u .created hlife
  rcases resume_leads hr hx with ⟨hno, -⟩ | ⟨-, i, rfl, rfl⟩
  · simp [Ctl.setUT, hnew, newUT, Runtime.UState.resumable] at hno
  · refine h.resumed (p := .created) hlife (by simp) (fun w y => ?_) (fun w y hw _ hg => ?_) h.hands
      fun hct => ?_
    · cases y <;> simp [At, Ctl.setUT, Function.update_apply] <;> grind
    · exact hg.congr (by simp [Ctl.setUT, hw]) id fun _ _ => rfl
    · apply (h.counted hct).setUT
      rintro _ ⟨⟩
      exact hc

omit [DecidableEq D] in
/-- `owner->resume()` -/
theorem inv_wake {home : K} {x : Call U K C B D} (h : Inv labels counts cfg s l)
    (hhands : s.hands k = u :: us)
    (hr : resume cfg u home (s.setHands k us) = some x) (hx : x.Leads l s' l') :
    Inv labels counts cfg s' l' := by
  have hmem : At s l u (.hand k) := by simp [At, hhands]
  have hstate : (s.ut u).state = .waiting := h.good u _ hmem
  have hnodup := h.hands k
  rw [hhands, List.nodup_cons] at hnodup
  rcases resume_leads hr hx with ⟨hno, -⟩ | ⟨-, i, rfl, rfl⟩
  · simp [Ctl.setHands, hstate, Runtime.UState.resumable] at hno
  · refine h.resumed hmem (by simp) (fun w y => ?_) (fun w y _ _ hg => ?_)
      (fun j => ?_) fun hct => ?_
    · cases y <;> simp [At, Ctl.setHands, Function.update_apply]
      grind
    · exact hg.congr rfl id fun _ _ => rfl
    · by_cases hj : j = k
      · subst hj
        simpa [Ctl.setHands] using hnodup.2
      · simpa [Ctl.setHands, hj] using h.hands j
    · have hcounted := h.counted hct
      exact { hcounted with }

omit [DecidableEq D] in
/-- `u`, which is leaving kThread `k`, is resumed. -/
theorem inv_post_resume (s₀ : Ctl U K C B D) {home : K} {args : Option (Arg B D)} {next : Option U}
    {x : Call U K C B D} (h : Inv labels counts cfg s l) (hpos : s.pos k = .post u args next)
    (hstate : (s.ut u).state.resumable = true)
    (hslot : ∀ d w, s₀.slot d = .parked w ↔ s.slot d = .parked w)
    (hs₀ : s₀ = { s with slot := s₀.slot })
    (hr : (resume cfg u home s₀).map (·.andThen (·.goto k (.finish next))) = some x)
    (hx : x.Leads l s' l') : Inv labels counts cfg s' l' := by
  obtain ⟨x, hresume, rfl⟩ := Option.map_eq_some_iff.mp hr
  obtain ⟨s₁, hleads, rfl⟩ := Call.andThen_leads hx
  have hut : s₀.ut = s.ut := by rw [hs₀]
  have hcur : At s l u (.cur k) := by simp [At, hpos, Pos.cur]
  rcases resume_leads hresume hleads with ⟨hno, -⟩ | ⟨-, i, rfl, rfl⟩
  · rw [hut, hstate] at hno
    cases hno
  · change Inv labels counts cfg (Handover.resumed cfg u i (s₀.goto k (.finish next))) _
    rw [hs₀]
    refine h.resumed hcur (by simp) (fun w y => ?_) (fun w y hw hy hg => ?_) h.hands fun hct => ?_
    · cases y with
      | cur j =>
        by_cases hj : j = k
        · subst hj
          simp [At, Ctl.goto, Pos.cur, hpos, eq_comm]
        · simp [At, Ctl.goto, hj]
      | next j =>
        by_cases hj : j = k
        · subst hj
          simp [At, Ctl.goto, Pos.next, hpos]
        · simp [At, Ctl.goto, hj]
      | slot d => simp [At, Ctl.goto, hslot]
      | _ => simp [At, Ctl.goto]
    · refine hg.goto hy rfl id rfl ?_
      simpa [hpos, Pos.cur] using Ne.symm hw
    · have hcounted : Counted cfg { s with slot := s₀.slot } l := { h.counted hct with }
      exact hcounted.goto (by simp [Pos.filled])

/-! ## Switching -/

omit [DecidableEq U] [DecidableEq C] [DecidableEq B] [DecidableEq D] in
/-- kThread `k` goes on, with the same uThreads. -/
theorem Inv.goto {pos pos' : Pos U B D} (h : Inv labels counts cfg s l) (hpos : s.pos k = pos)
    (hcur : pos'.cur = pos.cur) (hnext : pos'.next = pos.next) (hfilled : pos'.filled = false)
    (hgood : ∀ w, Good labels s w (.cur k) → pos.cur = some w →
    Good labels (s.goto k pos') w (.cur k)) : Inv labels counts cfg (s.goto k pos') l := by
  subst hpos
  refine h.stay (fun w y => ?_) (fun w y hy hg => ?_) rfl fun hct =>
    (h.counted hct).goto (by simp [hfilled])
  · exact at_goto_same hcur hnext
  · by_cases hyk : y = .cur k
    · subst hyk
      exact hgood w hg hy
    · refine hg.congr rfl id ?_
      rintro j rfl
      have hj : j ≠ k := fun he => hyk (he ▸ rfl)
      simp [Ctl.goto, hj]

omit [DecidableEq U] [DecidableEq D] in
/-- The first uThread of `runQueue` or `lrq` is the next one of kThread `k`. -/
theorem Inv.popNext {pos pos' : Pos U B D} (h : Inv labels counts cfg s l) (hx : l x = v :: us)
    (hrun : x = .runQueue k ∨ x = .queue (.lrq k)) (hpos : s.pos k = pos)
    (hcur : pos'.cur = pos.cur)
    (hnone : pos.next = none) (hnext : pos'.next = some v) (hleaving : pos'.leaving = pos.leaving)
    (hfilled : pos'.filled = false) : Inv labels counts cfg (s.goto k pos')
    (Function.update l x us) := by
  subst hpos
  have hleave : ∀ j, ((s.goto k pos').pos j).leaving = (s.pos j).leaving := by
    intro j
    by_cases hj : j = k
    · subst hj
      simp [Ctl.goto, hleaving]
    · simp [Ctl.goto, hj]
  refine h.pop hx (q := .next k) (by simp) (fun w y => ?_) (fun hlab => ?_)
    (fun w y _ _ hg => ?_) h.hands
    fun hct => ?_
  · rw [at_goto]
    grind [At]
  · have hat : At s l v (.cont x) := by simp [At, hx]
    have hg := h.good v _ hat
    rcases hrun with rfl | rfl <;> exact hg hlab rfl
  · exact hg.congr rfl id fun j _ => hleave j
  · have hcounted : Counted cfg (s.goto k pos') l := (h.counted hct).goto (by simp [hfilled])
    have hbulk : ∀ j, Function.update l x us (.queue (.bulkQueue j)) =
        l (.queue (.bulkQueue j)) := by
      intro j
      rcases hrun with rfl | rfl <;> simp
    have hqueue : ∀ c, Function.update l x us (.queue (.queue c)) = l (.queue (.queue c)) := by
      intro c
      rcases hrun with rfl | rfl <;> simp
    have hcache : Function.update l x us .cache = l .cache := by
      rcases hrun with rfl | rfl <;> simp
    have hchain : Function.update l x us .chain = l .chain := by
      rcases hrun with rfl | rfl <;> simp
    refine hcounted.congr (fun c => ?_) ?_ (fun j hj => ?_) hcounted.current rfl rfl
      (fun _ => Iff.rfl) hbulk hchain
    · rw [hqueue]
      exact hcounted.size c
    · rw [hcache]
      exact hcounted.cache
    · have hne := hcounted.filled j hj
      rcases hrun with rfl | rfl
      · simpa using hne
      · have hjk : j ≠ k := by
          rintro rfl
          simp [Ctl.goto, hfilled] at hj
        simpa [hjk] using hne

omit [DecidableEq U] in
theorem Lists.tryPop_cases {r : Res U} (h : l.tryPop x = (r, l')) :
    (∃ v us, l x = v :: us ∧ r = .elem v ∧ l' = Function.update l x us) ∨
    (l x = [] ∧ r = .none ∧ l' = l) := by
  unfold Lists.tryPop at h
  cases hx : l x with
  | nil =>
    simp only [hx, Prod.mk.injEq] at h
    exact .inr ⟨rfl, h.1.symm, h.2.symm⟩
  | cons v us =>
    simp only [hx, Prod.mk.injEq] at h
    exact .inl ⟨v, us, rfl, h.1.symm, h.2.symm⟩

omit [DecidableEq U] in
theorem Lists.pop_cases {r : Res U} (h : l.pop x = some (r, l')) :
    ∃ v us, l x = v :: us ∧ r = .elem v ∧ l' = Function.update l x us := by
  unfold Lists.pop at h
  cases hx : l x with
  | nil => simp [hx] at h
  | cons v us =>
    simp only [hx, Option.some.injEq, Prod.mk.injEq] at h
    exact ⟨v, us, rfl, h.1.symm, h.2.symm⟩

theorem ofNat_sub_min (a n : ℕ) :
    BitVec.ofNat 32 a - BitVec.ofNat 32 (min n a) = BitVec.ofNat 32 (a - n) := by
  have hsplit : a = (a - n) + min n a := by omega
  conv_lhs => rw [hsplit, BitVec.ofNat_add]
  rw [← hsplit, BitVec.add_sub_cancel]

omit [DecidableEq U] [DecidableEq D] in
/-- `__removeMany`, after which kThread `k` goes on at `pos'` -/
theorem inv_removeMany {pos pos' : Pos U B D} (h : Inv labels counts cfg s l)
    (hsize : s.size (cfg.localCluster k) ≠ 0)
    (hx : (removeMany cfg k (·.goto k pos') s).Leads l s' l')
    (hpos : s.pos k = pos) (hcur : pos'.cur = pos.cur)
    (hnext : pos'.next = pos.next) (hleaving : pos'.leaving = pos.leaving) :
    Inv labels counts cfg s' l' := by
  subst hpos
  obtain ⟨r, hexec, hleads⟩ := hx
  simp only [removeMany, Lists.exec] at hexec hleads
  have hpop : 0 < Scheduler01.Queues.popnum (s.size (cfg.localCluster k)).toNat
      (s.ktVector (cfg.localCluster k)).length (s.lastPopNum (cfg.localCluster k)) :=
    Scheduler01.Queues.popnum_pos (by
      rw [Nat.pos_iff_ne_zero]
      exact fun hz => hsize (BitVec.eq_of_toNat_eq hz))
  generalize Scheduler01.Queues.popnum _ _ _ = n at hexec hleads hpop
  split_ifs at hexec with hne
  simp only [Option.some.injEq, Prod.mk.injEq] at hexec
  obtain ⟨rfl, rfl⟩ := hexec
  simp only [Option.some.injEq] at hleads
  subst hleads
  rw [show max n 1 = n by omega]
  have hleave : ∀ j, (Function.update s.pos k pos' j).leaving = (s.pos j).leaving := by
    intro j
    by_cases hj : j = k
    · subst hj
      simp [hleaving]
    · simp [hj]
  refine h.transfer (by simp) n (fun w y => ?_) (fun w hw hlab _ => ?_)
    (fun w y _ hg => ?_) rfl fun hct => ?_
  · exact (at_goto_same hcur hnext).trans (by cases y <;> rfl)
  · exact h.good w (.cont (.queue (.queue (cfg.localCluster k)))) hw hlab rfl
  · exact hg.congr rfl id fun j _ => hleave j
  · have hcounted := h.counted hct
    refine hcounted.congr (fun c => ?_) (by simpa [Lists.move, Ctl.goto] using hcounted.cache)
      (fun j hj => ?_)
      hcounted.current rfl rfl (fun _ => Iff.rfl) (fun _ => by simp [Lists.move])
        (by simp [Lists.move])
    · by_cases hc : c = cfg.localCluster k
      · subst hc
        simpa [Ctl.goto, Lists.move, hcounted.size] using ofNat_sub_min ..
      · simpa [Ctl.goto, Lists.move, hc] using hcounted.size c
    · by_cases hjk : j = k
      · subst hjk
        simp only [Lists.move, Function.update_self]
        simp [hne, hpop.ne']
      · simpa [Lists.move, hjk] using hcounted.filled j (by simpa [Ctl.goto, hjk] using hj)

omit [DecidableEq U] [DecidableEq C] [DecidableEq B] [DecidableEq D] in
/-- kThread `k` goes on, and its uThread is still leaving. -/
theorem Inv.gotoLeaving {pos pos' : Pos U B D} (h : Inv labels counts cfg s l)
    (hpos : s.pos k = pos)
    (hcur : pos'.cur = pos.cur) (hnext : pos'.next = pos.next) (hfilled : pos'.filled = false)
    (hleaving : pos'.leaving = pos.leaving) : Inv labels counts cfg (s.goto k pos') l := by
  refine h.goto hpos hcur hnext hfilled fun w hg _ => hg.congr rfl id fun j hj => ?_
  cases hj
  simp [Ctl.goto, hpos, hleaving]

omit [DecidableEq U] [DecidableEq C] [DecidableEq B] [DecidableEq D] in
/-- There is nothing to switch to. With `labels`, `u` must not have yielded. -/
theorem inv_nothing {pos : Pos U B D} {args : Option (Arg B D)} (h : Inv labels counts cfg s l)
    (hpos : s.pos k = pos) (hcur : pos.cur = some u) (hnext : pos.next = none)
    (hleaving : pos.leaving = some args)
    (hyield : labels → (s.ut u).state ≠ .yield) : Inv labels counts cfg (nothing k u args s) l := by
  unfold nothing
  split
  next hstate =>
    refine h.goto hpos hcur.symm hnext.symm rfl fun w _ hw => ⟨?_, fun hlab _ => ?_⟩
    · simp [Ctl.goto, Pos.leaving]
    · exact absurd hstate (hyield hlab)
  next => exact h.gotoLeaving hpos hcur.symm hnext.symm rfl hleaving.symm

omit [DecidableEq U] [DecidableEq D] in
/-- `nonBlockingSwitch`: the pop -/
theorem inv_nonBlockingSwitch {args : Option (Arg B D)} (h : Inv labels counts cfg s l)
    (hpos : s.pos k = .pop u args)
    (hyield : labels → cfg.sched = .two → l (.runQueue k) = [] → (s.ut u).state ≠ .yield)
    (hx : (nonBlockingSwitch cfg k u args s).Leads l s' l') : Inv labels counts cfg s' l' := by
  obtain ⟨r, hexec, hnext⟩ := hx
  cases hs : cfg.sched with
  | one =>
    simp only [nonBlockingSwitch, hs, Lists.exec, Option.some.injEq] at hexec hnext
    rcases Lists.tryPop_cases hexec with ⟨v, us, hl, rfl, rfl⟩ | ⟨hl, rfl, rfl⟩
    · cases hnext
      exact h.popNext hl (.inr rfl) hpos rfl rfl rfl rfl rfl
    · cases hnext
      exact h.gotoLeaving hpos rfl rfl rfl rfl
  | two =>
    simp only [nonBlockingSwitch, hs, Lists.exec, Option.some.injEq] at hexec hnext
    rcases Lists.tryPop_cases hexec with ⟨v, us, hl, rfl, rfl⟩ | ⟨hl, rfl, rfl⟩
    · cases hnext
      exact h.popNext hl (.inl rfl) hpos rfl rfl rfl rfl rfl
    · cases hnext
      exact inv_nothing h hpos rfl rfl rfl fun hlab => hyield hlab hs hl

omit [DecidableEq U] [DecidableEq D] in
/-- `__tryPopMany` -/
theorem inv_tryPopMany {args : Option (Arg B D)} {locked : Bool} (h : Inv labels counts cfg s l)
    (hpos : s.pos k = .fill u args)
    (hyield : labels → locked = true → s.size (cfg.localCluster k) = 0 → (s.ut u).state ≠ .yield)
    (hx : (tryPopMany cfg k u args locked s).Leads l s' l') : Inv labels counts cfg s' l' := by
  unfold tryPopMany at hx
  split_ifs at hx with hlocked hsize
  · obtain ⟨rfl, rfl⟩ := Ctl.call_leads hx
    exact inv_nothing h hpos rfl rfl rfl fun hlab => hyield hlab hlocked hsize
  · exact inv_removeMany h hsize hx hpos rfl rfl rfl
  · obtain ⟨rfl, rfl⟩ := Ctl.call_leads hx
    exact h.gotoLeaving hpos rfl rfl rfl rfl

omit [DecidableEq U] [DecidableEq D] in
/-- `blockingSwitch` -/
theorem inv_blockingSwitch {x : Call U K C B D} (h : Inv labels counts cfg s l)
    (hpos : s.pos k = .main)
    (hplan : blockingSwitch cfg k s = some x) (hx : x.Leads l s' l') :
    Inv labels counts cfg s' l' := by
  cases hs : cfg.sched with
  | one =>
    simp only [blockingSwitch, hs] at hplan
    split_ifs at hplan with hsize
    cases hplan
    exact inv_removeMany h hsize hx hpos rfl rfl rfl
  | two =>
    simp only [blockingSwitch, hs, Option.some.injEq] at hplan
    subst hplan
    obtain ⟨r, hexec, hnext⟩ := hx
    simp only [Lists.exec, Option.some.injEq] at hexec
    rcases Lists.tryPop_cases hexec with ⟨v, us, hl, rfl, rfl⟩ | ⟨hl, rfl, rfl⟩
    · cases hnext
      exact h.popNext hl (.inl rfl) hpos rfl rfl rfl rfl rfl
    · cases hnext
      exact h

/-! ## `postSwitchFunc` -/

omit [DecidableEq U] [DecidableEq C] [DecidableEq B] [DecidableEq D] in
/-- The current uThread of kThread `k` is gone, and the next one stays. -/
theorem at_gone {pos : Pos U B D} {args : Option (Arg B D)} {next : Option U}
    (hpos : s.pos k = .post u args next) (hcur : pos.cur = none) (hnext : pos.next = next) :
    At (s.goto k pos) l w y ↔ At s l w y ∧ ¬(w = u ∧ y = .cur k) := by
  have hold : (s.pos k).cur = some u ∧ (s.pos k).next = next := by simp [hpos, Pos.cur, Pos.next]
  rw [at_goto]
  grind [At]

omit [DecidableEq U] [DecidableEq C] [DecidableEq B] [DecidableEq D] in
theorem Good.gone {pos : Pos U B D} {args : Option (Arg B D)} {next : Option U}
    (h : Good labels s w y)
    (hpos : s.pos k = .post u args next) (hy : At s l w y) (hw : w ≠ u) (hut : s'.ut w = s.ut w)
    (hinit : s.unswitched w → s'.unswitched w) (hpos' : s'.pos = Function.update s.pos k pos) :
    Good labels s' w y := by
  refine h.goto hy hut hinit hpos' ?_
  simpa [hpos, Pos.cur] using Ne.symm hw

omit [DecidableEq D] in
/-- `destory` -/
theorem inv_destory {args : Option (Arg B D)} {next : Option U} {cached : Bool} {x : Call U K C B D}
    (h : Inv labels counts cfg s l) (hpos : s.pos k = .post u args next)
    (hplan : (destory cfg u cached s).map (·.andThen (·.goto k (.finish next))) = some x)
    (hx : x.Leads l s' l') : Inv labels counts cfg s' l' := by
  obtain ⟨x, hdestory, rfl⟩ := Option.map_eq_some_iff.mp hplan
  obtain ⟨s₁, hleads, rfl⟩ := Call.andThen_leads hx
  have hcur : At s l u (.cur k) := by simp [At, hpos, Pos.cur]
  have hlife : (s.ut u).life = .inUse := by
    cases hl : (s.ut u).life with
    | inUse => rfl
    | absent => exact absurd (h.eq_of_at hcur (q := .absent) hl) (by simp)
    | created => exact absurd (h.eq_of_at hcur (q := .created) hl) (by simp)
  unfold destory at hdestory
  split_ifs at hdestory with hcached hfull
  · cases hdestory
    obtain ⟨r, hexec, hnext⟩ := hleads
    simp only [Lists.exec, Option.some.injEq, Prod.mk.injEq] at hexec hnext
    obtain ⟨-, rfl⟩ := hexec
    subst hnext
    refine h.push hcur (by simp) (.refl _) (fun w y => ?_) ?_ (fun w y hw hy hg => ?_) h.hands
      fun hct => ?_
    · exact (at_gone (s := s.setUT u _) hpos rfl rfl).trans (and_congr_left' (at_setUT hlife.symm))
    · simp [Good, Ctl.goto, Ctl.setUT]
    · exact hg.gone hpos hy hw (by simp [Ctl.goto, Ctl.setUT, hw]) id rfl
    · have hcounted := h.counted hct
      have hset : Counted cfg
          { s.setUT u { newUT with life := .inUse } with cacheCount := s.cacheCount + 1 }
          (Function.update l .cache (u :: l .cache)) := by
        refine (hcounted.setUT (u := u) (z := { newUT with life := .inUse })
          (by simp [newUT])).congr ?_ ?_ ?_ ?_
          rfl rfl (fun _ => Iff.rfl) (fun _ => by simp) (by simp)
        · simpa [Ctl.setUT] using hcounted.size
        · simp [hcounted.cache, BitVec.ofNat_add]
        · simpa [Ctl.setUT] using hcounted.filled
        · exact (hcounted.setUT (by simp [newUT])).current
      exact hset.goto (by simp [Pos.filled])
  · cases hdestory
    obtain ⟨rfl, rfl⟩ := Ctl.call_leads hleads
    refine h.move (p := .cur k) (q := .absent) (by simp) hcur (fun w y => ?_) trivial
      (fun w y hw hy hg => ?_) h.hands fun hct => ?_
    · refine (at_gone (s := s.setUT u _) hpos rfl rfl).trans ?_
      cases y <;> simp [At, Ctl.setUT, Function.update_apply] <;> grind
    · exact hg.gone hpos hy hw (by simp [Ctl.goto, Ctl.setUT, hw]) id rfl
    · have hcounted := h.counted hct
      refine Counted.goto ?_ (by simp [Pos.filled])
      exact hcounted.setUT (hcounted.current u)

omit [DecidableEq U] [DecidableEq D] in
/-- `postSuspendFunc` of a blocking queue: `queue.push_back(*utt)` -/
theorem inv_pushBack {b : B} {args : Option (Arg B D)} {next : Option U}
    (h : Inv labels counts cfg s l)
    (hpos : s.pos k = .post u args next) (hstate : (s.ut u).state = .waiting) :
    Inv labels counts cfg (s.goto k (.unlock next)) (l.push (.bq b) u) := by
  refine h.push (p := .cur k) (by simp [At, hpos, Pos.cur]) (by simp)
    (List.perm_append_singleton ..)
    (fun w y => at_gone hpos rfl rfl) hstate (fun w y hw hy hg => hg.gone hpos hy hw rfl id rfl)
      h.hands fun hct => ?_
  have hcounted : Counted cfg (s.goto k (.unlock next)) l :=
    (h.counted hct).goto (by simp [Pos.filled])
  exact hcounted.congr (by simpa using hcounted.size) (by simpa using hcounted.cache)
    (by simpa using hcounted.filled) hcounted.current rfl rfl (fun _ => Iff.rfl) (by simp) (by simp)

omit [DecidableEq U] [DecidableEq C] [DecidableEq B] in
/-- `postSuspendFunc` of a poll slot: the uThread is parked. -/
theorem inv_park {d : D} {args : Option (Arg B D)} {next : Option U} (h : Inv labels counts cfg s l)
    (hpos : s.pos k = .post u args next) (hstate : (s.ut u).state = .waiting)
    (hslot : s.slot d = .null) :
    Inv labels counts cfg ((s.setSlot d (.parked u)).goto k (.finish next)) l := by
  refine h.move (p := .cur k) (q := .slot d) (by simp) (by simp [At, hpos, Pos.cur])
    (fun w y => ?_) hstate (fun w y hw hy hg => hg.gone hpos hy hw rfl id rfl) h.hands fun hct => ?_
  · refine (at_gone (s := s.setSlot d _) hpos rfl rfl).trans ?_
    cases y <;> simp [At, Ctl.setSlot, Function.update_apply]
    grind
  · have hcounted : Counted cfg (s.setSlot d (.parked u)) l := { h.counted hct with }
    exact hcounted.goto (by simp [Pos.filled])

/-- `postSwitchFunc` -/
theorem inv_postSwitchFunc {args : Option (Arg B D)} {next : Option U} {home : K} {cached : Bool}
    {x : Call U K C B D} (h : Inv labels counts cfg s l) (hpos : s.pos k = .post u args next)
    (hplan : postSwitchFunc cfg k u args next home cached s = some x) (hx : x.Leads l s' l') :
    Inv labels counts cfg s' l' := by
  have hgood := h.good u (.cur k) (by simp [At, hpos, Pos.cur])
  have hleaves : Leaves (s.ut u).state args := hgood.1 args (by simp [hpos, Pos.leaving])
  unfold postSwitchFunc at hplan
  split at hplan
  next => exact inv_destory h hpos hplan hx
  next hstate =>
    exact inv_post_resume s h hpos (by rw [hstate]; rfl) (fun _ _ => Iff.rfl) rfl hplan hx
  next hstate =>
    exact inv_post_resume s h hpos (by rw [hstate]; rfl) (fun _ _ => Iff.rfl) rfl hplan hx
  next hstate =>
    split at hplan
    next b =>
      cases hplan
      obtain ⟨r, hexec, hnext⟩ := hx
      simp only [Lists.exec, Option.some.injEq, Prod.mk.injEq] at hexec hnext
      obtain ⟨-, rfl⟩ := hexec
      subst hnext
      exact inv_pushBack h hpos hstate
    next d =>
      split at hplan
      next hslot =>
        refine inv_post_resume (s.setSlot d .null) h hpos (by rw [hstate]; rfl)
          (fun d' w => ?_) rfl hplan hx
        by_cases hd : d' = d
        · subst hd
          simp [Ctl.setSlot, hslot]
        · simp [Ctl.setSlot, hd]
      next hslot =>
        cases hplan
        obtain ⟨rfl, rfl⟩ := Ctl.call_leads hx
        exact inv_park h hpos hstate hslot
      all_goals cases hplan
    next => cases hplan
  -- a uThread that leaves is in none of the other states
  all_goals simp_all [Leaves]

omit [DecidableEq D] in
/-- The last lines of `postSwitchFunc` -/
theorem inv_finish {next : Option U} (h : Inv labels counts cfg s l) (hpos : s.pos k = .finish next)
    (hx : (finish k next s).Leads l s' l') : Inv labels counts cfg s' l' := by
  cases next with
  | none =>
    obtain ⟨rfl, rfl⟩ := Ctl.call_leads hx
    exact h.gotoLeaving hpos rfl rfl rfl rfl
  | some v =>
    obtain ⟨rfl, rfl⟩ := Ctl.call_leads hx
    refine h.move (p := .next k) (q := .cur k) (u := v) (by simp) (by simp [At, hpos, Pos.next])
      (fun w y => ?_) ?_ (fun w y hw hy hg => ?_) h.hands fun hct => ?_
    · have hold : (s.pos k).cur = none ∧ (s.pos k).next = some v := by
        simp [hpos, Pos.cur, Pos.next]
      have hset : At (s.setState v .running) l' w y ↔ At s l' w y := at_setUT rfl
      rw [at_goto, hset]
      grind [At, Pos.cur, Pos.next]
    · refine ⟨by simp [Ctl.goto, Pos.leaving], fun _ _ => .inl ?_⟩
      simp [Ctl.goto, Ctl.setState, Ctl.setUT]
    · refine hg.goto hy (by simp [Ctl.goto, Ctl.setState, Ctl.setUT, hw]) id rfl ?_
      simp [hpos, Pos.cur]
    · have hcounted := h.counted hct
      refine Counted.goto ?_ (by simp [Pos.filled])
      exact hcounted.setUT (hcounted.current v)

end UThreads.Handover
