import UThreads.Io.PollingPlaces

/-!
# `IOHandler`: polls do not get in each other's way

The bulk queues, their counters and `unblockCounter` have no lock of their own: what keeps them
consistent is that one thread polls at a time. The invariant `Inv` is `Guard`, `Bulk` and `Places`
together.

The results hold for every build configuration, in runs where one uThread at a time is in `block` or
`postSwitchFunc` of a `PollData` and nobody is parked on a connection that is being closed
(`Allowed`).

**One poller** (`one_poller`). At most one thread polls, and while none does the bulk queues are
empty: a poll leaves no uThread behind.

**The result of a poll** (`poll_result`). A poll that returns `r ≥ 0` has put `r` uThreads on run
queues, and one that returns -1 has put none there.

**One place** (`waiting_in_one_place`). A uThread that waits for I/O or to be run is in one place,
and there once, but for one whose `postSwitchFunc` has found `closing` set.
-/

namespace UThreads.Polling

open IOHandler (Dir Slot)
open Poll (Event Wait)

variable {D U K T : Type*} [DecidableEq D] [DecidableEq U] [DecidableEq K] [DecidableEq T]
  {cfg : Config K} {s s' : State D U K T} {t t' : Option T} {x : Poller D U K} {u v : U} {k : K}

variable [Fintype K]

/-! ## Every step -/

structure Inv (cfg : Config K) (s : State D U K T) : Prop where
  guard : Guard cfg s
  bulk : Bulk cfg s
  places : Places s

section Steps

variable {d : D} {utp : Dir} {todo : List (D × Dir)}

/-- What a step that moves no uThread and no thread leaves alone. -/
structure SameThreads (s s' : State D U K T) : Prop extends SamePlaces s s', SameBulk s s' where
  isPolling : s'.isPolling = s.isPolling

omit [DecidableEq D] [DecidableEq U] [DecidableEq T] in
theorem Inv.congr (h : Inv cfg s) (hs : SameThreads s s') : Inv cfg s' :=
  ⟨h.guard.congr hs.poller hs.isPolling, h.bulk.congr hs.poller hs.toSameBulk,
    h.places.congr hs.toSamePlaces⟩

omit [DecidableEq U] [DecidableEq K] [DecidableEq T] [Fintype K] in
theorem sameThreads_setSlot {y : Slot U} (hold : ∀ v, s.slot d utp ≠ .parked v)
    (hy : ∀ v, y ≠ .parked v) : SameThreads s (s.setSlot d utp y) :=
  ⟨⟨rfl, parked_setSlot hold hy, rfl, rfl, rfl, rfl⟩, ⟨rfl, rfl, rfl, rfl⟩, rfl⟩

omit [DecidableEq D] [DecidableEq U] [DecidableEq K] [DecidableEq T] [Fintype K] in
theorem sameThreads_closing (f : D → Bool) : SameThreads s { s with closing := f } :=
  ⟨⟨rfl, fun _ _ _ => Iff.rfl, rfl, rfl, rfl, rfl⟩, ⟨rfl, rfl, rfl, rfl⟩, rfl⟩

omit [DecidableEq D] [DecidableEq T] in
/-- A step of uThread `u` in `block` or `postSwitchFunc`. -/
theorem Inv.goto {p : Pos D K} (h : Inv cfg s) (hold : (s.pos u).loc = none) (hp : p.loc = none)
    (hpd : p.pd = none ∨ p.pd = (s.pos u).pd)
    (hclear : ∀ d utp, p.clears = some (d, utp) → s.slot d utp = .ready) :
    Inv cfg (s.goto u p) := by
  refine ⟨h.guard.congr rfl rfl, h.bulk.congr rfl ⟨rfl, rfl, rfl, rfl⟩,
    h.places.goto hold hp (fun d hd => ?_) ?_⟩
  · rcases hpd with hn | he
    · rw [hn] at hd
      cases hd
    · exact .inl (he ▸ hd)
  · intro d utp hd v
    rw [hclear d utp hd]
    simp

omit [DecidableEq D] [DecidableEq U] in
/-- A step of the thread that polls, until it clears the flag. -/
theorem Inv.inside_step (h : Inv cfg s) (hin : (s.poller t).inside = true) (hin' : x.inside = true)
    (hp : s'.poller = s.poller) (hf : s'.isPolling = s.isPolling) (hc : Counted x s')
    (hunused : cfg.bulkPush = false → ∀ k, s'.bulkQueue k = [])
    (hplaces : Places (s'.advance t x)) : Inv cfg (s'.advance t x) := by
  have hp' : (s'.advance t x).poller = Function.update s.poller t x := by rw [← hp]; rfl
  refine ⟨h.guard.advance (by intro he; rw [he] at hin; cases hin) hp' hf (by rw [hin, hin']),
    bulk_step h.guard hin hp' (fun _ => hc.congr ⟨rfl, rfl, rfl, rfl⟩) (fun hn => ?_) hunused,
    hplaces⟩
  rw [hin'] at hn
  cases hn

omit [DecidableEq D] [DecidableEq U] in
/-- A step of that thread that moves no uThread. -/
theorem Inv.stay {y : Poller D U K} {n m : ℕ} {f : K → ℕ} (h : Inv cfg s) (ht : s.poller t = y)
    (hy : y.inside = true ∧ y.wakes = none) (hx : x.inside = true ∧ x.wakes = none)
    (hc : Counted y s →
      Counted x { s with unblockCounter := n, bulkCounter := f, delivered := m }) :
    Inv cfg ({ s with unblockCounter := n, bulkCounter := f, delivered := m }.advance t x) := by
  subst ht
  exact h.inside_step hy.1 hx.1 rfl rfl (hc (h.bulk.inside t hy.1)) h.bulk.unused
    ((h.places.advance hy.2 hx.2).congr ⟨rfl, fun _ _ _ => Iff.rfl, rfl, rfl, rfl, rfl⟩)

omit [DecidableEq T] [Fintype K] in
/-- A step in `unblock` that takes no uThread and hands none on: at most it writes to a slot with
nobody in it. -/
theorem unblock_quiet (cfg : Config K) (s : State D U K T) {y : Unblock U K} (hy : y.quiet = true)
    (hret : ∀ res, y ≠ .ret res) (htake : ∀ v, y = .cas (.parked v) → s.slot d utp ≠ .parked v) :
    (unblock cfg d utp s y).2.quiet = true ∧ (unblock cfg d utp s y).2 ≠ .ret true ∧
      ((unblock cfg d utp s y).1 = s ∨ ∃ z, (∀ v, z ≠ .parked v) ∧ (∀ v, s.slot d utp ≠ .parked v) ∧
        (unblock cfg d utp s y).1 = s.setSlot d utp z) := by
  cases y with
  | closing => by_cases hc : s.closing d <;> simp [unblock, hc, Unblock.quiet]
  | read => by_cases hr : s.slot d utp = .ready <;> simp [unblock, hr, Unblock.quiet]
  | cas old =>
    by_cases hs : s.slot d utp = old
    · cases old with
      | parked v => exact absurd hs (htake v rfl)
      | null =>
        simp only [unblock, hs, if_true]
        exact ⟨rfl, by simp, .inr ⟨.ready, by simp, by simp, rfl⟩⟩
      | ready =>
        simp only [unblock, hs, if_true]
        exact ⟨rfl, by simp, .inr ⟨.null, by simp, by simp, rfl⟩⟩
      | wait =>
        simp only [unblock, hs, if_true]
        exact ⟨rfl, by simp, .inr ⟨.ready, by simp, by simp, rfl⟩⟩
    · simp [unblock, hs, Unblock.quiet]
  | wake v => cases hy
  | bump k => cases hy
  | ret res => exact absurd rfl (hret res)

omit [DecidableEq T] [Fintype K] in
theorem unblock_same (cfg : Config K) {y : Unblock U K} (hy : y.quiet = true)
    (hret : ∀ res, y ≠ .ret res)
    (htake : ∀ v, y = .cas (.parked v) → s.slot d utp ≠ .parked v) :
    SameThreads s (unblock cfg d utp s y).1 := by
  obtain ⟨-, -, hs | ⟨z, hz, hold, hs⟩⟩ := unblock_quiet cfg s hy hret htake
  · rw [hs]
    exact ⟨⟨rfl, fun _ _ _ => Iff.rfl, rfl, rfl, rfl, rfl⟩, ⟨rfl, rfl, rfl, rfl⟩, rfl⟩
  · rw [hs]
    exact sameThreads_setSlot hold hz

/-- The thread that polls is in `unblock`. -/
theorem Inv.unblock (h : Inv cfg s) {y : Unblock U K} (ht : s.poller t = .unblock d utp y todo)
    (hret : ∀ res, y ≠ .ret res) :
    Inv cfg
    ((unblock cfg d utp s y).1.advance t (.unblock d utp (unblock cfg d utp s y).2 todo)) := by
  have hin : (s.poller t).inside = true := by rw [ht]; rfl
  have hcount := h.bulk.inside t hin
  rw [ht] at hcount
  by_cases hquiet : y.quiet = true ∧ ∀ v, y = .cas (.parked v) → s.slot d utp ≠ .parked v
  · obtain ⟨hy, htake⟩ := hquiet
    have hsame := unblock_same cfg hy hret htake
    obtain ⟨hy', hne, -⟩ := unblock_quiet cfg s hy hret htake
    have hwakes : ∀ {z : Unblock U K}, z.quiet = true → (Poller.unblock d utp z todo).wakes = none ∧
        (Poller.unblock d utp z todo).bump = none ∧
        (z ≠ .ret true → (Poller.unblock d utp z todo).owed = 0) := by
      intro z hz
      cases z with
      | wake | bump => cases hz
      | ret res => cases res <;> simp [Poller.wakes, Poller.bump, Poller.owed]
      | _ => exact ⟨rfl, rfl, fun _ => rfl⟩
    obtain ⟨hold, hbump, howed⟩ := hwakes hy
    obtain ⟨hnew, hbump', howed'⟩ := hwakes hy'
    exact (h.congr hsame).stay ((congrFun hsame.poller t).trans ht) ⟨rfl, hold⟩
      ⟨rfl, hnew⟩ fun hc =>
      hc.collect ⟨rfl, rfl, rfl, rfl⟩ (.inl rfl) rfl (hbump'.trans hbump.symm)
        ((howed' hne).trans (howed (hret true)).symm)
  · cases y with
    | cas old =>
      -- The slot has the uThread that was read.
      obtain ⟨v, rfl, hslot⟩ : ∃ v, old = .parked v ∧ s.slot d utp = .parked v := by
        by_contra hn
        refine hquiet ⟨rfl, fun v hv hs => hn ⟨v, by simpa using hv, hs⟩⟩
      simp only [Polling.unblock, hslot, if_true]
      exact h.inside_step hin rfl rfl rfl
        (hcount.collect ⟨rfl, rfl, rfl, rfl⟩ (.inl rfl) rfl rfl rfl) h.bulk.unused
        (h.places.take h.guard ht hslot)
    | wake v =>
      simp only [Polling.unblock]
      split
      case isTrue hb =>
        refine h.inside_step hin rfl rfl rfl hcount.pushBulk (fun hn => ?_)
          (h.places.wakeBulk h.guard ht)
        rw [hb] at hn
        cases hn
      case isFalse hb =>
        exact h.inside_step hin rfl rfl rfl hcount.resume h.bulk.unused
          (h.places.wakeResume h.guard ht)
    | bump k => exact h.stay ht ⟨rfl, rfl⟩ ⟨rfl, rfl⟩ Counted.bump
    | closing | read => exact absurd ⟨rfl, by simp⟩ hquiet
    | ret res => exact absurd rfl (hret res)

omit [DecidableEq D] [DecidableEq U] in
/-- The thread comes to the end of `_Poll`. -/
theorem Inv.afterPoll {y : Poller D U K} (h : Inv cfg s) (hall : ∀ k, k ∈ cfg.kThreads)
    (ht : s.poller t = y)
    (hy : y.inside = true ∧ y.wakes = none) (hstale : y.stale = none) (hbump : y.bump = none)
    (howed : y.owed = 0) (hreset : y ≠ .reset) : Inv cfg (s.advance t (afterPoll cfg s)) := by
  have hx : (Polling.afterPoll cfg s).inside = true ∧ (Polling.afterPoll cfg s).wakes = none := by
    unfold Polling.afterPoll
    split <;> exact ⟨rfl, rfl⟩
  exact h.stay ht hy hx fun hc => hc.afterPoll hall h.bulk.unused hstale hbump howed hreset
    ⟨rfl, rfl, rfl, rfl⟩

/-- `isPolling.test_and_set()` -/
theorem Inv.testAndSet (h : Inv cfg s) (ht : s.poller t = .testAndSet)
    (hstep : poll cfg t s = some s') : Inv cfg s' := by
  simp only [poll, ht] at hstep
  have hout : (s.poller t).inside = false := by rw [ht]; rfl
  have hplaces : ∀ {x : Poller D U K}, x.wakes = none → Places (s.advance t x) :=
    h.places.advance (by rw [ht]; rfl)
  -- The thread enters the poll, and nobody else is in it.
  have henter : ∀ {s'' : State D U K T}, (∀ r, (s.poller r).inside = false) → Guard cfg s'' →
      s''.poller = Function.update s.poller t .reset → SameBulk s s'' → Bulk cfg s'' := by
    intro s'' hnone hg hp hs
    have hz := h.bulk.outside hnone
    have hreset : Counted (.reset : Poller D U K) s :=
      ⟨fun k _ => by simp [hz k, Poller.bump], fun k _ => (hz k).1, by simp, by simp,
        by simp, by simp⟩
    refine ⟨fun r hr => ?_, fun hall => ?_, by rw [hs.queue]; exact h.bulk.unused⟩
    · have hrt : r = t := hg.alone hr (by rw [hp, Function.update_self]; rfl)
      rw [hrt, hp, Function.update_self]
      exact hreset.congr hs
    · have hx := hall t
      rw [hp, Function.update_self] at hx
      cases hx
  have hg := h.guard
  unfold Guard at hg
  by_cases hnb : cfg.nonblocking = true
  · rw [if_pos hnb, Option.some.injEq] at hstep
    subst hstep
    rw [if_pos hnb] at hg
    split
    case isTrue hset =>
      exact ⟨h.guard.advance (by simp [ht]) rfl rfl (by rw [ht]; rfl),
        h.bulk.step_outside hout rfl rfl ⟨rfl, rfl, rfl, rfl⟩, hplaces rfl⟩
    case isFalse hfree =>
      have hclear : s.isPolling = false := by simpa using hfree
      rw [hclear] at hg
      have hg' : Guard cfg ({ s with isPolling := true }.advance t .reset) :=
        h.guard.enter (t := t) hnb hclear rfl rfl rfl
      exact ⟨hg', henter (fun r => by simpa using hg.nobody r) hg' rfl ⟨rfl, rfl, rfl, rfl⟩,
        (hplaces (x := .reset) rfl).congr ⟨rfl, fun _ _ _ => Iff.rfl, rfl, rfl, rfl, rfl⟩⟩
  · rw [if_neg hnb, Option.some.injEq] at hstep
    subst hstep
    rw [if_neg hnb] at hg
    -- Only the poller thread gets here.
    obtain rfl : t = none := by
      cases t with
      | none => rfl
      | some r =>
        rw [hg r] at ht
        cases ht
    have hg' : Guard cfg (s.advance none .reset) := by
      unfold Guard
      rw [if_neg hnb]
      intro r
      simpa [State.advance] using hg r
    refine ⟨hg', henter (fun r => ?_) hg' rfl ⟨rfl, rfl, rfl, rfl⟩, hplaces rfl⟩
    cases r with
    | none => exact hout
    | some r => rw [hg r]; rfl

omit [DecidableEq D] [DecidableEq U] in
/-- `if (bulkCounter > 0)` on kThread `k`: if not, its bulk queue is empty. -/
theorem Inv.flush {ks : List K} (h : Inv cfg s) (ht : s.poller t = .flush (k :: ks)) :
    Inv cfg (s.advance t (if 0 < s.bulkCounter k then .schedule k ks else .zero k ks)) := by
  have hq : ∀ {s : State D U K T}, Counted (.flush (k :: ks)) s →
      s.bulkCounter k = (s.bulkQueue k).length := by
    intro s hc
    simpa [Poller.bump] using hc.queue k (by simp [Poller.stale])
  split
  case isTrue hpos =>
    refine h.stay ht ⟨rfl, rfl⟩ ⟨rfl, rfl⟩ fun hc => hc.goto ⟨rfl, rfl, rfl, rfl⟩ rfl rfl rfl
      (by simp) (by simp) (fun j hj => hc.empty j ?_) ?_ (by simp)
    · simpa [Poller.clean] using hj
    · intro j js hj
      obtain ⟨rfl, rfl⟩ : k = j ∧ ks = js := by simpa using hj
      exact List.ne_nil_of_length_pos (hq hc ▸ hpos)
  case isFalse hzero =>
    refine h.stay ht ⟨rfl, rfl⟩ ⟨rfl, rfl⟩ fun hc => hc.goto ⟨rfl, rfl, rfl, rfl⟩ rfl rfl rfl
      (by simp) (by simp) (fun j hj => ?_) (by simp) (by simp)
    by_cases hjk : j = k
    · subst hjk
      have hlen := hq hc
      exact List.length_eq_zero_iff.mp (by omega)
    · have hks : j ∉ ks := by simpa [Poller.clean, hjk] using hj
      exact hc.empty j (by simp [Poller.clean, hjk, hks])

theorem Inv.poll (h : Inv cfg s) (hall : ∀ k, k ∈ cfg.kThreads)
    (hstep : poll cfg t s = some s') : Inv cfg s' := by
  have hts := hstep
  unfold Polling.poll at hstep
  cases ht : s.poller t <;> simp only [ht] at hstep
  case out | wait => cases hstep
  case testAndSet => exact h.testAndSet ht hts
  case reset =>
    cases hstep
    exact h.stay ht ⟨rfl, rfl⟩ ⟨rfl, rfl⟩ Counted.reset
  case next todo =>
    cases todo with
    | nil =>
      cases hstep
      exact h.afterPoll hall ht ⟨rfl, rfl⟩ rfl rfl rfl (by simp)
    | cons e todo =>
      cases hstep
      exact h.stay ht ⟨rfl, rfl⟩ ⟨rfl, rfl⟩ fun hc =>
        hc.collect ⟨rfl, rfl, rfl, rfl⟩ (.inl rfl) rfl rfl rfl
  case unblock d utp y todo =>
    cases y with
    | ret res =>
      cases hstep
      cases res <;>
        exact h.stay ht ⟨rfl, rfl⟩ ⟨rfl, rfl⟩ fun hc =>
          hc.collect ⟨rfl, rfl, rfl, rfl⟩ (.inl rfl) rfl rfl rfl
    | _ =>
      cases hstep
      exact h.unblock ht (by simp)
  case count todo =>
    cases hstep
    exact h.stay ht ⟨rfl, rfl⟩ ⟨rfl, rfl⟩ Counted.count
  case flush ks =>
    cases ks with
    | nil =>
      cases hstep
      refine h.stay ht ⟨rfl, rfl⟩ ⟨rfl, rfl⟩ fun hc => ?_
      have hempty : ∀ k, s.bulkQueue k = [] := fun k => hc.empty k (by simp [Poller.clean])
      refine hc.goto ⟨rfl, rfl, rfl, rfl⟩ rfl rfl rfl (by simp) (by simp) (fun k _ => hempty k)
        (by simp) fun r hr => ?_
      obtain rfl : (s.unblockCounter : Int) = r := by simpa using hr
      have hsum := hc.sum (by simp)
      rw [total_eq_zero_iff.mpr hempty] at hsum
      exact .inr (by simpa [Poller.owed] using hsum)
    | cons k ks =>
      cases hstep
      exact h.flush ht
  case schedule k ks =>
    cases hstep
    have hin : (s.poller t).inside = true := by rw [ht]; rfl
    have hc := h.bulk.inside t hin
    rw [ht] at hc
    refine h.inside_step hin rfl rfl rfl hc.schedule (fun hb j => ?_) (h.places.schedule h.guard ht)
    by_cases hj : j = k
    · simp [State.schedule, hj]
    · simpa [State.schedule, hj] using h.bulk.unused hb j
  case zero k ks =>
    cases hstep
    exact h.stay ht ⟨rfl, rfl⟩ ⟨rfl, rfl⟩ Counted.zero
  case clear r =>
    cases hstep
    have hin : (s.poller t).inside = true := by rw [ht]; rfl
    have hc := h.bulk.inside t hin
    rw [ht] at hc
    have hempty : ∀ k, s.bulkQueue k = [] := fun k => hc.empty k rfl
    refine ⟨h.guard.leave hin rfl (fun hnb => by simp [State.advance, hnb]),
      bulk_step h.guard hin rfl (fun hx => absurd hx Bool.false_ne_true)
        (fun _ k => ⟨hempty k, ?_⟩) h.bulk.unused,
      (h.places.advance (x := .out) (by rw [ht]; rfl) rfl).congr
        ⟨rfl, fun _ _ _ => Iff.rfl, rfl, rfl, rfl, rfl⟩⟩
    have hq := hc.queue k (by simp [Poller.stale])
    rw [hempty k] at hq
    show s.bulkCounter k = 0
    simpa [Poller.bump] using hq

omit [DecidableEq D] [DecidableEq U] in
/-- `epoll_wait` returns. -/
theorem Inv.epollWait {r : Wait D} (h : Inv cfg s) (hall : ∀ k, k ∈ cfg.kThreads)
    (hstep : epollWait cfg t r s = some s') : Inv cfg s' := by
  unfold Polling.epollWait at hstep
  cases ht : s.poller t with
  | wait =>
    simp only [ht] at hstep
    cases r with
    | error eintr =>
      cases eintr with
      | true =>
        cases hstep
        exact h.afterPoll hall ht ⟨rfl, rfl⟩ rfl rfl rfl (by simp)
      | false =>
        cases hstep
        refine h.stay ht ⟨rfl, rfl⟩ ⟨rfl, rfl⟩ fun hc => ?_
        have hempty : ∀ k, s.bulkQueue k = [] := fun k => hc.empty k rfl
        refine hc.goto ⟨rfl, rfl, rfl, rfl⟩ rfl rfl rfl (by simp) (by simp) (fun k _ => hempty k)
          (by simp) fun r hr => .inl ⟨by simpa using hr.symm, ?_⟩
        have hsum := hc.sum (by simp)
        rw [hc.fresh rfl, total_eq_zero_iff.mpr hempty] at hsum
        simpa [Poller.owed] using hsum.symm
    | events evs =>
      cases hstep
      exact h.stay ht ⟨rfl, rfl⟩ ⟨rfl, rfl⟩ fun hc =>
        hc.collect ⟨rfl, rfl, rfl, rfl⟩ (.inr rfl) rfl rfl rfl
  | _ => simp [ht] at hstep

omit [DecidableEq D] [DecidableEq U] in
/-- A thread comes to `isPolling.test_and_set()`. -/
theorem Inv.start (h : Inv cfg s) (hnb : cfg.nonblocking = true ∨ t = none)
    (ht : s.poller t = .out) : Inv cfg (s.advance t .testAndSet) := by
  refine ⟨?_, h.bulk.step_outside (by rw [ht]; rfl) rfl rfl ⟨rfl, rfl, rfl, rfl⟩,
    h.places.advance (by rw [ht]; rfl) rfl⟩
  have hg := h.guard
  unfold Guard at hg ⊢
  split at hg
  case isTrue hb =>
    rw [if_pos hb]
    refine hg.frame fun r => ?_
    by_cases hrt : r = t
    · subst hrt
      simp [State.advance, ht, Poller.inside]
    · simp [State.advance, hrt]
  case isFalse hb =>
    obtain rfl := hnb.resolve_left hb
    rw [if_neg hb]
    intro r
    simpa [State.advance] using hg r

omit [DecidableEq D] [DecidableEq T] in
/-- A load of the slot: only a `POLL_READY` is to be cleared. -/
theorem Inv.load {p q : Pos D K} (h : Inv cfg s) (hold : (s.pos u).loc = none)
    (hp : p.loc = none ∧ p.pd = (s.pos u).pd ∧ p.clears = some (d, utp))
    (hq : q.loc = none ∧ q.pd = (s.pos u).pd ∧ q.clears = none) :
    Inv cfg (s.goto u (if s.slot d utp = .ready then p else q)) := by
  split
  case isTrue hr =>
    refine h.goto hold hp.1 (.inr hp.2.1) fun d' utp' hd => ?_
    obtain ⟨rfl, rfl⟩ : d = d' ∧ utp = utp' := by simpa [hp.2.2] using hd
    exact hr
  case isFalse => exact h.goto hold hq.1 (.inr hq.2.1) (by simp [hq.2.2])

omit [DecidableEq T] in
theorem Inv.run (h : Inv cfg s) (hstep : run u s = some s') : Inv cfg s' := by
  unfold Polling.run at hstep
  cases hpos : s.pos u <;> simp only [hpos] at hstep <;> cases hstep
  case blockRead d utp =>
    exact h.load (by rw [hpos]; rfl) (by rw [hpos]; exact ⟨rfl, rfl, rfl⟩)
      (by rw [hpos]; exact ⟨rfl, rfl, rfl⟩)
  case hookRead d utp =>
    exact h.load (by rw [hpos]; rfl) (by rw [hpos]; exact ⟨rfl, rfl, rfl⟩)
      (by rw [hpos]; exact ⟨rfl, rfl, rfl⟩)
  case blockClear d utp =>
    have hno := h.places.clear u d utp (by rw [hpos]; rfl)
    exact (h.goto (p := .running) (by rw [hpos]; rfl) rfl (.inl rfl) (by simp [Pos.clears])).congr
      (sameThreads_setSlot hno (by simp))
  case hookClear d utp =>
    have hno := h.places.clear u d utp (by rw [hpos]; rfl)
    exact (h.goto (p := .hookResume d) (by rw [hpos]; rfl) rfl (.inr (by rw [hpos]; rfl))
      (by simp [Pos.clears])).congr (sameThreads_setSlot hno (by simp))
  case blockFlag d utp =>
    exact (h.goto (p := .hookClosing d) (by rw [hpos]; rfl) rfl (.inr (by rw [hpos]; rfl))
      (by simp [Pos.clears])).congr
      ⟨⟨rfl, fun _ _ _ => Iff.rfl, rfl, rfl, rfl, rfl⟩, ⟨rfl, rfl, rfl, rfl⟩, rfl⟩
  case hookClosing d =>
    split
    · exact h.goto (by rw [hpos]; rfl) rfl (.inl rfl) (by simp [Pos.clears])
    · exact h.goto (by rw [hpos]; rfl) rfl (.inr (by rw [hpos]; rfl)) (by simp [Pos.clears])
  case hookFlag d =>
    exact h.goto (by rw [hpos]; rfl) rfl (.inr (by rw [hpos]; rfl)) (by simp [Pos.clears])
  case hookResume d =>
    have hno := h.places.nowhere (u := u) (by rw [hpos]; rfl)
    refine ⟨h.guard.congr rfl rfl, h.bulk.congr rfl ⟨rfl, rfl, rfl, rfl⟩,
      h.places.resume (fun l hl => absurd hl (hno l)) rfl rfl (fun v => ?_) rfl rfl rfl⟩
    refine (and_iff_right_of_imp fun hv => ?_).symm
    rintro rfl
    exact hno .hand hv
  case hookCas d utp =>
    split
    case isTrue hnull =>
      exact ⟨h.guard.congr rfl rfl, h.bulk.congr rfl ⟨rfl, rfl, rfl, rfl⟩,
        h.places.park hpos hnull⟩
    case isFalse =>
      exact h.goto (by rw [hpos]; rfl) rfl (.inr (by rw [hpos]; rfl)) (by simp [Pos.clears])

omit [DecidableEq D] [DecidableEq T] in
/-- A kThread takes the next uThread. -/
theorem Inv.pop (h : Inv cfg s) (hstep : pop k s = some s') : Inv cfg s' := by
  unfold Polling.pop at hstep
  cases hl : s.runQueue k <;> simp only [hl] at hstep <;> cases hstep
  rename_i u l
  have hp := h.places
  have hnd := hp.runQueue k
  rw [hl, List.nodup_cons] at hnd
  have hno : ∀ l', l' ≠ .runQueue k → ¬s.At u l' :=
    fun l' => hp.not_at (l := .runQueue k) (by simp [State.At, hl])
  refine ⟨h.guard.congr rfl rfl, h.bulk.congr rfl ⟨rfl, rfl, rfl, rfl⟩,
    hp.move (u := u) (p := .running) rfl
    (fun v l' => ?_) hp.bulkQueue (fun j => ?_) (by simp [Pos.pd]) (by simp [Pos.clears])
      (by simp [Pos.loc]) hp.closer⟩
  · by_cases hk : l' = .runQueue k
    · subst hk
      have hu : v ∈ l → v ≠ u := fun hv he => hnd.1 (he ▸ hv)
      simp only [State.At, State.goto, Function.update_self, hl, List.mem_cons, Pos.loc,
        reduceCtorEq, and_false, or_false]
      tauto
    · refine at_other ?_ (hno l' hk) (by simp [Pos.loc])
      cases l' with
      | runQueue j =>
        have hj : j ≠ k := fun he => hk (he ▸ rfl)
        simp [State.At, State.goto, hj]
      | _ => exact Iff.rfl
  · by_cases hj : j = k
    · subst hj
      simpa [State.goto] using hnd.2
    · simpa [State.goto, hj] using hp.runQueue j

omit [DecidableEq D] [DecidableEq U] in
/-- A step of `close` that moves no uThread. -/
theorem Inv.setCloser {r : T} {x : Closer D U K} (h : Inv cfg s) (hx : x.quiet = true) :
    Inv cfg (s.setCloser r x) := by
  obtain ⟨hguard, hbulk, hat, hb, hr, huser, hclear, hcloser⟩ := h
  refine ⟨hguard.congr rfl rfl, hbulk.congr rfl ⟨rfl, rfl, rfl, rfl⟩, fun v l => ?_, hb, hr, huser,
    hclear, fun r' => ?_⟩
  · have hv := hat v l
    cases l <;> exact hv
  · by_cases he : r' = r
    · simpa [State.setCloser, he] using hx
    · simpa [State.setCloser, he] using hcloser r'

/-- A step of `close` on a connection with nobody parked. -/
theorem Inv.close {r : T} (h : Inv cfg s)
    (hno : ∀ d, (s.closer r).pd = some d → ∀ utp v, s.slot d utp ≠ .parked v)
    (hstep : close cfg r s = some s') : Inv cfg s' := by
  have hquiet := h.places.closer r
  have hunblock : ∀ {d y}, (∀ v, s.slot d .read ≠ .parked v) → y.quiet = true →
      (∀ res, y ≠ .ret res) →
      Inv cfg (Polling.unblock cfg d .read s y).1 ∧
      (Polling.unblock cfg d .read s y).2.quiet = true := by
    intro d y hslot hy hret
    have htake : ∀ v, y = .cas (.parked v) → s.slot d .read ≠ .parked v := fun v _ => hslot v
    exact ⟨h.congr (unblock_same cfg hy hret htake), (unblock_quiet cfg s hy hret htake).1⟩
  unfold Polling.close at hstep
  cases hr : s.closer r <;> simp only [hr] at hstep
  case idle => cases hstep
  case testRut d =>
    cases hstep
    refine h.setCloser ?_
    split <;> rfl
  case unblockRut d y | unblockWut d y =>
    rw [hr] at hquiet
    replace hquiet : y.quiet = true := hquiet
    have hslot := hno d (by rw [hr]; rfl) .read
    cases y with
    | ret res =>
      cases hstep
      exact h.setCloser rfl
    | _ =>
      cases hstep
      obtain ⟨hinv, hres⟩ := hunblock hslot hquiet (by simp)
      exact hinv.setCloser hres
  case testWut d =>
    cases hstep
    exact h.setCloser rfl
  case cas d =>
    cases hstep
    split
    · exact h.setCloser rfl
    · exact (h.congr (sameThreads_closing _)).setCloser rfl
  case resetRut d =>
    cases hstep
    exact (h.congr (sameThreads_setSlot (hno d (by rw [hr]; rfl) .read) (by simp))).setCloser rfl
  case resetWut d =>
    cases hstep
    exact (h.congr (sameThreads_setSlot (hno d (by rw [hr]; rfl) .write) (by simp))).setCloser rfl
  case resetClosing d =>
    cases hstep
    exact (h.congr (sameThreads_closing _)).setCloser rfl

end Steps

omit [DecidableEq D] [DecidableEq U] [DecidableEq T] in
theorem inv_initial (home : U → K) : Inv cfg (initial home : State D U K T) := by
  refine ⟨?_, ⟨fun t ht => ?_, fun _ k => ⟨rfl, rfl⟩, fun _ k => rfl⟩, fun v l => ?_,
    fun k => List.nodup_nil,
    fun k => List.nodup_nil, fun v w d hv => ?_, fun v d utp hv => ?_, fun t => rfl⟩
  · unfold Guard
    split
    · exact ⟨fun t t' ht => absurd ht (by simp [initial, Poller.inside]),
        iff_of_false (by simp [initial]) (by simp [initial, Poller.inside])⟩
    · exact fun t => rfl
  · cases ht
  · cases l <;> simp [State.At, initial, Pos.loc, Poller.wakes]
  · cases hv
  · cases hv

theorem inv_step {a : Action D U K T} (hall : ∀ k, k ∈ cfg.kThreads) (h : Inv cfg s)
    (ha : Allowed s a) (hstep : step cfg s a = some s') : Inv cfg s' := by
  cases a with
  | nonblockingPoll t =>
    simp only [step, Option.ite_none_right_eq_some, Option.some.injEq] at hstep
    obtain ⟨⟨hnb, ht⟩, rfl⟩ := hstep
    exact h.start (.inl hnb) ht
  | timedwait =>
    simp only [step, Option.ite_none_right_eq_some, Option.some.injEq] at hstep
    obtain ⟨ht, rfl⟩ := hstep
    exact h.start (.inr rfl) ht
  | epollWait t r => exact h.epollWait hall hstep
  | poll t => exact h.poll hall hstep
  | block u d utp =>
    simp only [step, Option.ite_none_right_eq_some, Option.some.injEq] at hstep
    obtain ⟨hu, rfl⟩ := hstep
    refine ⟨h.guard.congr rfl rfl, h.bulk.congr rfl ⟨rfl, rfl, rfl, rfl⟩,
      h.places.goto (by rw [hu]; rfl) rfl (fun d' hd => .inr ?_) (by simp [Pos.clears])⟩
    obtain rfl : d = d' := by simpa [Pos.pd] using hd
    exact ha
  | run u => exact h.run hstep
  | pop k => exact h.pop hstep
  | migrate u k =>
    simp only [step, Option.ite_none_right_eq_some, Option.some.injEq] at hstep
    obtain ⟨-, rfl⟩ := hstep
    exact h.congr ⟨⟨rfl, fun _ _ _ => Iff.rfl, rfl, rfl, rfl, rfl⟩, ⟨rfl, rfl, rfl, rfl⟩, rfl⟩
  | startClose t d =>
    simp only [step, Option.ite_none_right_eq_some, Option.some.injEq] at hstep
    obtain ⟨-, rfl⟩ := hstep
    exact h.setCloser rfl
  | close t => exact h.close ha hstep

theorem inv_reachable (hall : ∀ k, k ∈ cfg.kThreads)
    (h : (machine D U K T cfg).ReachableBy Allowed s) :
    Inv cfg s := by
  refine h.invariant (I := Inv cfg) ?_ fun s a s' hI ha hs => inv_step hall hI ha hs
  rintro s ⟨home, rfl⟩
  exact inv_initial home

/-! ## Main results -/

instance : Fintype Dir where
  elems := {.read, .write}
  complete := by
    intro utp
    cases utp <;> simp

instance [Fintype D] [Fintype U] (s : State D U K T) (a : Action D U K T) :
    Decidable (Allowed s a) :=
  match a with
  | .block _ d _ => inferInstanceAs (Decidable (∀ v, (s.pos v).pd ≠ some d))
  | .close t =>
    inferInstanceAs (Decidable (∀ d, (s.closer t).pd = some d → ∀ utp u, s.slot d utp ≠ .parked u))
  | .nonblockingPoll _ | .timedwait | .epollWait _ _ | .poll _ | .run _ | .pop _ | .migrate _ _
  | .startClose _ _ =>
    inferInstanceAs (Decidable True)

/-- At most one thread polls, and between polls nothing is left on a bulk queue. -/
theorem one_poller (hall : ∀ k, k ∈ cfg.kThreads)
    (h : (machine D U K T cfg).ReachableBy Allowed s) :
    (∀ t t', (s.poller t).inside = true → (s.poller t').inside = true → t = t') ∧
      ((∀ t, (s.poller t).inside = false) → ∀ k, s.bulkQueue k = [] ∧ s.bulkCounter k = 0) :=
  ⟨fun _ _ ht ht' => (inv_reachable hall h).guard.alone ht ht', (inv_reachable hall h).bulk.outside⟩

/-- Two kThreads and one connection, with bulk pushes and nonblocking polls. -/
def twoKThreads : Config Bool := ⟨true, true, [false, true]⟩

/-- uThread `0` parks on a connection. A kThread is in a poll that has taken it, and another one has
found the flag set. -/
def parkAndPoll : List (Action Unit (Fin 2) Bool Bool) :=
  List.flatten [[.block 0 () .read], List.replicate 6 (.run 0),
    [.nonblockingPoll false, .poll (some false), .nonblockingPoll true, .poll (some true),
      .poll (some false),
      .epollWait (some false) (.events [⟨1, ()⟩])], List.replicate 4 (.poll (some false))]

theorem one_poller_parkAndPoll :
    ∃ s, (machine Unit (Fin 2) Bool Bool twoKThreads).ReachableBy Allowed s ∧
      (s.poller (some false)).inside = true ∧
      s.pos 0 = .taken ∧ ∀ t t', (s.poller t).inside = true → (s.poller t').inside = true →
      t = t' := by
  have hinit : (machine Unit (Fin 2) Bool Bool twoKThreads).ReachableBy Allowed
    (initial fun _ => true) := .init ⟨_, rfl⟩
  have hr := hinit.get parkAndPoll (by decide +kernel)
  exact ⟨_, hr, by decide +kernel, by decide +kernel, (one_poller (by decide) hr).1⟩

/-- `poll` returns the number of uThreads that it has put on run queues, or `-1` with none put
there. -/
theorem poll_result {r : Int} (hall : ∀ k, k ∈ cfg.kThreads)
    (h : (machine D U K T cfg).ReachableBy Allowed s) (ht : s.poller t = .clear r) :
    (r = -1 ∧ s.delivered = 0 ∨ r = s.delivered) ∧ ∀ k, s.bulkQueue k = [] := by
  have hc := (inv_reachable hall h).bulk.inside t (by rw [ht]; rfl)
  rw [ht] at hc
  exact ⟨hc.result r rfl, fun k => hc.empty k rfl⟩

theorem poll_result_parkAndPoll :
    ∃ s, (machine Unit (Fin 2) Bool Bool twoKThreads).ReachableBy Allowed s ∧
      s.runQueue true = [0] ∧
      s.poller (some false) = .clear 1 ∧
        (((1 : Int) = -1 ∧ s.delivered = 0 ∨ (1 : Int) = s.delivered) ∧
        ∀ k, s.bulkQueue k = []) := by
  have hinit : (machine Unit (Fin 2) Bool Bool twoKThreads).ReachableBy Allowed
    (initial fun _ => true) := .init ⟨_, rfl⟩
  have hr := hinit.get (parkAndPoll ++ List.replicate 11 (.poll (some false))) (by decide +kernel)
  exact ⟨_, hr, by decide +kernel, by decide +kernel,
    poll_result (t := some false) (by decide) hr (by decide +kernel)⟩

/-- Running, in `block` or `postSwitchFunc`, or left behind by a `postSwitchFunc` that has found
`closing` set. -/
def Pos.placeless : Pos D K → Bool
  | .running | .dropped => true
  | p => p.pd.isSome

/-- A uThread that waits is in one place, and there once. -/
theorem waiting_in_one_place (hall : ∀ k, k ∈ cfg.kThreads)
    (h : (machine D U K T cfg).ReachableBy Allowed s) (u : U) :
    ((s.pos u).placeless = false → ∃! l, s.At u l) ∧
      ((s.pos u).placeless = true → ∀ l, ¬s.At u l) ∧
      (∀ k, (s.bulkQueue k).count u ≤ 1) ∧ ∀ k, (s.runQueue k).count u ≤ 1 := by
  have hp := (inv_reachable hall h).places
  have hat := hp.at_iff u
  refine ⟨fun hu => ?_, fun hu => ?_, fun k => List.nodup_iff_count_le_one.mp (hp.bulkQueue k) u,
    fun k => List.nodup_iff_count_le_one.mp (hp.runQueue k) u⟩
  all_goals
    cases hpos : s.pos u <;> rw [hpos] at hat hu <;>
      simp_all [Pos.placeless, Pos.pd, Pos.loc]

theorem waiting_in_one_place_parkAndPoll :
    ∃ s, (machine Unit (Fin 2) Bool Bool twoKThreads).ReachableBy Allowed s ∧ s.At 0 .hand ∧
      s.pos 0 = .taken ∧ ∃! l, s.At 0 l := by
  have hinit : (machine Unit (Fin 2) Bool Bool twoKThreads).ReachableBy Allowed
      (initial fun _ => true) := .init ⟨_, rfl⟩
  have hr := hinit.get parkAndPoll (by decide +kernel)
  exact ⟨_, hr, ⟨some false, by decide +kernel⟩, by decide +kernel,
    (waiting_in_one_place (by decide) hr 0).1 (by decide +kernel)⟩

end UThreads.Polling
