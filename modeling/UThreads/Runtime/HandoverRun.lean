import UThreads.Runtime.HandoverSwitch

/-!
# How uThreads are handed over: runs

The calls of uThreads and the steps of the poller keep the invariant, and so does every run whose
steps are `Allowed`: users call `resume()` on uThreads only for which it does nothing, and

* with `counts`, the memory of a new `bulkCounter` is 0;
* with `labels`, no uThread that yields goes on at once, and no uThread goes from a bulk queue to a
  run queue.
-/

namespace UThreads.Handover

open IOHandler (Slot)

variable {U K C B D : Type*} [DecidableEq U] [DecidableEq K] [DecidableEq C] [DecidableEq B]
  [DecidableEq D]

variable {labels counts : Prop} {cfg : Config K C} {s s' s₀ : Ctl U K C B D} {l l' : Lists U K C B}
  {u v w : U} {j k : K} {p q y : Loc K C B D} {x : Cont K C B} {us : List U}

/-! ## Calls -/

omit [DecidableEq U] [DecidableEq B] [DecidableEq D] in
theorem inv_newCluster {c : C} {n : BitVec 64} (h : Inv labels counts cfg s l)
    (hc : s.cluster c = false) (hn : counts → cfg.sched = .one → n = 0) :
    Inv labels counts cfg { s with
      cluster := Function.update s.cluster c true
      bulkCounter := match cfg.sched with
        | .one => Function.update s.bulkCounter (.cluster c) n
        | .two => s.bulkCounter } l := by
  refine h.stay (fun w y => by cases y <;> rfl) (fun w y _ hg => hg.congr rfl id fun _ _ => rfl) rfl
    fun hct => ?_
  have hcounted := h.counted hct
  refine { hcounted with
    bulk := fun j hj => ?_
    cluster := fun c' hc' => ?_
    current := fun w c' hc' => ?_ }
  · cases hs : cfg.sched with
    | one =>
      by_cases hjc : j = .cluster c
      · subst hjc
        simp [hn hct hs, hcounted.cluster c hc]
      · simpa [hjc] using hcounted.bulk j hj
    | two => exact hcounted.bulk j hj
  · refine hcounted.cluster c' ?_
    by_cases he : c' = c
    · simp [he] at hc'
    · simpa [he] using hc'
  · by_cases he : c' = c
    · simp [he]
    · simpa [he] using hcounted.current w c' hc'

omit [DecidableEq U] [DecidableEq C] [DecidableEq B] [DecidableEq D] in
/-- A new kThread. -/
theorem inv_newkThread {f : C → List K} (h : Inv labels counts cfg s l) (hpos : s.pos k = .absent) :
    Inv labels counts cfg ({ s with ktVector := f }.goto k .main) l := by
  have hkt : Inv labels counts cfg { s with ktVector := f } l :=
    h.stay (fun w y => by cases y <;> rfl) (fun w y _ hg => hg.congr rfl id fun _ _ => rfl) rfl
      fun hct => { h.counted hct with }
  exact hkt.gotoLeaving hpos rfl rfl rfl rfl

omit [DecidableEq C] [DecidableEq B] [DecidableEq D] in
/-- The default kThread. -/
theorem inv_defaultKT {f : C → List K} {c : C} (h : Inv labels counts cfg s l)
    (hpos : s.pos k = .absent)
    (hc : s.cluster c = true) (hinit : s.initUT = none) (hlife : (s.ut u).life = .absent) :
    Inv labels counts cfg ({ s.setUT u ⟨.inUse, .initialized, some k, some c⟩ with
      initUT := some u
      switched := false
      ktVector := f }.goto k (.run u)) l := by
  refine h.move (p := .absent) (q := .cur k) (u := u) (by simp) hlife (fun w y => ?_) ?_
    (fun w y hw hy hg => ?_) h.hands fun hct => ?_
  · have hold : (s.pos k).cur = none ∧ (s.pos k).next = none := by simp [hpos, Pos.cur, Pos.next]
    rw [at_goto]
    cases y <;> simp [At, Ctl.setUT, Function.update_apply] <;> grind [Pos.cur, Pos.next]
  · exact ⟨by simp [Ctl.goto, Pos.leaving], fun _ _ => .inr ⟨rfl, rfl⟩⟩
  · refine hg.goto hy (by simp [Ctl.goto, Ctl.setUT, hw]) (by simp [Ctl.unswitched, hinit]) rfl ?_
    simp [hpos, Pos.cur]
  · have hset : Counted cfg (s.setUT u ⟨.inUse, .initialized, some k, some c⟩) l := by
      apply (h.counted hct).setUT
      rintro _ ⟨⟩
      exact hc
    refine Counted.goto ?_ (by simp [Pos.filled])
    exact { hset with }

omit [DecidableEq K] [DecidableEq C] [DecidableEq B] [DecidableEq D] in
/-- `create` without the cache -/
theorem inv_create (h : Inv labels counts cfg s l) (hlife : (s.ut u).life = .absent) :
    Inv labels counts cfg (s.setUT u newUT) l := by
  refine h.move (p := .absent) (q := .created) (u := u) (by simp) hlife (fun w y => ?_) ?_
    (fun w y hw hy hg => ?_) h.hands fun hct => ?_
  · cases y <;> simp [At, Ctl.setUT, Function.update_apply, newUT] <;> grind
  · simp [Good, Ctl.setUT]
  · exact hg.congr (by simp [Ctl.setUT, hw]) id fun _ _ => rfl
  · exact (h.counted hct).setUT (by simp [newUT])

omit [DecidableEq D] in
/-- `create` with the cache -/
theorem inv_createCached (h : Inv labels counts cfg s l) (hx : l .cache = u :: us) :
    Inv labels counts cfg
      { s.setUT u { s.ut u with life := .created } with cacheCount := s.cacheCount - 1 }
      (Function.update l .cache us) := by
  have hut : s.ut u = { newUT with life := .inUse } := h.good u (.cont .cache) (by simp [At, hx])
  refine h.pop (q := .created) hx (by simp) (fun w y => ?_) ?_ (fun w y hw hy hg => ?_) h.hands
    fun hct => ?_
  · cases y <;> simp [At, Ctl.setUT, Function.update_apply, hut] <;> grind
  · simp [Good, Ctl.setUT, hut, newUT]
  · exact hg.congr (by simp [Ctl.setUT, hw]) id fun _ _ => rfl
  · have hcounted := h.counted hct
    have hset : Counted cfg (s.setUT u { s.ut u with life := .created }) l :=
      hcounted.setUT (hcounted.current u)
    refine hset.congr (by simpa [Ctl.setUT] using hcounted.size) ?_
      (by simpa [Ctl.setUT] using hcounted.filled)
      hset.current rfl rfl (fun _ => Iff.rfl) (by simp) (by simp)
    simp [hcounted.cache, hx, BitVec.ofNat_add]

omit [DecidableEq C] [DecidableEq B] [DecidableEq D] in
/-- `u`, whose code runs on kThread `k`, calls `switchContext`. -/
theorem inv_leave {z : UThread K C} {args : Option (Arg B D)} (h : Inv labels counts cfg s l)
    (hpos : s.pos k = .run u) (hlife : z.life = (s.ut u).life) (hz : Leaves z.state args)
    (hc : counts → ∀ c, z.currentCluster = some c → s.cluster c = true) :
    Inv labels counts cfg
      ({ s.setUT u z with switched := s.switched || s.initUT = some u }.goto k (.pop u args))
        l := by
  refine h.stay (fun w y => ?_) (fun w y hy hg => ?_) rfl fun hct => ?_
  · exact (at_goto_same (s := s.setUT u z)
      (by rw [show (s.setUT u z).pos k = s.pos k from rfl, hpos]; rfl)
      (by rw [show (s.setUT u z).pos k = s.pos k from rfl, hpos]; rfl)).trans (at_setUT hlife)
  · by_cases hw : w = u
    · subst hw
      have hyk : y = .cur k := h.eq_of_at hy (by simp [At, hpos, Pos.cur])
      subst hyk
      refine ⟨?_, by simp [Ctl.goto, Pos.leaving]⟩
      simpa [Ctl.goto, Ctl.setUT, Pos.leaving] using hz
    · refine hg.goto hy (by simp [Ctl.goto, Ctl.setUT, hw]) (fun hw' => ?_) rfl ?_
      · exact ⟨hw'.1, by simp [Ctl.goto, hw'.1, hw'.2, hw]⟩
      · simpa [hpos, Pos.cur] using Ne.symm hw
  · refine Counted.goto ?_ (by simp [Pos.filled])
    exact { (h.counted hct).setUT (hc hct) with }

omit [DecidableEq U] [DecidableEq D] in
/-- The first uThread of a blocking queue is taken. -/
theorem inv_signal {b : B} (h : Inv labels counts cfg s l) (hx : l (.bq b) = u :: us) :
    Inv labels counts cfg (s.setHands k (u :: s.hands k)) (Function.update l (.bq b) us) := by
  have hat : At s l u (.cont (.bq b)) := by simp [At, hx]
  have hnot : u ∉ s.hands k := fun hu => absurd (h.eq_of_at hat (q := .hand k) hu) (by simp)
  refine h.pop (q := .hand k) hx (by simp) (fun w y => ?_) (h.good u _ hat)
    (fun w y _ _ hg => hg.congr rfl id fun _ _ => rfl) (fun j => ?_) fun hct => ?_
  · cases y <;> simp [At, Ctl.setHands, Function.update_apply]
    grind
  · by_cases hj : j = k
    · subst hj
      simpa [Ctl.setHands, hnot] using h.hands j
    · simpa [Ctl.setHands, hj] using h.hands j
  · have hcounted := h.counted hct
    exact hcounted.congr (by simpa [Ctl.setHands] using hcounted.size)
      (by simpa [Ctl.setHands] using hcounted.cache)
      (by simpa [Ctl.setHands] using hcounted.filled) hcounted.current rfl rfl (fun _ => Iff.rfl)
        (by simp) (by simp)

omit [DecidableEq U] [DecidableEq K] [DecidableEq C] [DecidableEq B] in
/-- A slot in which no uThread is parked changes. -/
theorem inv_setSlot {d : D} {z : Slot U} (h : Inv labels counts cfg s l)
    (hd : ∀ w, s.slot d ≠ .parked w)
    (hz : ∀ w, z ≠ .parked w) : Inv labels counts cfg (s.setSlot d z) l := by
  refine h.stay (fun w y => ?_) (fun w y _ hg => hg.congr rfl id fun _ _ => rfl) rfl fun hct =>
    { h.counted hct with }
  cases y with
  | slot d' =>
    by_cases he : d' = d
    · subst he
      simp [At, Ctl.setSlot, hd w, hz w]
    · simp [At, Ctl.setSlot, he]
  | _ => rfl

/-! ## The poller -/

omit [DecidableEq U] [DecidableEq K] [DecidableEq C] [DecidableEq B] in
/-- `unblock` of a parked uThread -/
theorem inv_unblock_parked {d : D} (h : Inv labels counts cfg s l) (hpoller : s.poller = .idle)
    (hd : s.slot d = .parked u) :
    Inv labels counts cfg { s.setSlot d .null with poller := .unblocked u } l := by
  refine h.move (p := .slot d) (q := .poller) (u := u) (by simp) hd (fun w y => ?_)
    (h.good u (.slot d) hd) (fun w y _ _ hg => hg.congr rfl id fun _ _ => rfl) h.hands fun hct => ?_
  · cases y <;> simp [At, Ctl.setSlot, Function.update_apply, hpoller, Poller.ut, eq_comm]
    grind
  · have hcounted := h.counted hct
    exact hcounted.congr hcounted.size hcounted.cache hcounted.filled hcounted.current rfl rfl
      (by simp [hpoller]) (fun _ => rfl) rfl

omit [DecidableEq U] [DecidableEq K] [DecidableEq C] [DecidableEq B] [DecidableEq D] in
/-- `poll` begins. -/
theorem inv_poll (h : Inv labels counts cfg s l) :
    Inv labels counts cfg { s with unblockCounter := 0 } l := by
  refine ⟨h.place, h.nodup, h.hands, h.good, fun hct => ?_⟩
  obtain ⟨hsize, hbulk, hcache, hchain, hnoChain, hfilled, hcluster, hcurrent⟩ := h.counted hct
  exact ⟨hsize, hbulk, hcache, hchain, hnoChain, hfilled, hcluster, hcurrent⟩

omit [DecidableEq U] [DecidableEq K] [DecidableEq C] [DecidableEq B] in
theorem inv_unblock {d : D} (h : Inv labels counts cfg s l) (hpoller : s.poller = .idle) :
    Inv labels counts cfg (unblock d s) l := by
  unfold unblock
  split
  next => exact h
  next hd => exact inv_setSlot h (by simp [hd]) (by simp)
  next hd => exact inv_setSlot h (by simp [hd]) (by simp)
  next u hd => exact inv_unblock_parked h hpoller hd

omit [DecidableEq U] [DecidableEq D] in
/-- `prepareBulkPush`: `u` goes to the bulk queue `j`. -/
theorem inv_bulkQueue {i : Bulk K C} (h : Inv labels counts cfg s l)
    (hpoller : s.poller = .unblocked u) (hi : counts → ∀ c, i = .cluster c → s.cluster c = true) :
    Inv labels counts cfg { s with
      poller := .idle
      unblockCounter := s.unblockCounter + 1
      bulkCounter := Function.update s.bulkCounter i (s.bulkCounter i + 1) }
        (l.push (.queue (.bulkQueue i)) u) := by
  refine h.push (p := .poller) (by simp [At, hpoller, Poller.ut]) (by simp)
    (List.perm_append_singleton ..)
    (fun w y => ?_) (by simp [Good, Cont.runs]) (fun w y _ _ hg => hg.congr rfl id fun _ _ => rfl)
      h.hands fun hct => ?_
  · cases y <;> simp [At, hpoller, Poller.ut, eq_comm]
  · have hcounted := h.counted hct
    have hbulk : ∀ j, s.bulkCounter j = BitVec.ofNat 64 (l (.queue (.bulkQueue j))).length :=
      fun j => hcounted.bulk j (by simp [hpoller])
    refine ⟨by simpa using hcounted.size, fun j _ => ?_, by simpa using hcounted.cache, by simp,
      fun _ => by simpa [hpoller] using hcounted.noChain, by
        simpa using hcounted.filled, fun c hc => ?_,
      hcounted.current⟩
    · by_cases hj : j = i
      · subst hj
        simp [hbulk, BitVec.ofNat_add]
      · simp [hbulk, hj]
    · by_cases hj : i = .cluster c
      · simp [hi hct c hj] at hc
      · simpa [Ne.symm hj] using hcounted.cluster c hc

omit [DecidableEq U] [DecidableEq D] in
theorem inv_prepareBulkPush {x : Call U K C B D} (h : Inv labels counts cfg s l)
    (hpoller : s.poller = .unblocked u)
    (hplan : prepareBulkPush cfg u s = some x) (hx : x.Leads l s' l') :
    Inv labels counts cfg s' l' := by
  unfold prepareBulkPush at hplan
  split at hplan
  next hs =>
    obtain ⟨c, hc, rfl⟩ := Option.map_eq_some_iff.mp hplan
    obtain ⟨r, hexec, hnext⟩ := hx
    simp only [Lists.exec, Option.some.injEq, Prod.mk.injEq] at hexec hnext
    obtain ⟨-, rfl⟩ := hexec
    subst hnext
    refine inv_bulkQueue h hpoller ?_
    rintro hct _ ⟨⟩
    exact (h.counted hct).current u c hc
  next hs =>
    obtain ⟨k, hk, rfl⟩ := Option.map_eq_some_iff.mp hplan
    obtain ⟨r, hexec, hnext⟩ := hx
    simp only [Lists.exec, Option.some.injEq, Prod.mk.injEq] at hexec hnext
    obtain ⟨-, rfl⟩ := hexec
    subst hnext
    exact inv_bulkQueue h hpoller (by simp)

omit [DecidableEq U] [DecidableEq D] in
/-- `Scheduler_01::bulkPush` -/
theorem inv_bulkPushCluster {c : C} (h : Inv labels counts cfg s l)
    (hpoller : s.poller = .idle) (hzero : labels → s.bulkCounter (.cluster c) = 0)
    (hx : (bulkPushCluster c s).Leads l s' l') : Inv labels counts cfg s' l' := by
  unfold bulkPushCluster at hx
  dsimp only at hx
  split_ifs at hx with hn
  · obtain ⟨rfl, rfl⟩ := Ctl.call_leads hx
    exact h
  · have hlab : ¬labels := fun hlab => hn (hzero hlab)
    obtain ⟨r, hexec, hnext⟩ := hx
    simp only [Lists.exec] at hexec
    split_ifs at hexec with hne
    simp only [Option.some.injEq, Prod.mk.injEq] at hexec hnext
    obtain ⟨-, rfl⟩ := hexec
    subst hnext
    refine h.transfer (by simp) _ (fun w y => by cases y <;> rfl) (fun w _ hl => absurd hl hlab)
      (fun w y _ hg => hg.congr rfl id fun _ _ => rfl) rfl fun hct => ?_
    have hcounted := h.counted hct
    have hbulk : ∀ j, s.bulkCounter j = BitVec.ofNat 64 (l (.queue (.bulkQueue j))).length :=
      fun j => hcounted.bulk j (by simp [hpoller])
    refine ⟨fun c' => ?_, fun j _ => ?_, by simpa [Lists.move] using hcounted.cache,
      by simp [hpoller],
      by simpa [Lists.move] using hcounted.noChain, by
        simpa [Lists.move] using hcounted.filled, fun c' hc' => ?_,
      hcounted.current⟩
    · by_cases hc : c' = c
      · subst hc
        simp [Lists.move, hcounted.size, hbulk, BitVec.ofNat_add]
      · simpa [Lists.move, hc] using hcounted.size c'
    · by_cases hj : j = .cluster c
      · subst hj
        simp [Lists.move]
      · simp [Lists.move, hj, hbulk]
    · by_cases hc : c' = c
      · subst hc
        simp [Lists.move]
      · simpa [Lists.move, hc] using hcounted.cluster c' hc'

omit [DecidableEq U] [DecidableEq D] in
/-- `Scheduler_02::bulkPush` -/
theorem inv_bulkPushkThread (h : Inv labels counts cfg s l) (hpoller : s.poller = .idle)
    (hzero : labels → s.bulkCounter (.kThread k) = 0)
    (hx : (bulkPushkThread k s).Leads l s' l') : Inv labels counts cfg s' l' := by
  unfold bulkPushkThread at hx
  split_ifs at hx with hn
  · obtain ⟨rfl, rfl⟩ := Ctl.call_leads hx
    exact h
  · obtain ⟨r, hexec, hnext⟩ := hx
    simp only [Lists.exec] at hexec
    split_ifs at hexec with hne
    simp only [Option.some.injEq, Prod.mk.injEq] at hexec hnext
    obtain ⟨-, rfl⟩ := hexec
    subst hnext
    refine h.transfer (by simp) _ (fun w y => ?_) (fun w _ _ => by simp [Cont.runs])
      (fun w y _ hg => hg.congr rfl id fun _ _ => rfl) rfl fun hct => ?_
    · cases y <;> simp [At, hpoller, Poller.ut]
    · have hcounted := h.counted hct
      refine ⟨by simpa [Lists.move] using hcounted.size, fun j hj => ?_,
        by simpa [Lists.move] using hcounted.cache,
        fun j hj => ?_, by simp, by simpa [Lists.move] using hcounted.filled,
        by simpa [Lists.move] using hcounted.cluster, hcounted.current⟩
      · have hjk : j ≠ .kThread k := hj k rfl
        simpa [Lists.move, hjk] using hcounted.bulk j (by simp [hpoller])
      · cases hj
        simp [Lists.move, hne]

omit [DecidableEq U] [DecidableEq D] in
/-- `runQueue.push(*first, *last)` -/
theorem inv_pushChain (h : Inv labels counts cfg s l) (hpoller : s.poller = .chain k)
    (hlab : ¬labels) (hx : (pushChain k s).Leads l s' l') : Inv labels counts cfg s' l' := by
  obtain ⟨r, hexec, hnext⟩ := hx
  simp only [pushChain, Lists.exec] at hexec hnext
  split_ifs at hexec with hne
  simp only [Option.some.injEq, Prod.mk.injEq] at hexec hnext
  obtain ⟨-, rfl⟩ := hexec
  subst hnext
  refine h.transfer (by simp) _ (fun w y => ?_) (fun w _ hl => absurd hl hlab)
    (fun w y _ hg => hg.congr rfl id fun _ _ => rfl) rfl fun hct => ?_
  · cases y <;> simp [At, hpoller, Poller.ut]
  · have hcounted := h.counted hct
    obtain ⟨-, hempty⟩ := hcounted.chain k hpoller
    refine ⟨by simpa [Lists.move] using hcounted.size, fun j _ => ?_,
      by simpa [Lists.move] using hcounted.cache,
      by simp, by simp [Lists.move], by simpa [Lists.move] using hcounted.filled,
      by simpa [Lists.move] using hcounted.cluster, hcounted.current⟩
    by_cases hj : j = .kThread k
    · subst hj
      simp [Lists.move, hempty]
    · refine Eq.trans ?_ ((hcounted.bulk j ?_).trans ?_)
      · simp [hj]
      · rw [hpoller]
        rintro _ ⟨⟩
        exact hj
      · simp [Lists.move]

/-! ## Every step -/

/-- There is nothing else to run for kThread `k`, and its uThread, which has yielded, goes on. -/
def fallsThrough (cfg : Config K C) (s : Ctl U K C B D × Lists U K C B) (k : K)
    (choice : Bool) : Bool :=
  match s.1.pos k with
  | .pop u _ => cfg.sched = .two ∧ s.2 (.runQueue k) = [] ∧ (s.1.ut u).state = .yield
  | .fill u _ => choice = true ∧ s.1.size (cfg.localCluster k) = 0 ∧ (s.1.ut u).state = .yield
  | _ => false

/-- The steps that keep the invariant. -/
def Allowed (labels counts : Prop) (cfg : Config K C) (s : Ctl U K C B D × Lists U K C B) :
    Action U K C B D → Prop
  | .newCluster _ n => counts → cfg.sched = .one → n = 0
  | .resume u _ => (s.1.ut u).state.resumable = false
  | .switch k _ choice => labels → fallsThrough cfg s k choice = false
  | .bulkPush j => labels → s.1.bulkCounter j = 0
  | .pushChain => ¬labels
  | _ => True

omit [DecidableEq U] [DecidableEq K] [DecidableEq C] [DecidableEq B] [DecidableEq D] in
theorem Ctl.pos_of_caller (h : s.caller k = some u) : s.pos k = .run u := by
  unfold Ctl.caller at h
  split at h
  next hpos _ =>
    cases h
    exact hpos
  next => cases h

omit [DecidableEq D] in
theorem inv_switchContext {z : Runtime.UState} {args : Option (Arg B D)}
    (h : Inv labels counts cfg s l)
    (hcaller : s.caller k = some u) (hz : Leaves z args)
    (hx : (switchContext k u z args s).Leads l s' l') : Inv labels counts cfg s' l' := by
  obtain ⟨rfl, rfl⟩ := Ctl.call_leads hx
  exact inv_leave h (Ctl.pos_of_caller hcaller) rfl hz fun hct => (h.counted hct).current u

omit [DecidableEq D] in
theorem inv_migrate {c : C} {home : K} {x : Call U K C B D} (h : Inv labels counts cfg s l)
    (hcaller : s.caller k = some u) (hplan : migrate cfg k u c home s = some x)
    (hx : x.Leads l s' l') : Inv labels counts cfg s' l' := by
  unfold migrate at hplan
  split_ifs at hplan with hsame hc
  · cases hplan
    obtain ⟨rfl, rfl⟩ := Ctl.call_leads hx
    exact h
  · cases hplan
    obtain ⟨rfl, rfl⟩ := Ctl.call_leads hx
    have hut : (s.setUT u { s.ut u with
        homekThread := some home, currentCluster := some c }).setState u .migrate =
        s.setUT u { s.ut u with
          state := .migrate, homekThread := some home, currentCluster := some c } := by
      simp [Ctl.setState, Ctl.setUT]
    rw [hut]
    refine inv_leave h (Ctl.pos_of_caller hcaller) rfl (.inr (.inl rfl)) ?_
    rintro _ _ ⟨⟩
    exact hc.1

theorem inv_switchStep {home : K} {choice : Bool} {x : Call U K C B D}
    (h : Inv labels counts cfg s l)
    (hc : Allowed labels counts cfg (s, l) (.switch k home choice))
    (hplan : switchStep cfg k home choice s = some x)
    (hx : x.Leads l s' l') : Inv labels counts cfg s' l' := by
  unfold switchStep at hplan
  split at hplan
  next => cases hplan
  next => cases hplan
  next hpos => exact inv_blockingSwitch h hpos hplan hx
  next hpos =>
    cases hplan
    obtain ⟨r, hexec, hnext⟩ := hx
    obtain ⟨v, us, hl, rfl, rfl⟩ := Lists.pop_cases hexec
    cases hnext
    exact h.popNext hl (.inr rfl) hpos rfl rfl rfl rfl rfl
  next u args hpos =>
    cases hplan
    refine inv_nonBlockingSwitch h hpos (fun hlab hs hl => ?_) hx
    simpa [fallsThrough, hpos, hs, hl] using hc hlab
  next u args hpos =>
    cases hplan
    refine inv_tryPopMany h hpos (fun hlab hlocked hsize => ?_) hx
    simpa [fallsThrough, hpos, hlocked, hsize] using hc hlab
  next u args hpos =>
    cases hplan
    obtain ⟨r, hexec, hnext⟩ := hx
    obtain ⟨v, us, hl, rfl, rfl⟩ := Lists.pop_cases hexec
    cases hnext
    exact h.popNext hl (.inr rfl) hpos rfl rfl rfl rfl rfl
  next u args next hpos => exact inv_postSwitchFunc h hpos hplan hx
  next next hpos =>
    split_ifs at hplan
    cases hplan
    obtain ⟨rfl, rfl⟩ := Ctl.call_leads hx
    exact h.gotoLeaving hpos rfl rfl rfl rfl
  next next hpos =>
    cases hplan
    exact inv_finish h hpos hx

theorem inv_plan {a : Action U K C B D} {x : Call U K C B D} (h : Inv labels counts cfg s l)
    (hc : Allowed labels counts cfg (s, l) a) (hplan : plan cfg s a = some x)
    (hx : x.Leads l s' l') : Inv labels counts cfg s' l' := by
  cases a with
  | newCluster c n =>
    simp only [plan] at hplan
    split_ifs at hplan with hcl
    cases hplan
    obtain ⟨rfl, rfl⟩ := Ctl.call_leads hx
    exact inv_newCluster h (by simpa using hcl) hc
  | defaultKT k u =>
    simp only [plan] at hplan
    split_ifs at hplan with hg
    cases hplan
    obtain ⟨rfl, rfl⟩ := Ctl.call_leads hx
    exact inv_defaultKT h hg.1 hg.2.1 hg.2.2.1 hg.2.2.2
  | newkThread k =>
    simp only [plan] at hplan
    split_ifs at hplan with hg
    cases hplan
    obtain ⟨rfl, rfl⟩ := Ctl.call_leads hx
    exact inv_newkThread h hg.1
  | create k u =>
    simp only [plan] at hplan
    split_ifs at hplan with hg
    cases hplan
    obtain ⟨rfl, rfl⟩ := Ctl.call_leads hx
    exact inv_create h hg.2
  | createCached k =>
    simp only [plan] at hplan
    split_ifs at hplan with hg
    cases hplan
    obtain ⟨r, hexec, hnext⟩ := hx
    obtain ⟨v, us, hl, rfl, rfl⟩ := Lists.pop_cases hexec
    cases hnext
    exact inv_createCached h hl
  | start k u c home =>
    simp only [plan] at hplan
    split_ifs at hplan with hg
    exact inv_start h hg.2.1 hg.2.2 hplan hx
  | yield k =>
    obtain ⟨u, hu, rfl⟩ := Option.map_eq_some_iff.mp hplan
    exact inv_switchContext h hu (.inl rfl) hx
  | migrate k c home =>
    obtain ⟨u, hu, hmigrate⟩ := Option.bind_eq_some_iff.mp hplan
    exact inv_migrate h hu hmigrate hx
  | terminate k =>
    obtain ⟨u, hu, rfl⟩ := Option.map_eq_some_iff.mp hplan
    exact inv_switchContext h hu (.inr (.inr (.inl rfl))) hx
  | wait k b =>
    obtain ⟨u, hu, rfl⟩ := Option.map_eq_some_iff.mp hplan
    exact inv_switchContext h hu (.inr (.inr (.inr ⟨rfl, rfl⟩))) hx
  | block k d =>
    obtain ⟨u, hu, rfl⟩ := Option.map_eq_some_iff.mp hplan
    unfold block at hx
    split at hx
    next hd =>
      obtain ⟨rfl, rfl⟩ := Ctl.call_leads hx
      exact inv_setSlot h (by simp [hd]) (by simp)
    all_goals exact inv_switchContext h hu (.inr (.inr (.inr ⟨rfl, rfl⟩))) hx
  | signal k b =>
    simp only [plan] at hplan
    split_ifs at hplan
    cases hplan
    obtain ⟨r, hexec, hnext⟩ := hx
    simp only [Lists.exec, Option.some.injEq] at hexec
    rcases Lists.tryPop_cases hexec with ⟨v, us, hl, rfl, rfl⟩ | ⟨hl, rfl, rfl⟩
    · cases hnext
      exact inv_signal h hl
    · cases hnext
      exact h
  | wake k home =>
    simp only [plan] at hplan
    split at hplan
    next u us hhands => exact inv_wake h hhands hplan hx
    next => cases hplan
  | resume u home =>
    simp only [plan] at hplan
    split_ifs at hplan
    rcases resume_leads hplan hx with ⟨-, rfl, rfl⟩ | ⟨hr, -⟩
    · exact h
    · simp [show (s.ut u).state.resumable = false from hc] at hr
  | switch k home choice => exact inv_switchStep h hc hplan hx
  | poll =>
    simp only [plan] at hplan
    split_ifs at hplan
    cases hplan
    obtain ⟨rfl, rfl⟩ := Ctl.call_leads hx
    exact inv_poll h
  | unblock d =>
    simp only [plan] at hplan
    split_ifs at hplan with hpoller
    cases hplan
    obtain ⟨rfl, rfl⟩ := Ctl.call_leads hx
    exact inv_unblock h hpoller
  | prepareBulkPush =>
    simp only [plan] at hplan
    split at hplan
    next u hpoller => exact inv_prepareBulkPush h hpoller hplan hx
    next => cases hplan
  | bulkPush j =>
    simp only [plan] at hplan
    split_ifs at hplan with hpoller
    split at hplan
    next c _ =>
      cases hplan
      exact inv_bulkPushCluster h hpoller.1 hc hx
    next k _ =>
      cases hplan
      exact inv_bulkPushkThread h hpoller.1 hc hx
    next => cases hplan
  | pushChain =>
    simp only [plan] at hplan
    split at hplan
    next k hpoller =>
      cases hplan
      exact inv_pushChain h hpoller hc hx
    next => cases hplan

/-- **The invariant** holds in every run whose steps are allowed. -/
theorem inv_reachable {s : Ctl U K C B D × Lists U K C B}
    (h : (machine lists cfg).ReachableBy (Allowed labels counts cfg) s) :
    Inv labels counts cfg s.1 s.2 := by
  refine h.invariant (I := fun s => Inv labels counts cfg s.1 s.2) ?_ ?_
  · rintro s rfl
    exact inv_initial
  · intro s a s' hinv hc hstep
    obtain ⟨x, hplan, hx⟩ := step_eq_some.mp hstep
    exact inv_plan hinv hc hplan hx

end UThreads.Handover
