import UThreads.Io.PollingBulk
import UThreads.Lib.Update

/-!
# `IOHandler`: the places of the uThreads

A uThread that waits is in one slot, in the hand of the thread that polls, on one bulk queue or on
one run queue, and its position says which (`Places`). There is one lemma for each way in which a
uThread moves.
-/

namespace UThreads.Polling

open IOHandler (Dir Slot)
open Poll (Event Wait)

variable {D U K T : Type*} [DecidableEq D] [DecidableEq U] [DecidableEq K] [DecidableEq T]
  {cfg : Config K} {s s' : State D U K T} {t t' : Option T} {x : Poller D U K} {u v : U} {k : K}

/-! ## The places of the uThreads -/

/-- Where a uThread waits. -/
inductive Loc (D K : Type*)
  | slot (d : D) (utp : Dir)
  /-- taken out of its slot by the thread that polls -/
  | hand
  | bulkQueue (k : K)
  | runQueue (k : K)

def Pos.loc : Pos D K → Option (Loc D K)
  | .parked d utp => some (.slot d utp)
  | .taken => some .hand
  | .bulkQueue k => some (.bulkQueue k)
  | .runQueue k => some (.runQueue k)
  | _ => none

/-- The uThread that the thread has taken out of its slot. -/
def Poller.wakes : Poller D U K → Option U
  | .unblock _ _ (.wake u) _ => some u
  | _ => none

def State.At (s : State D U K T) (u : U) : Loc D K → Prop
  | .slot d utp => s.slot d utp = .parked u
  | .hand => ∃ t, (s.poller t).wakes = some u
  | .bulkQueue k => u ∈ s.bulkQueue k
  | .runQueue k => u ∈ s.runQueue k

/-- The slot that the uThread is about to clear. -/
def Pos.clears : Pos D K → Option (D × Dir)
  | .blockClear d utp | .hookClear d utp => some (d, utp)
  | _ => none

/-- The thread has not taken a uThread out of a slot. -/
def Unblock.quiet : Unblock U K → Bool
  | .wake _ | .bump _ => false
  | _ => true

def Closer.quiet : Closer D U K → Bool
  | .unblockRut _ x | .unblockWut _ x => x.quiet
  | _ => true

structure Places (s : State D U K T) : Prop where
  at_iff : ∀ u l, s.At u l ↔ (s.pos u).loc = some l
  bulkQueue : ∀ k, (s.bulkQueue k).Nodup
  runQueue : ∀ k, (s.runQueue k).Nodup
  /-- One uThread at a time is in `block` or `postSwitchFunc` of a `PollData`. -/
  user : ∀ u v d, (s.pos u).pd = some d → (s.pos v).pd = some d → u = v
  /-- A slot that is cleared has nobody in it. -/
  clear : ∀ u d utp, (s.pos u).clears = some (d, utp) → ∀ v, s.slot d utp ≠ .parked v
  closer : ∀ t, (s.closer t).quiet = true

omit [DecidableEq D] [DecidableEq K] in
theorem Pos.pd_of_clears {p : Pos D K} {d : D} {utp : Dir} (h : p.clears = some (d, utp)) :
    p.pd = some d := by
  cases p <;> simp_all [Pos.clears, Pos.pd]

omit [DecidableEq D] [DecidableEq U] [DecidableEq K] in
theorem Poller.inside_of_wakes (h : x.wakes = some u) : x.inside = true := by
  cases x <;> first | rfl | cases h

/-- What a step that moves no uThread leaves alone. -/
structure SamePlaces (s s' : State D U K T) : Prop where
  pos : s'.pos = s.pos
  slot : ∀ d utp v, s'.slot d utp = .parked v ↔ s.slot d utp = .parked v
  bulkQueue : s'.bulkQueue = s.bulkQueue
  runQueue : s'.runQueue = s.runQueue
  poller : s'.poller = s.poller
  closer : s'.closer = s.closer

omit [DecidableEq D] [DecidableEq U] [DecidableEq K] [DecidableEq T] in
theorem Places.congr (h : Places s) (hs : SamePlaces s s') : Places s' := by
  obtain ⟨hpos, hslot, hb, hr, hp, hc⟩ := hs
  refine ⟨fun v l => ?_, by rw [hb]; exact h.bulkQueue, by rw [hr]; exact h.runQueue,
    by rw [hpos]; exact h.user,
    fun v d utp hv w hw => ?_, by rw [hc]; exact h.closer⟩
  · rw [hpos, ← h.at_iff]
    cases l with
    | slot d utp => exact hslot d utp v
    | hand => simp only [State.At, hp]
    | bulkQueue k => simp only [State.At, hb]
    | runQueue k => simp only [State.At, hr]
  · rw [hpos] at hv
    exact h.clear v d utp hv w ((hslot d utp w).mp hw)

omit [DecidableEq T] [DecidableEq D] [DecidableEq K] in
/-- uThread `u` comes to `p`. -/
theorem Places.move {p : Pos D K} (h : Places s) (hpos : s'.pos = Function.update s.pos u p)
    (hat : ∀ v l, s'.At v l ↔ v ≠ u ∧ s.At v l ∨ v = u ∧ p.loc = some l)
    (hb : ∀ k, (s'.bulkQueue k).Nodup)
    (hr : ∀ k, (s'.runQueue k).Nodup)
    (huser : ∀ d, p.pd = some d → (s.pos u).pd = some d ∨ ∀ v, (s.pos v).pd ≠ some d)
    (hclear : ∀ d utp, p.clears = some (d, utp) → ∀ v, s'.slot d utp ≠ .parked v)
    (hpark : ∀ d utp, p.loc = some (.slot d utp) → (s.pos u).pd = some d)
    (hc : ∀ t, (s'.closer t).quiet = true) : Places s' := by
  have hother : ∀ v, v ≠ u → s'.pos v = s.pos v :=
    fun v hv => by rw [hpos, Function.update_of_ne hv]
  have hself : s'.pos u = p := by rw [hpos, Function.update_self]
  refine ⟨fun v l => ?_, hb, hr, fun v w d hv hw => ?_, fun v d utp hv w hw => ?_, hc⟩
  · rw [hat]
    by_cases hvu : v = u
    · simp [hvu, hself]
    · simp [hvu, hother v hvu, h.at_iff]
  · refine Update.one_index (Q := fun v d => (s'.pos v).pd = some d) (c := u) h.user
      (fun v d hv hd => ?_) (fun v d hv hp hd => ?_) v w d hv hw
    · rwa [hother v hv] at hd
    rw [hself] at hp
    rcases huser d hp with hu | hn
    · exact hv (h.user v u d hd hu)
    · exact hn v hd
  · by_cases hvu : v = u
    · rw [hvu, hself] at hv
      exact hclear d utp hv w hw
    · rw [hother v hvu] at hv
      rcases (hat w (.slot d utp)).mp hw with ⟨-, hold⟩ | ⟨-, hp⟩
      · exact h.clear v d utp hv w hold
      · exact hvu (h.user v u d (Pos.pd_of_clears hv) (hpark d utp hp))

omit [DecidableEq D] [DecidableEq K] [DecidableEq T] in
/-- A place that `u` neither leaves nor comes to. -/
theorem at_other {p : Pos D K} {l : Loc D K} (hs : s'.At v l ↔ s.At v l) (hu : ¬s.At u l)
    (hp : p.loc ≠ some l) : s'.At v l ↔ v ≠ u ∧ s.At v l ∨ v = u ∧ p.loc = some l := by
  rw [hs]
  by_cases hv : v = u
  · subst hv
    simp [hu, hp]
  · simp [hv]

omit [DecidableEq D] [DecidableEq U] [DecidableEq K] [DecidableEq T] in
/-- uThread `u` waits nowhere. -/
theorem Places.nowhere (h : Places s) (hu : (s.pos u).loc = none) (l : Loc D K) : ¬s.At u l := by
  rw [h.at_iff, hu]
  exact (Option.some_ne_none l).symm

/-! ### The steps of the uThreads -/

section Running

variable {d : D} {utp : Dir}

omit [DecidableEq U] [DecidableEq K] [DecidableEq T] in
theorem setSlot_at {y : Slot U} {d' : D} {utp' : Dir} :
    (s.setSlot d utp y).slot d' utp' = if d' = d ∧ utp' = utp then y else s.slot d' utp' := by
  by_cases hd : d' = d
  · subst hd
    by_cases hu : utp' = utp
    · subst hu
      simp [State.setSlot]
    · simp [State.setSlot, hu]
  · simp [State.setSlot, hd]

omit [DecidableEq T] [DecidableEq D] [DecidableEq K] in
/-- A step in the code of `block` or `postSwitchFunc` after which `u` waits nowhere. -/
theorem Places.goto {p : Pos D K} (h : Places s) (hold : (s.pos u).loc = none) (hp : p.loc = none)
    (huser : ∀ d, p.pd = some d → (s.pos u).pd = some d ∨ ∀ v, (s.pos v).pd ≠ some d)
    (hclear : ∀ d utp, p.clears = some (d, utp) → ∀ v, s.slot d utp ≠ .parked v) :
    Places (s.goto u p) := by
  refine h.move rfl (fun v l => ?_) h.bulkQueue h.runQueue huser hclear (by simp [hp]) h.closer
  exact at_other (by cases l <;> rfl) (h.nowhere hold l) (by simp [hp])

omit [DecidableEq U] [DecidableEq K] [DecidableEq T] in
/-- A write to a slot with nobody in it. -/
theorem parked_setSlot {y : Slot U} (hold : ∀ v, s.slot d utp ≠ .parked v)
    (hy : ∀ v, y ≠ .parked v) (d' : D)
    (utp' : Dir) (v : U) : (s.setSlot d utp y).slot d' utp' = .parked v ↔
    s.slot d' utp' = .parked v := by
  rw [setSlot_at]
  split
  case isTrue he =>
    obtain ⟨rfl, rfl⟩ := he
    exact iff_of_false (hy v) (hold v)
  case isFalse => rfl

omit [DecidableEq T] [DecidableEq D] in
/-- `resume()` on a uThread that waits in no slot and on no queue -/
theorem Places.resume (h : Places s) (hpd : ∀ l, s.At u l → l = .hand)
    (hp : s'.pos = (s.resume u).pos)
    (hslot : s'.slot = s.slot) (hhand : ∀ v, s'.At v .hand ↔ v ≠ u ∧ s.At v .hand)
    (hb : s'.bulkQueue = s.bulkQueue)
    (hr : s'.runQueue = (s.resume u).runQueue) (hcloser : s'.closer = s.closer) : Places s' := by
  have hno : ∀ l, l ≠ .hand → ¬s.At u l := fun l hl hs => hl (hpd l hs)
  have hnot : ∀ k, u ∉ s.runQueue k := fun k => hno (.runQueue k) (by simp)
  have hrun : ∀ v j, v ∈ s'.runQueue j ↔ v ∈ s.runQueue j ∨ v = u ∧ j = s.homekThread u := by
    intro v j
    rw [hr]
    by_cases hj : j = s.homekThread u
    · subst hj
      simp [State.resume, State.goto]
    · simp [State.resume, State.goto, hj]
  refine h.move (p := .runQueue (s.homekThread u)) hp (fun v l => ?_)
    (by rw [hb]; exact h.bulkQueue) (fun j => ?_)
    (by simp [Pos.pd]) (by simp [Pos.clears]) (by simp [Pos.loc]) (by rw [hcloser]; exact h.closer)
  · cases l with
    | slot d utp =>
      exact at_other (by simp only [State.At, hslot]) (hno _ (by simp)) (by simp [Pos.loc])
    | hand => simp [hhand, Pos.loc]
    | bulkQueue k =>
      exact at_other (by simp only [State.At, hb]) (hno _ (by simp)) (by simp [Pos.loc])
    | runQueue k =>
      by_cases hv : v = u
      · simp [State.At, hrun, hv, hnot, Pos.loc, eq_comm]
      · simp [State.At, hrun, hv]
  · rw [hr]
    by_cases hj : j = s.homekThread u
    · subst hj
      simpa [State.resume, State.goto, List.nodup_append]
        using ⟨h.runQueue _, fun v hv hvu => hnot _ (hvu ▸ hv)⟩
    · simpa [State.resume, State.goto, hj] using h.runQueue j

omit [DecidableEq T] [DecidableEq K] in
theorem Places.park (h : Places s) (hpos : s.pos u = .hookCas d utp)
    (hslot : s.slot d utp = .null) :
    Places ((s.setSlot d utp (.parked u)).goto u (.parked d utp)) := by
  have hno := h.nowhere (u := u) (by rw [hpos]; rfl)
  refine h.move (p := .parked d utp) rfl (fun v l => ?_) h.bulkQueue h.runQueue (by simp [Pos.pd])
    (by simp [Pos.clears]) (fun d' utp' hd => ?_) h.closer
  · cases l with
    | slot d' utp' =>
      by_cases he : d' = d ∧ utp' = utp
      · obtain ⟨rfl, rfl⟩ := he
        simp [State.At, State.goto, setSlot_at, hslot, Pos.loc, eq_comm]
      · exact at_other (by simp [State.At, State.goto, setSlot_at, he]) (hno _)
          fun hl => he (by simpa [Pos.loc, eq_comm] using hl)
    | hand | bulkQueue | runQueue => exact at_other Iff.rfl (hno _) (by simp [Pos.loc])
  · obtain ⟨rfl, -⟩ : d = d' ∧ utp = utp' := by simpa [Pos.loc] using hd
    rw [hpos]
    rfl

end Running

/-! ### The steps of the thread that polls -/

section Waking

variable {d : D} {utp : Dir} {todo : List (D × Dir)}

omit [DecidableEq D] [DecidableEq U] [DecidableEq K] in
/-- The hand of the thread that polls, after a step of it. -/
theorem hand_advance (s' : State D U K T) (hg : Guard cfg s) (ht : (s.poller t).inside = true)
    (hp : s'.poller = Function.update s.poller t x) (v : U) : s'.At v .hand ↔ x.wakes = some v := by
  simp only [State.At, hp]
  refine ⟨?_, fun hx => ⟨t, by simpa using hx⟩⟩
  rintro ⟨r, hr⟩
  by_cases hrt : r = t
  · subst hrt
    simpa using hr
  · rw [Function.update_of_ne hrt] at hr
    exact absurd (hg.alone (Poller.inside_of_wakes hr) ht) hrt

omit [DecidableEq D] [DecidableEq U] [DecidableEq K] in
theorem hand_iff (hg : Guard cfg s) (ht : (s.poller t).inside = true) (v : U) :
    s.At v .hand ↔ (s.poller t).wakes = some v :=
  hand_advance s hg ht (Function.update_eq_self t s.poller).symm v

omit [DecidableEq D] [DecidableEq U] [DecidableEq K] in
/-- A step that leaves the uThreads where they are, in the poll or outside of it. -/
theorem Places.advance (h : Places s) (ht : (s.poller t).wakes = none) (hx : x.wakes = none) :
    Places (s.advance t x) := by
  refine ⟨fun v l => ?_, h.bulkQueue, h.runQueue, h.user, h.clear, h.closer⟩
  have hat := h.at_iff v l
  cases l with
  | hand =>
    refine (exists_congr fun r => ?_).trans hat
    by_cases hrt : r = t
    · subst hrt
      simp [State.advance, hx, ht]
    · simp [State.advance, hrt]
  | slot | bulkQueue | runQueue => exact hat

omit [DecidableEq D] [DecidableEq U] [DecidableEq K] [DecidableEq T] in
/-- A uThread that waits at `l` waits nowhere else. -/
theorem Places.not_at (h : Places s) {l l' : Loc D K} (hl : s.At u l) (hne : l' ≠ l) :
    ¬s.At u l' := by
  rw [h.at_iff, (h.at_iff u l).mp hl]
  exact fun he => hne (Option.some.inj he).symm

omit [DecidableEq K] in
/-- The compare-and-exchange takes `u` out of its slot. -/
theorem Places.take (h : Places s) (hg : Guard cfg s)
    (ht : s.poller t = .unblock d utp (.cas (.parked u)) todo) (hslot : s.slot d utp = .parked u) :
    Places (((s.setSlot d utp .null).goto u .taken).advance t (.unblock d utp (.wake u) todo)) := by
  have hin : (s.poller t).inside = true := by rw [ht]; rfl
  have hno : ∀ l, l ≠ .slot d utp → ¬s.At u l := fun l => h.not_at (l := .slot d utp) hslot
  refine h.move (u := u) (p := .taken) rfl (fun v l => ?_) h.bulkQueue h.runQueue (by simp [Pos.pd])
    (by simp [Pos.clears]) (by simp [Pos.loc]) h.closer
  cases l with
  | slot d' utp' =>
    by_cases he : d' = d ∧ utp' = utp
    · obtain ⟨rfl, rfl⟩ := he
      simp [State.At, State.goto, State.advance, setSlot_at, hslot, Pos.loc, eq_comm]
    · -- `u` is in one slot only.
      exact at_other (by simp [State.At, State.goto, State.advance, setSlot_at, he])
        (hno _ (by simpa using he)) (by simp [Pos.loc])
  | hand =>
    rw [hand_advance _ (x := .unblock d utp (.wake u) todo) hg hin rfl, hand_iff hg hin, ht]
    simp [Poller.wakes, Pos.loc, eq_comm]
  | bulkQueue | runQueue => exact at_other Iff.rfl (hno _ (by simp)) (by simp [Pos.loc])

omit [DecidableEq D] [DecidableEq U] [DecidableEq K] [DecidableEq T] in
/-- What the thread that polls has in its hand is nowhere else. -/
theorem Places.in_hand (h : Places s) (ht : (s.poller t).wakes = some u) (l : Loc D K)
    (hl : s.At u l) : l = .hand := by
  by_contra hne
  exact h.not_at (l := .hand) ⟨t, ht⟩ hne hl

omit [DecidableEq D] in
/-- `old->resume()` -/
theorem Places.wakeResume (h : Places s) (hg : Guard cfg s)
    (ht : s.poller t = .unblock d utp (.wake u) todo) :
    Places ({ s.resume u with delivered := s.delivered + 1 }.advance t
    (.unblock d utp (.ret true) todo)) := by
  have hin : (s.poller t).inside = true := by rw [ht]; rfl
  refine h.resume (h.in_hand (t := t) (by rw [ht]; rfl)) rfl rfl (fun v => ?_) rfl rfl rfl
  rw [hand_advance _ (x := .unblock d utp (.ret true) todo) hg hin rfl, hand_iff hg hin, ht]
  simp [Poller.wakes, eq_comm]

omit [DecidableEq D] in
/-- `bulkQueue.push(*ut)` -/
theorem Places.wakeBulk (h : Places s) (hg : Guard cfg s)
    (ht : s.poller t = .unblock d utp (.wake u) todo) :
    Places ((s.pushBulk u).advance t (.unblock d utp (.bump (s.homekThread u)) todo)) := by
  have hin : (s.poller t).inside = true := by rw [ht]; rfl
  have hno : ∀ l, l ≠ .hand → ¬s.At u l := fun l => h.not_at (l := .hand) ⟨t, by rw [ht]; rfl⟩
  have hnot : ∀ k, u ∉ s.bulkQueue k := fun k => hno (.bulkQueue k) (by simp)
  refine h.move (u := u) (p := .bulkQueue (s.homekThread u)) rfl (fun v l => ?_)
    (fun j => ?_) h.runQueue (by simp [Pos.pd]) (by simp [Pos.clears]) (by simp [Pos.loc]) h.closer
  · cases l with
    | slot | runQueue => exact at_other Iff.rfl (hno _ (by simp)) (by simp [Pos.loc])
    | hand =>
      rw [hand_advance _ (x := .unblock d utp (.bump (s.homekThread u)) todo) hg hin rfl,
        hand_iff hg hin, ht]
      simp [Poller.wakes, Pos.loc, eq_comm]
    | bulkQueue j =>
      show v ∈ (s.pushBulk u).bulkQueue j ↔ _
      by_cases hv : v = u <;> by_cases hj : j = s.homekThread u <;>
        simp [State.pushBulk, State.goto, State.At, Pos.loc, hv, hj, hnot, Ne.symm]
  · by_cases hj : j = s.homekThread u
    · subst hj
      simpa [State.advance, State.pushBulk, State.goto, List.nodup_append] using
        ⟨h.bulkQueue _, fun v hv hvu => hnot _ (hvu ▸ hv)⟩
    · simpa [State.advance, State.pushBulk, State.goto, hj] using h.bulkQueue j

omit [DecidableEq D] in
/-- `schedule(bulkQueue, bulkCounter)` -/
theorem Places.schedule {ks : List K} (h : Places s) (hg : Guard cfg s)
    (ht : s.poller t = .schedule k ks) : Places ((s.schedule k).advance t (.zero k ks)) := by
  have hin : (s.poller t).inside = true := by rw [ht]; rfl
  have hhand := hand_advance ((s.schedule k).advance t (.zero k ks)) hg hin rfl
  have hold := hand_iff hg hin
  rw [ht] at hold
  have hpos : ∀ v, v ∈ s.bulkQueue k → s.pos v = .bulkQueue k := by
    intro v hv
    have hl := (h.at_iff v (.bulkQueue k)).mp hv
    cases hp : s.pos v <;> simp_all [Pos.loc]
  have hdisj : ∀ v, v ∈ s.runQueue k → v ∉ s.bulkQueue k := by
    intro v hr hb
    have hl := (h.at_iff v (.runQueue k)).mp hr
    simp [hpos v hb, Pos.loc] at hl
  have hnew : ∀ v, ((s.schedule k).advance t (.zero k ks)).pos v = if v ∈ s.bulkQueue k then
    .runQueue k else s.pos v :=
    fun v => rfl
  refine ⟨fun v l => ?_, fun j => ?_, fun j => ?_, fun v w d' hv hw => ?_,
    fun v d' utp' hv => ?_, h.closer⟩
  · rw [hnew]
    by_cases hv : v ∈ s.bulkQueue k
    · have hl := h.at_iff v
      rw [hpos v hv] at hl
      rw [if_pos hv]
      cases l with
      | slot d' utp' =>
        have hnot : s.slot d' utp' ≠ .parked v := fun hs => by
          simpa [Pos.loc] using (hl (.slot d' utp')).mp hs
        exact iff_of_false hnot (by simp [Pos.loc])
      | hand =>
        rw [hhand]
        simp [Poller.wakes, Pos.loc]
      | bulkQueue j =>
        refine iff_of_false (fun hs => ?_) (by simp [Pos.loc])
        by_cases hj : j = k
        · simp [State.At, State.advance, State.schedule, hj] at hs
        · have hs' := (hl (.bulkQueue j)).mp
            (by simpa [State.At, State.advance, State.schedule, hj] using hs)
          simp [Pos.loc] at hs'
          exact hj hs'.symm
      | runQueue j =>
        by_cases hj : j = k
        · subst hj
          simp [State.At, State.advance, State.schedule, hv, Pos.loc]
        · refine iff_of_false (fun hs => ?_) (by simpa [Pos.loc] using Ne.symm hj)
          have hs' := (hl (.runQueue j)).mp
            (by simpa [State.At, State.advance, State.schedule, hj] using hs)
          simp [Pos.loc] at hs'
    · rw [if_neg hv, ← h.at_iff]
      cases l with
      | slot d' utp' => exact Iff.rfl
      | hand =>
        rw [hhand, hold]
        simp [Poller.wakes]
      | bulkQueue j =>
        by_cases hj : j = k
        · subst hj
          simp [State.At, State.advance, State.schedule, hv]
        · simp [State.At, State.advance, State.schedule, hj]
      | runQueue j =>
        by_cases hj : j = k
        · subst hj
          simp [State.At, State.advance, State.schedule, hv]
        · simp [State.At, State.advance, State.schedule, hj]
  · by_cases hj : j = k
    · simp [State.advance, State.schedule, hj]
    · simpa [State.advance, State.schedule, hj] using h.bulkQueue j
  · by_cases hj : j = k
    · subst hj
      simpa [State.advance, State.schedule] using List.Nodup.append (h.runQueue j)
        (h.bulkQueue j) hdisj
    · simpa [State.advance, State.schedule, hj] using h.runQueue j
  · rw [hnew] at hv hw
    split at hv
    · cases hv
    · split at hw
      · cases hw
      · exact h.user v w d' hv hw
  · rw [hnew] at hv
    split at hv
    · cases hv
    · exact h.clear v d' utp' hv

end Waking

end UThreads.Polling
