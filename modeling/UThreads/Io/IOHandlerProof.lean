import UThreads.Io.IOHandler
import Mathlib.Tactic.Common
import Mathlib.Data.List.Nodup

/-!
# `IOHandler`: where the uThreads are

`Places` says where the uThreads are: a uThread in a slot is parked, one in the hands of an
`unblock` is taken, and the bulk queues hold the others that wait for the flush. It holds in every
run, `close` included, and with it each suspension is followed by at most one hand-over
(`Counted`). `UnblockStep`, `PollStep` and `CloseStep` say what a step of `unblock`, of the poller
and of `close` does.
-/

namespace UThreads.IOHandler

variable {K : Type*}

/-- The uThread an `unblock` has taken out of its slot and has still to queue. -/
def Unblock.ut? : Unblock Dir → Option Dir
  | .push ut | .pushing ut => some ut
  | _ => none

/-- The slot an `unblock` has still to look at. -/
def Unblock.utp? : Unblock Dir → Option Dir
  | .closing q | .read q | .cas q _ => some q
  | _ => none

def Poller.ut? : Poller K → Option Dir
  | .unblock u _ => u.ut?
  | _ => none

def Closer.ut? : Closer → Option Dir
  | .unblockRut u | .unblockWut u => u.ut?
  | _ => none

/-- The positions of a uThread that no one else has. -/
def Pos.own : Pos → Bool
  | .parked | .taken | .bulkQueue => false
  | _ => true

theorem Pos.ne_of_own {x : Pos} (h : x.own = true) : x ≠ .parked ∧ x ≠ .taken ∧ x ≠ .bulkQueue := by
  refine ⟨?_, ?_, ?_⟩ <;> rintro rfl <;> cases h

/-- Between the store of `isBlockingOnRead` and its load. -/
def Pos.flagged : Pos → Bool
  | .suspend | .hookClosing | .hookFlag => true
  | _ => false

/-- The slot `postSwitchFunc` works on. -/
def Pos.utp? : Pos → Option Dir
  | .hookRead q | .hookClear q | .hookCas q => some q
  | _ => none

/-- **Where the uThreads are**, with `p` and `c` those in the hands of the poller and of `close`. -/
structure Places (home : Dir → K) (slot : Dir → Slot Dir) (pos : Dir → Pos)
    (bulkQueue : K → List Dir) (p c : Option Dir) : Prop where
  parked : ∀ q e, slot q = .parked e → pos e = .parked
  parked_inj : ∀ q r e, slot q = .parked e → slot r = .parked e → q = r
  taken : ∀ e, pos e = .taken ↔ p = some e ∨ c = some e
  taken_inj : ∀ e, p = some e → c ≠ some e
  queued : ∀ e, pos e = .bulkQueue ↔ e ∈ bulkQueue (home e)
  at_home : ∀ k e, e ∈ bulkQueue k → k = home e
  nodup : ∀ k, (bulkQueue k).Nodup

namespace Places

variable {home : Dir → K} {slot : Dir → Slot Dir} {pos : Dir → Pos} {bulkQueue : K → List Dir}
  {p c : Option Dir}

theorem swap (h : Places home slot pos bulkQueue p c) : Places home slot pos bulkQueue c p :=
  { h with
    taken := fun e => (h.taken e).trans or_comm
    taken_inj := fun e hc hp => h.taken_inj e hp hc }

/-- A uThread on its own moves on. -/
theorem goto (h : Places home slot pos bulkQueue p c) {d : Dir} {x : Pos} (hd : (pos d).own = true)
    (hx : x.own = true) : Places home slot (Function.update pos d x) bulkQueue p c := by
  replace hd := Pos.ne_of_own hd
  replace hx := Pos.ne_of_own hx
  refine { h with parked := ?_, taken := ?_, queued := ?_ }
  · intro q e hq
    have hne : e ≠ d := by
      rintro rfl
      exact hd.1 (h.parked q e hq)
    rw [Function.update_of_ne hne]
    exact h.parked q e hq
  · intro e
    by_cases hne : e = d
    · subst hne
      rw [Function.update_self]
      exact iff_of_false hx.2.1 fun he => hd.2.1 ((h.taken e).mpr he)
    · rw [Function.update_of_ne hne]
      exact h.taken e
  · intro e
    by_cases hne : e = d
    · subst hne
      rw [Function.update_self]
      exact iff_of_false hx.2.2 fun he => hd.2.2 ((h.queued e).mpr he)
    · rw [Function.update_of_ne hne]
      exact h.queued e

/-- A store of `nullptr` or `POLL_READY`. -/
theorem setSlot (h : Places home slot pos bulkQueue p c) {q : Dir} {x : Slot Dir}
    (hx : ∀ e, x ≠ .parked e) : Places home (Function.update slot q x) pos bulkQueue p c := by
  have hold : ∀ r e, Function.update slot q x r = .parked e → slot r = .parked e := by
    intro r e hr
    by_cases hne : r = q
    · subst hne
      rw [Function.update_self] at hr
      exact absurd hr (hx e)
    · rw [Function.update_of_ne hne] at hr
      exact hr
  exact { h with
    parked := fun r e hr => h.parked r e (hold r e hr)
    parked_inj := fun r r' e hr hr' => h.parked_inj r r' e (hold r e hr) (hold r' e hr') }

/-- A uThread parks. -/
theorem park (h : Places home slot pos bulkQueue p c) {d q : Dir} (hd : (pos d).own = true)
    (hfree : ∀ e, slot q ≠ .parked e) :
    Places home (Function.update slot q (.parked d))
    (Function.update pos d .parked) bulkQueue p c := by
  replace hd := Pos.ne_of_own hd
  have hnot : ∀ r e, slot r = .parked e → e ≠ d := by
    rintro r e hr rfl
    exact hd.1 (h.parked r e hr)
  refine { h with parked := ?_, parked_inj := ?_, taken := ?_, queued := ?_ }
  · intro r e hr
    by_cases hne : r = q
    · subst hne
      rw [Function.update_self] at hr
      obtain rfl := Slot.parked.inj hr
      rw [Function.update_self]
    · rw [Function.update_of_ne hne] at hr
      rw [Function.update_of_ne (hnot r e hr)]
      exact h.parked r e hr
  · intro r r' e hr hr'
    by_cases hne : r = q <;> by_cases hne' : r' = q
    · rw [hne, hne']
    · rw [hne, Function.update_self] at hr
      rw [Function.update_of_ne hne'] at hr'
      exact absurd (Slot.parked.inj hr).symm (hnot r' e hr')
    · rw [hne', Function.update_self] at hr'
      rw [Function.update_of_ne hne] at hr
      exact absurd (Slot.parked.inj hr').symm (hnot r e hr)
    · rw [Function.update_of_ne hne] at hr
      rw [Function.update_of_ne hne'] at hr'
      exact h.parked_inj r r' e hr hr'
  · intro e
    by_cases hne : e = d
    · subst hne
      rw [Function.update_self]
      exact iff_of_false nofun fun he => hd.2.1 ((h.taken e).mpr he)
    · rw [Function.update_of_ne hne]
      exact h.taken e
  · intro e
    by_cases hne : e = d
    · subst hne
      rw [Function.update_self]
      exact iff_of_false nofun fun he => hd.2.2 ((h.queued e).mpr he)
    · rw [Function.update_of_ne hne]
      exact h.queued e

/-- An `unblock` takes the uThread out of its slot. -/
theorem take (h : Places home slot pos bulkQueue none c) {q ut : Dir} (hq : slot q = .parked ut) :
    Places home (Function.update slot q .null) (Function.update pos ut .taken) bulkQueue
      (some ut) c := by
  have hut : pos ut = .parked := h.parked q ut hq
  have hold : ∀ r e, Function.update slot q .null r = .parked e → slot r = .parked e ∧ e ≠ ut := by
    intro r e hr
    by_cases hne : r = q
    · subst hne
      rw [Function.update_self] at hr
      cases hr
    · rw [Function.update_of_ne hne] at hr
      refine ⟨hr, ?_⟩
      rintro rfl
      exact hne (h.parked_inj r q e hr hq)
  refine { h with parked := ?_, parked_inj := ?_, taken := ?_, taken_inj := ?_, queued := ?_ }
  · intro r e hr
    obtain ⟨hr, hne⟩ := hold r e hr
    rw [Function.update_of_ne hne]
    exact h.parked r e hr
  · intro r r' e hr hr'
    exact h.parked_inj r r' e (hold r e hr).1 (hold r' e hr').1
  · intro e
    by_cases hne : e = ut
    · subst hne
      rw [Function.update_self]
      exact iff_of_true rfl (.inl rfl)
    · rw [Function.update_of_ne hne, h.taken e]
      constructor
      · rintro (he | he)
        · cases he
        · exact .inr he
      · rintro (he | he)
        · exact absurd (Option.some.inj he).symm hne
        · exact .inr he
  · intro e he hc
    obtain rfl := Option.some.inj he
    have := (h.taken ut).mpr (.inr hc)
    rw [hut] at this
    cases this
  · intro e
    by_cases hne : e = ut
    · subst hne
      rw [Function.update_self, ← h.queued e, hut]
      exact iff_of_false nofun nofun
    · rw [Function.update_of_ne hne]
      exact h.queued e

variable [DecidableEq K]

/-- `prepareBulkPush` -/
theorem push {ut : Dir} (h : Places home slot pos bulkQueue (some ut) c) :
    Places home slot (Function.update pos ut .bulkQueue)
      (Function.update bulkQueue (home ut) (bulkQueue (home ut) ++ [ut])) none c := by
  have hut : pos ut = .taken := (h.taken ut).mpr (.inl rfl)
  have hmem : ut ∉ bulkQueue (home ut) := by
    rw [← h.queued ut, hut]
    exact nofun
  have hold : ∀ k e, e ∈ Function.update bulkQueue (home ut) (bulkQueue (home ut) ++ [ut]) k ↔
      e ∈ bulkQueue k ∨ e = ut ∧ k = home ut := by
    intro k e
    by_cases hk : k = home ut
    · rw [hk, Function.update_self, List.mem_append, List.mem_singleton]
      simp
    · rw [Function.update_of_ne hk]
      simp [hk]
  refine { h with
    parked := ?_, taken := ?_, taken_inj := nofun, queued := ?_, at_home := ?_, nodup := ?_ }
  · intro r e hr
    have hne : e ≠ ut := by
      rintro rfl
      rw [h.parked r e hr] at hut
      cases hut
    rw [Function.update_of_ne hne]
    exact h.parked r e hr
  · intro e
    by_cases hne : e = ut
    · subst hne
      rw [Function.update_self]
      refine iff_of_false nofun ?_
      rintro (he | he)
      · cases he
      · exact h.taken_inj e rfl he
    · rw [Function.update_of_ne hne, h.taken e]
      constructor
      · rintro (he | he)
        · exact absurd (Option.some.inj he).symm hne
        · exact .inr he
      · rintro (he | he)
        · cases he
        · exact .inr he
  · intro e
    rw [hold]
    by_cases hne : e = ut
    · subst hne
      rw [Function.update_self]
      exact iff_of_true rfl (.inr ⟨rfl, rfl⟩)
    · rw [Function.update_of_ne hne, h.queued e]
      simp [hne]
  · intro k e he
    rcases (hold k e).mp he with he | ⟨rfl, rfl⟩
    · exact h.at_home k e he
    · rfl
  · intro k
    by_cases hk : k = home ut
    · rw [hk, Function.update_self, ← List.concat_eq_append]
      exact (h.nodup (home ut)).concat hmem
    · rw [Function.update_of_ne hk]
      exact h.nodup k

/-- The flush of a bulk queue. -/
theorem flush (h : Places home slot pos bulkQueue p c) (k : K) :
    Places home slot (fun d => if d ∈ bulkQueue k then .runQueue else pos d)
      (Function.update bulkQueue k []) p c := by
  have hin : ∀ e, e ∈ bulkQueue k → pos e = .bulkQueue := by
    intro e he
    rw [h.queued e, ← h.at_home k e he]
    exact he
  refine { h with parked := ?_, taken := ?_, queued := ?_, at_home := ?_, nodup := ?_ }
  · intro r e hr
    have hpos := h.parked r e hr
    rw [if_neg fun he => by rw [hin e he] at hpos; cases hpos]
    exact hpos
  · intro e
    split_ifs with he
    · rw [← h.taken e, hin e he]
      exact iff_of_false nofun nofun
    · exact h.taken e
  · intro e
    split_ifs with he
    · rw [← h.at_home k e he, Function.update_self]
      exact iff_of_false nofun List.not_mem_nil
    · by_cases hk : home e = k
      · rw [hk, Function.update_self, h.queued e, hk]
        exact iff_of_false he List.not_mem_nil
      · rw [Function.update_of_ne hk]
        exact h.queued e
  · intro k' e he
    by_cases hk : k' = k
    · rw [hk, Function.update_self] at he
      cases he
    · rw [Function.update_of_ne hk] at he
      exact h.at_home k' e he
  · intro k'
    by_cases hk : k' = k
    · rw [hk, Function.update_self]
      exact List.nodup_nil
    · rw [Function.update_of_ne hk]
      exact h.nodup k'

end Places

/-- The steps a suspended uThread still needs to get to a run queue. -/
def Pos.owed : Pos → ℕ
  | .hookClosing | .hookFlag | .hookRead _ | .hookClear _ | .hookResume | .hookCas _ => 1
  | .parked | .dropped | .taken | .bulkQueue => 1
  | _ => 0

/-- The same, to get to a run queue or a bulk queue. -/
def Pos.unhanded : Pos → ℕ
  | .bulkQueue => 0
  | x => x.owed

/-- Each suspension but the present one was followed by one hand-over and one entry on a run
queue. -/
structure Counted (pos : Dir → Pos) (suspensions handovers runs : Dir → ℕ) : Prop where
  runs : ∀ d, suspensions d = runs d + (pos d).owed
  handovers : ∀ d, suspensions d = handovers d + (pos d).unhanded

namespace Counted

variable {pos : Dir → Pos} {suspensions handovers runs : Dir → ℕ}

/-- Only uThread `d` moves, with its counters. -/
theorem update (h : Counted pos suspensions handovers runs) {d : Dir} {x : Pos} {n m l : ℕ}
    (hruns : n = l + x.owed) (hhand : n = m + x.unhanded) :
    Counted (Function.update pos d x) (Function.update suspensions d n)
      (Function.update handovers d m) (Function.update runs d l) := by
  constructor <;> intro e <;> by_cases hne : e = d
  · subst hne
    simpa only [Function.update_self] using hruns
  · simpa only [Function.update_of_ne hne] using h.runs e
  · subst hne
    simpa only [Function.update_self] using hhand
  · simpa only [Function.update_of_ne hne] using h.handovers e

/-- A step between positions that owe the same. -/
theorem goto (h : Counted pos suspensions handovers runs) {d : Dir} {x : Pos}
    (howed : x.owed = (pos d).owed) (hun : x.unhanded = (pos d).unhanded) :
    Counted (Function.update pos d x) suspensions handovers runs := by
  have hup := h.update (d := d) (x := x) (n := suspensions d) (m := handovers d) (l := runs d)
    (by rw [howed]; exact h.runs d) (by rw [hun]; exact h.handovers d)
  simpa only [Function.update_eq_self] using hup

end Counted

section Steps

variable [DecidableEq K] {home : Dir → K} {kts : List K} {s s' : State K}

/-- The invariant of all runs. -/
structure Inv (home : Dir → K) (s : State K) : Prop where
  places : Places home s.slot s.pos s.bulkQueue s.poller.ut? s.closer.ut?
  counted : Counted s.pos s.suspensions s.handovers s.runs

/-- What a step of `unblock` does. -/
inductive UnblockStep (home : Dir → K) (s : State K) : Unblock Dir → State K → Unblock Dir → Prop
  | closed {q : Dir} : s.closing = true → UnblockStep home s (.closing q) s (.ret false)
  | enter {q : Dir} : s.closing = false → UnblockStep home s (.closing q) s (.read q)
  | ready {q : Dir} : s.slot q = .ready → UnblockStep home s (.read q) s (.ret false)
  | read {q : Dir} : s.slot q ≠ .ready → UnblockStep home s (.read q) s (.cas q (s.slot q))
  | retry {q : Dir} {old : Slot Dir} : s.slot q ≠ old → UnblockStep home s (.cas q old) s (.read q)
  | set {q : Dir} {old x : Slot Dir} : s.slot q = old → (∀ ut, old ≠ .parked ut) →
      x = (if old = .ready then .null else .ready) →
      UnblockStep home s (.cas q old) (s.setSlot q x) (.ret false)
  | take {q ut : Dir} : s.slot q = .parked ut →
      UnblockStep home s (.cas q (.parked ut)) ((s.setSlot q .null).goto ut .taken) (.push ut)
  | push {ut : Dir} : UnblockStep home s (.push ut) s (.pushing ut)
  | pushed {ut : Dir} :
      UnblockStep home s (.pushing ut) (s.prepareBulkPush (home ut) ut) (.ret true)
  | ret {res : Bool} : UnblockStep home s (.ret res) s (.ret res)

theorem unblock_step (home : Dir → K) (s : State K) (u : Unblock Dir) :
    UnblockStep home s u (unblock home s u).1 (unblock home s u).2 := by
  cases u with
  | closing q =>
    cases hc : s.closing with
    | true => simpa [unblock, hc] using UnblockStep.closed hc
    | false => simpa [unblock, hc] using UnblockStep.enter hc
  | read q =>
    by_cases hq : s.slot q = .ready
    · simpa [unblock, hq] using UnblockStep.ready hq
    · simpa [unblock, hq] using UnblockStep.read hq
  | cas q old =>
    by_cases hq : s.slot q = old
    · cases old with
      | parked ut => simpa [unblock, hq] using UnblockStep.take hq
      | null | wait | ready => simpa [unblock, hq] using UnblockStep.set hq (by simp) rfl
    · simpa [unblock, hq] using UnblockStep.retry hq
  | push ut => exact .push
  | pushing ut => exact .pushed
  | ret res => exact .ret

/-- `unblock` leaves the rest of the state alone. -/
theorem UnblockStep.same {u u' : Unblock Dir} {t : State K} (h : UnblockStep home s u t u') :
    t.poller = s.poller ∧ t.closer = s.closer ∧ t.closing = s.closing ∧ t.opened = s.opened ∧
      t.isBlockingOnRead = s.isBlockingOnRead ∧ t.fdReady = s.fdReady ∧
      t.registered = s.registered ∧ t.events = s.events ∧ t.unblockCounter = s.unblockCounter := by
  cases h <;> exact ⟨rfl, rfl, rfl, rfl, rfl, rfl, rfl, rfl, rfl⟩

theorem places_unblock {u u' : Unblock Dir} {c : Option Dir} (hu : UnblockStep home s u s' u')
    (h : Places home s.slot s.pos s.bulkQueue u.ut? c) :
    Places home s'.slot s'.pos s'.bulkQueue u'.ut? c := by
  cases hu with
  | set hq hold hx =>
    refine h.setSlot ?_
    intro e he
    rw [he] at hx
    split_ifs at hx
  | take hq => exact h.take hq
  | pushed => exact h.push
  | _ => exact h

theorem counted_unblock {u u' : Unblock Dir} {c : Option Dir} (hu : UnblockStep home s u s' u')
    (hp : Places home s.slot s.pos s.bulkQueue u.ut? c)
    (h : Counted s.pos s.suspensions s.handovers s.runs) :
    Counted s'.pos s'.suspensions s'.handovers s'.runs := by
  cases hu with
  | @take q ut hq =>
    have hut : s.pos ut = .parked := hp.parked q ut hq
    exact h.goto (by rw [hut]; rfl) (by rw [hut]; rfl)
  | @pushed ut =>
    have hut : s.pos ut = .taken := (hp.taken ut).mpr (.inl rfl)
    have hr := h.runs ut
    have hh := h.handovers ut
    rw [hut] at hr hh
    have hup := h.update (d := ut) (x := .bulkQueue) (n := s.suspensions ut)
      (m := s.handovers ut + 1) (l := s.runs ut) hr hh
    rw [Function.update_eq_self, Function.update_eq_self] at hup
    exact hup
  | _ => exact h

omit [DecidableEq K] in
/-- A uThread on its own goes on to a position that owes the same. -/
theorem Inv.goto (h : Inv home s) {d : Dir} {x y : Pos} (hd : s.pos d = x) (hx : x.own = true)
    (hy : y.own = true) (howed : y.owed = x.owed) (hun : y.unhanded = x.unhanded) :
    Inv home (s.goto d y) :=
  ⟨h.places.goto (hd ▸ hx) hy, h.counted.goto (hd ▸ howed) (hd ▸ hun)⟩

omit [DecidableEq K] in
/-- A store of `nullptr` or `POLL_READY`. -/
theorem Inv.setSlot (h : Inv home s) {q : Dir} {x : Slot Dir} (hx : ∀ e, x ≠ .parked e) :
    Inv home (s.setSlot q x) :=
  ⟨h.places.setSlot hx, h.counted⟩

omit [DecidableEq K] in
theorem inv_run (h : Inv home s) {d : Dir} (hs : run d s = some s') : Inv home s' := by
  unfold run at hs
  cases hd : s.pos d with
  | idle | syscall | parked | dropped | taken | bulkQueue => simp [hd] at hs
  | hookFlag | runQueue | blockFlag | openAdd =>
    simp only [hd] at hs
    cases hs
    exact ⟨h.places.goto (by rw [hd]; rfl) rfl, h.counted.goto (by rw [hd]; rfl) (by rw [hd]; rfl)⟩
  | opened | blockRead | hookClosing | hookRead q =>
    simp only [hd] at hs
    cases hs
    split_ifs <;> exact h.goto hd rfl rfl rfl rfl
  | openCas =>
    simp only [hd] at hs
    cases hs
    split_ifs
    · exact h.goto hd rfl rfl rfl rfl
    · exact Inv.goto (s := { s with opened := true }) ⟨h.places, h.counted⟩ hd rfl rfl rfl rfl
  | blockClear | hookClear q =>
    simp only [hd] at hs
    cases hs
    exact (h.setSlot (x := .null) nofun).goto hd rfl rfl rfl rfl
  | suspend =>
    simp only [hd] at hs
    cases hs
    have hr := h.counted.runs d
    have hh := h.counted.handovers d
    rw [hd] at hr hh
    have hup := h.counted.update (d := d) (x := .hookClosing) (n := s.suspensions d + 1)
      (m := s.handovers d) (l := s.runs d) (by rw [hr]; rfl) (by rw [hh]; rfl)
    rw [Function.update_eq_self, Function.update_eq_self] at hup
    exact ⟨h.places.goto (by rw [hd]; rfl) rfl, hup⟩
  | hookResume =>
    simp only [hd] at hs
    cases hs
    have hr := h.counted.runs d
    have hh := h.counted.handovers d
    rw [hd] at hr hh
    have hup := h.counted.update (d := d) (x := .runQueue) (n := s.suspensions d)
      (m := s.handovers d + 1) (l := s.runs d + 1) hr hh
    rw [Function.update_eq_self] at hup
    exact ⟨h.places.goto (by rw [hd]; rfl) rfl, hup⟩
  | hookCas q =>
    simp only [hd] at hs
    cases hs
    split_ifs with hq
    · refine ⟨h.places.park (by rw [hd]; rfl) ?_, h.counted.goto (by rw [hd]; rfl)
        (by rw [hd]; rfl)⟩
      rw [hq]
      exact nofun
    · exact h.goto hd rfl rfl rfl rfl

/-- The flush of a bulk queue puts every uThread on it on its run queue once. -/
theorem Inv.flush (h : Inv home s) (k : K) : Inv home (s.flush k) := by
  unfold State.flush
  split_ifs
  · refine ⟨h.places.flush k, ?_, ?_⟩
    · intro d
      have hr := h.counted.runs d
      show s.suspensions d = s.runs d + (s.bulkQueue k).count d +
        (if d ∈ s.bulkQueue k then Pos.runQueue else s.pos d).owed
      split_ifs with hd
      · have hpos : s.pos d = .bulkQueue := by
          rw [h.places.queued d, ← h.places.at_home k d hd]
          exact hd
        rw [hr, hpos, List.count_eq_one_of_mem (h.places.nodup k) hd]
        rfl
      · rw [List.count_eq_zero_of_not_mem hd]
        exact hr
    · intro d
      have hh := h.counted.handovers d
      show s.suspensions d = s.handovers d +
        (if d ∈ s.bulkQueue k then Pos.runQueue else s.pos d).unhanded
      split_ifs with hd
      · have hpos : s.pos d = .bulkQueue := by
          rw [h.places.queued d, ← h.places.at_home k d hd]
          exact hd
        rw [hh, hpos]
        rfl
      · exact hh
  · exact h

/-- What a step of the poller does. -/
inductive PollStep (home : Dir → K) (kts : List K) (s : State K) : State K → Prop
  | start : s.poller = .idle →
      PollStep home kts s { s with poller := .polling, unblockCounter := 0 }
  | bulkPush : s.poller = .polling → 0 < s.unblockCounter →
      PollStep home kts s { s with poller := .flush kts }
  | finish : s.poller = .polling → s.unblockCounter = 0 →
      PollStep home kts s { s with poller := .idle }
  | ret {res : Bool} {todo : List Dir} : s.poller = .unblock (.ret res) todo →
      PollStep home kts s { s with
        poller := .next todo
        unblockCounter := if res then s.unblockCounter + 1 else s.unblockCounter }
  | unblock {u u' : Unblock Dir} {todo : List Dir} {t : State K} : s.poller = .unblock u todo →
      (∀ res, u ≠ .ret res) → UnblockStep home s u t u' →
      PollStep home kts s { t with poller := .unblock u' todo }
  | other {k : K} : s.poller = .other k →
      PollStep home kts s { s with
        bulkCounter := Function.update s.bulkCounter k (s.bulkCounter k + 1)
        unblockCounter := s.unblockCounter + 1
        poller := .polling }
  | flushed : s.poller = .flush [] → PollStep home kts s { s with poller := .idle }
  | flush {k : K} {ks : List K} : s.poller = .flush (k :: ks) →
      PollStep home kts s { s.flush k with poller := .zero k ks }
  | zero {k : K} {ks : List K} : s.poller = .zero k ks →
      PollStep home kts s
        { s with bulkCounter := Function.update s.bulkCounter k 0, poller := .flush ks }

theorem poll_step (hs : poll home kts s = some s') : PollStep home kts s s' := by
  unfold poll at hs
  cases hp : s.poller with
  | idle =>
    simp only [hp] at hs
    cases hs
    exact .start hp
  | polling =>
    simp only [hp] at hs
    cases hs
    split_ifs with hc
    · exact .bulkPush hp hc
    · exact .finish hp (Nat.eq_zero_of_not_pos hc)
  | unblock u todo =>
    cases u with
    | ret res =>
      simp only [hp] at hs
      cases hs
      exact .ret hp
    | _ =>
      simp only [hp] at hs
      cases hs
      exact .unblock hp nofun (unblock_step ..)
  | other k =>
    simp only [hp] at hs
    cases hs
    exact .other hp
  | flush ks =>
    cases ks with
    | nil =>
      simp only [hp] at hs
      cases hs
      exact .flushed hp
    | cons k ks =>
      simp only [hp] at hs
      cases hs
      exact .flush hp
  | zero k ks =>
    simp only [hp] at hs
    cases hs
    exact .zero hp

/-- What a step of `close` does. -/
inductive CloseStep (home : Dir → K) (s : State K) : State K → Prop
  | start : s.closer = .idle → CloseStep home s { s with closer := .testRut }
  | parked {ut : Dir} : s.closer = .testRut → s.slot .read = .parked ut →
      CloseStep home s { s with closer := .unblockRut (.closing .read) }
  | empty : s.closer = .testRut → (∀ ut, s.slot .read ≠ .parked ut) →
      CloseStep home s { s with closer := .testWut }
  | retRut {res : Bool} : s.closer = .unblockRut (.ret res) →
      CloseStep home s { s with closer := .testWut }
  | unblockRut {u u' : Unblock Dir} {t : State K} : s.closer = .unblockRut u →
      (∀ res, u ≠ .ret res) → UnblockStep home s u t u' →
      CloseStep home s { t with closer := .unblockRut u' }
  | testWut : s.closer = .testWut →
      CloseStep home s { s with closer := .unblockWut (.closing .read) }
  | retWut {res : Bool} : s.closer = .unblockWut (.ret res) →
      CloseStep home s { s with closer := .cas }
  | unblockWut {u u' : Unblock Dir} {t : State K} : s.closer = .unblockWut u →
      (∀ res, u ≠ .ret res) → UnblockStep home s u t u' →
      CloseStep home s { t with closer := .unblockWut u' }
  | lost : s.closer = .cas → s.closing = true → CloseStep home s { s with closer := .done }
  | won : s.closer = .cas → s.closing = false →
      CloseStep home s { s with closing := true, closer := .delete }
  | delete : s.closer = .delete →
      CloseStep home s { s with registered := false, closer := .resetRut }
  | resetRut : s.closer = .resetRut →
      CloseStep home s { s.setSlot .read .null with closer := .resetWut }
  | resetWut : s.closer = .resetWut →
      CloseStep home s { s.setSlot .write .null with closer := .resetClosing }
  | resetClosing : s.closer = .resetClosing →
      CloseStep home s { s with closing := false, closer := .resetOpened }
  | resetOpened : s.closer = .resetOpened →
      CloseStep home s { s with opened := false, closer := .recycle }
  | recycle : s.closer = .recycle → CloseStep home s { s with closer := .done }

theorem close_step (hs : close home s = some s') : CloseStep home s s' := by
  unfold close at hs
  cases hc : s.closer with
  | done => simp [hc] at hs
  | idle => simp only [hc] at hs; cases hs; exact .start hc
  | testRut =>
    simp only [hc] at hs
    cases hs
    cases hr : s.slot .read with
    | parked ut => exact .parked hc hr
    | _ => exact .empty hc (by rw [hr]; exact nofun)
  | unblockRut u =>
    cases u with
    | ret res => simp only [hc] at hs; cases hs; exact .retRut hc
    | _ => simp only [hc] at hs; cases hs; exact .unblockRut hc nofun (unblock_step ..)
  | testWut => simp only [hc] at hs; cases hs; exact .testWut hc
  | unblockWut u =>
    cases u with
    | ret res => simp only [hc] at hs; cases hs; exact .retWut hc
    | _ => simp only [hc] at hs; cases hs; exact .unblockWut hc nofun (unblock_step ..)
  | cas =>
    simp only [hc] at hs
    cases hs
    split_ifs with hl
    · exact .lost hc hl
    · exact .won hc (by simpa using hl)
  | delete => simp only [hc] at hs; cases hs; exact .delete hc
  | resetRut => simp only [hc] at hs; cases hs; exact .resetRut hc
  | resetWut => simp only [hc] at hs; cases hs; exact .resetWut hc
  | resetClosing => simp only [hc] at hs; cases hs; exact .resetClosing hc
  | resetOpened => simp only [hc] at hs; cases hs; exact .resetOpened hc
  | recycle => simp only [hc] at hs; cases hs; exact .recycle hc

omit [DecidableEq K] in
theorem Poller.ut?_next (todo : List Dir) : (Poller.next todo : Poller K).ut? = none := by
  cases todo <;> rfl

omit [DecidableEq K] in
/-- A step that changes neither slots, positions nor bulk queues, and nobody's hands. -/
theorem Inv.frame (h : Inv home s) (hslot : s'.slot = s.slot) (hpos : s'.pos = s.pos)
    (hbulk : s'.bulkQueue = s.bulkQueue) (hp : s'.poller.ut? = s.poller.ut?)
    (hc : s'.closer.ut? = s.closer.ut?) (hsus : s'.suspensions = s.suspensions)
    (hhand : s'.handovers = s.handovers) (hruns : s'.runs = s.runs) : Inv home s' := by
  refine ⟨?_, ?_⟩
  · rw [hslot, hpos, hbulk, hp, hc]; exact h.places
  · rw [hpos, hsus, hhand, hruns]; exact h.counted

theorem inv_poll (h : Inv home s) (hs : poll home kts s = some s') : Inv home s' := by
  have hp := h.places
  cases poll_step hs with
  | start hpl | bulkPush hpl | finish hpl | other hpl | flushed hpl | zero hpl =>
    exact h.frame rfl rfl rfl (by rw [hpl]; rfl) rfl rfl rfl rfl
  | ret hpl =>
    exact h.frame rfl rfl rfl (by rw [hpl]; exact Poller.ut?_next _) rfl rfl rfl rfl
  | unblock hpl _ hu =>
    rw [hpl] at hp
    rw [← hu.same.2.1] at hp
    have hplaces := places_unblock hu hp
    have hcounted := counted_unblock hu hp h.counted
    exact ⟨hplaces, hcounted⟩
  | @flush k ks hpl =>
    obtain ⟨-, -, -, hsame, -⟩ := s.flush_same k
    exact (h.flush k).frame rfl rfl rfl (by rw [hsame, hpl]; rfl) rfl rfl rfl rfl

theorem inv_close (h : Inv home s) (hs : close home s = some s') : Inv home s' := by
  have hp := h.places
  cases close_step hs with
  | unblockRut hc _ hu | unblockWut hc _ hu =>
    rw [hc] at hp
    rw [← hu.same.1] at hp
    have hplaces := places_unblock hu hp.swap
    have hcounted := counted_unblock hu hp.swap h.counted
    exact ⟨hplaces.swap, hcounted⟩
  | resetRut hc =>
    have hset := h.setSlot (q := .read) (x := .null) nofun
    exact hset.frame rfl rfl rfl rfl (by rw [show (s.setSlot .read .null).closer = _ from hc]; rfl)
      rfl rfl rfl
  | resetWut hc =>
    have hset := h.setSlot (q := .write) (x := .null) nofun
    exact hset.frame rfl rfl rfl rfl (by rw [show (s.setSlot .write .null).closer = _ from hc]; rfl)
      rfl rfl rfl
  | start hc | parked hc | empty hc | retRut hc | testWut hc | retWut hc | lost hc | won hc
  | delete hc | resetClosing hc | resetOpened hc | recycle hc =>
    exact h.frame rfl rfl rfl rfl (by rw [hc]; rfl) rfl rfl rfl

theorem step_call {d : Dir} (hs : step home kts s (.call d) = some s') :
    s.pos d = .idle ∧ s.goto d .syscall = s' := by
  simpa [step] using hs

/-- A system call either finds the descriptor not ready, or returns to the caller. -/
theorem step_syscall {d : Dir} {again : Bool} (hs : step home kts s (.syscall d again) = some s') :
    s.pos d = .syscall ∧
      (again = true ∧ s.fdReady d = false ∧ s.goto d .opened = s' ∨ s.goto d .idle = s') := by
  simp only [step] at hs
  split_ifs at hs with hd _ hready <;> simp_all

theorem step_deliver {dirs : List Dir} (hs : step home kts s (.deliver dirs) = some s') :
    s.poller = .polling ∧
      { s with
        events := fun d => if d ∈ dirs then s.events d - 1 else s.events d
        poller := .next dirs } = s' := by
  simp only [step] at hs
  split_ifs at hs with hg
  exact ⟨hg.1, Option.some.inj hs⟩

theorem step_elsewhere {k : K} (hs : step home kts s (.elsewhere k) = some s') :
    s.poller = .polling ∧ { s with poller := .other k } = s' := by
  simpa [step] using hs

theorem inv_step (h : Inv home s) {a : Action K} (hs : step home kts s a = some s') :
    Inv home s' := by
  cases a with
  | call d =>
    obtain ⟨hd, rfl⟩ := step_call hs
    exact h.goto hd rfl rfl rfl rfl
  | syscall d again =>
    obtain ⟨hd, ⟨-, -, rfl⟩ | rfl⟩ := step_syscall hs
    · exact h.goto hd rfl rfl rfl rfl
    · exact h.goto hd rfl rfl rfl rfl
  | run d => exact inv_run h hs
  | deliver dirs =>
    obtain ⟨hp, rfl⟩ := step_deliver hs
    exact h.frame rfl rfl rfl (by rw [hp]; exact Poller.ut?_next _) rfl rfl rfl rfl
  | elsewhere k =>
    obtain ⟨hp, rfl⟩ := step_elsewhere hs
    exact h.frame rfl rfl rfl (by rw [hp]; rfl) rfl rfl rfl rfl
  | poll => exact inv_poll h hs
  | close => exact inv_close h hs
  | rise d merge | fall d | stale d =>
    cases hs
    exact h.frame rfl rfl rfl rfl rfl rfl rfl rfl

omit [DecidableEq K] in
theorem inv_initial (fdReady : Dir → Bool) : Inv home (initial fdReady) := by
  refine ⟨⟨nofun, nofun, fun e => iff_of_false nofun ?_, nofun, fun e => iff_of_false nofun ?_, ?_,
    fun _ => List.nodup_nil⟩, fun _ => rfl, fun _ => rfl⟩
  · rintro (he | he) <;> cases he
  · exact List.not_mem_nil
  · intro k e he
    cases he

end Steps

end UThreads.IOHandler
