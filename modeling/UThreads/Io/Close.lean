import UThreads.Io.Slots

/-!
# `close`

`close` is to wake the uThreads that are blocked on the connection before it recycles the
`PollData`. It does not always do so:

* the second condition is followed by an empty statement and the second `unblock` has the wrong
  direction, so a parked writer is never woken, and `reset` erases it from its slot;
* a woken reader goes to a bulk queue that only the poller flushes, and `close` does not count it
  for the poller;
* a `postSwitchFunc` that finds `closing` set returns without parking or resuming its uThread;
* one that comes after `reset` parks it in a recycled `PollData`.

Main results.

* **`close_strands`**: a reader and a writer are parked, `close` runs alone, and neither of them
  gets to a run queue.
* **`close_wakes`**: let `close` be called with nobody in `block` and no writer parked, let nobody
  block on the connection after that, and let `close` queue the reader between two operations of a
  poll that has a `bulkPush` to come (`Timely`). Then every uThread that was suspended on the
  connection gets to its run queue once.
-/

namespace UThreads.IOHandler

variable {K : Type*}

/-- In `block`, or in its `postSwitchFunc`. -/
def Pos.blocking : Pos → Bool
  | .idle | .syscall | .parked | .dropped | .taken | .bulkQueue | .runQueue => false
  | _ => true

/-- `close` has set `closing`. -/
def Closer.isClosing : Closer → Bool
  | .delete | .resetRut | .resetWut | .resetClosing => true
  | _ => false

section

variable [DecidableEq K]

/-- The poller, at `p` with `unblockCounter` at `n`, will still flush the bulk queue of `k`. -/
def pending (p : Poller K) (n : ℕ) (k : K) : Bool :=
  match p with
  | .idle => false
  | .polling => 0 < n
  | .unblock u _ => 0 < n ∨ u = .ret true ∨ u.ut?.isSome
  | .other _ => true
  | .flush ks => k ∈ ks
  | .zero k' ks => k ≠ k' ∧ k ∈ ks

/-- The bulk queue of `k` will be flushed. -/
def WillFlush (s : State K) (k : K) : Prop :=
  pending s.poller s.unblockCounter k = true ∧ 0 < s.bulkCounter k

/-- uThread `d` is suspended and out of reach: left in a slot or in none, or on a bulk queue that
will not be flushed. -/
def Stranded (home : Dir → K) (s : State K) (d : Dir) : Prop :=
  s.pos d = .parked ∨ s.pos d = .dropped ∨ s.pos d = .bulkQueue ∧ ¬WillFlush s (home d)

end

/-- Both uThreads park, then `close` runs. -/
def parkedAtClose : List (Action ℕ) :=
  List.flatten [[.call .read, .syscall .read true], List.replicate 10 (.run .read),
    [.call .write, .syscall .write true], List.replicate 8 (.run .write), List.replicate 20 .close]

/-- **`close` can strand uThreads.** It leaves the reader on a bulk queue that the poller will not
flush, and the writer suspended with its slot erased. -/
theorem close_strands :
    ∃ s : State ℕ, (machine oneKThread).Reachable s ∧ s.closer = .done ∧
      (∀ d, (s.pos d).blocking = false) ∧ s.pos .read = .bulkQueue ∧ s.poller = .idle ∧
      s.pos .write = .parked ∧ s.slot .write = .null ∧ ∀ d, Stranded (fun _ => 0) s d := by
  have hinit : (machine oneKThread).Reachable (initial fun _ => false) := .of_init ⟨_, rfl⟩
  have hr := hinit.get parkedAtClose (by decide +kernel)
  refine ⟨_, hr, by decide +kernel, ?_, by decide +kernel, by decide +kernel, by decide +kernel,
    by decide +kernel, ?_⟩
  · intro d
    cases d <;> decide +kernel
  · intro d
    cases d with
    | read =>
      refine .inr (.inr ⟨by decide +kernel, fun h => ?_⟩)
      exact absurd h.1 (by decide +kernel)
    | write => exact .inl (by decide +kernel)

/-! ## The condition on runs -/

/-- In `prepareBulkPush`. -/
def Unblock.inBulk : Unblock Dir → Bool
  | .pushing _ => true
  | _ => false

def Closer.inBulk : Closer → Bool
  | .unblockRut u | .unblockWut u => u.inBulk
  | _ => false

/-- At the call of `prepareBulkPush`. -/
def Unblock.beforeBulk : Unblock Dir → Bool
  | .push _ => true
  | _ => false

def Closer.beforeBulk : Closer → Bool
  | .unblockRut u | .unblockWut u => u.beforeBulk
  | _ => false

/-- At the call of `prepareBulkPush` or of `bulkPush`. -/
def Poller.beforeBulk : Poller K → Bool
  | .polling => true
  | .unblock u _ => u.beforeBulk
  | _ => false

/-- In a poll, before its `bulkPush` and outside `prepareBulkPush`. -/
def Poller.gathering : Poller K → Bool
  | .polling => true
  | .unblock u _ => !u.inBulk
  | _ => false

/-- `close` is called when nobody is in `block` and no writer is parked, and no system call returns
`EAGAIN` after that. It calls `prepareBulkPush` only during a poll that has counted a uThread and
that is neither in `bulkPush` nor in a `prepareBulkPush`, and the poller begins none of these while
`close` is in `prepareBulkPush`. And `block` stores `isBlockingOnRead` only while the other's
`postSwitchFunc` has not still to read it. -/
def Timely (s : State K) : Action K → Prop
  | .run d => FlagFree s (.run d)
  | .syscall _ again => again = true → s.closer = .idle
  | .close =>
    (s.closer = .idle → (s.pos .read).blocking = false ∧ (s.pos .write).blocking = false ∧
      (s.slot .write).ut? = none) ∧
    (s.closer.beforeBulk = true → 0 < s.unblockCounter ∧ s.poller.gathering = true)
  | .poll => s.poller.beforeBulk = true → s.closer.inBulk = false
  | .elsewhere _ => s.closer.inBulk = false
  | .call _ | .deliver _ | .rise _ _ | .fall _ | .stale _ => True

instance (s : State K) : (a : Action K) → Decidable (Timely s a)
  | .run d => inferInstanceAs (Decidable (FlagFree s (.run d)))
  | .syscall _ again => inferInstanceAs (Decidable (again = true → s.closer = .idle))
  | .close => inferInstanceAs (Decidable (_ ∧ _))
  | .poll => inferInstanceAs (Decidable (s.poller.beforeBulk = true → s.closer.inBulk = false))
  | .elsewhere _ => inferInstanceAs (Decidable (s.closer.inBulk = false))
  | .call _ | .deliver _ | .rise _ _ | .fall _ | .stale _ => inferInstanceAs (Decidable True)

theorem Timely.flagFree {s : State K} {a : Action K} (h : Timely s a) : FlagFree s a := by
  cases a with
  | run d => exact h
  | _ => trivial

/-! ## The suspended uThreads are in reach -/

/-- `unblock` is done with its slot. -/
def Unblock.past : Unblock Dir → Bool
  | .push _ | .pushing _ | .ret _ => true
  | _ => false

/-- `close` is done with the slot. It has nothing to do with `wut`. -/
def Closer.cleared : Closer → Dir → Bool
  | .idle, _ => false
  | _, .write => true
  | .testRut, .read => false
  | .unblockRut u, .read => u.past
  | _, .read => true

/-- The slot the `unblock` in `close` has still to look at. -/
def Closer.utp? : Closer → Option Dir
  | .unblockRut u | .unblockWut u => u.utp?
  | _ => none

/-- The parked uThreads are in slots, and `close` leaves none of them there. -/
structure Held (slot : Dir → Slot Dir) (pos : Dir → Pos) (closing : Bool) (closer : Closer) :
    Prop where
  parked : ∀ d, pos d = .parked → ∃ q, slot q = .parked d
  dropped : ∀ d, pos d ≠ .dropped
  closing : closing = true → closer.isClosing = true
  cleared : ∀ q, closer.cleared q = true → (slot q).ut? = none
  utp : closer.utp? ≠ some .write
  blocking : closer ≠ .idle → ∀ d, (pos d).blocking = false

variable [DecidableEq K]

/-- The queued uThreads will be flushed. -/
structure Flushed (home : Dir → K) (pos : Dir → Pos) (p : Poller K) (n : ℕ) (counter : K → ℕ) :
    Prop where
  pending : ∀ d, pos d = .bulkQueue → pending p n (home d) = true
  counted : ∀ d, pos d = .bulkQueue → 0 < counter (home d)

namespace Held

variable {slot : Dir → Slot Dir} {pos pos' : Dir → Pos} {closing : Bool} {closer : Closer}

omit [DecidableEq K]

/-- uThread `d` moves on. -/
theorem goto (h : Held slot pos closing closer) {d : Dir} {x : Pos} (hx : x ≠ .parked)
    (hx' : x ≠ .dropped) (hb : closer ≠ .idle → x.blocking = false) :
    Held slot (Function.update pos d x) closing closer := by
  refine { h with parked := ?_, dropped := ?_, blocking := ?_ }
  · intro e he
    by_cases hne : e = d
    · rw [hne, Function.update_self] at he
      exact absurd he hx
    · rw [Function.update_of_ne hne] at he
      exact h.parked e he
  · intro e
    by_cases hne : e = d
    · rw [hne, Function.update_self]
      exact hx'
    · rw [Function.update_of_ne hne]
      exact h.dropped e
  · intro hc e
    by_cases hne : e = d
    · rw [hne, Function.update_self]
      exact hb hc
    · rw [Function.update_of_ne hne]
      exact h.blocking hc e

/-- A store to a slot without a uThread. -/
theorem setSlot (h : Held slot pos closing closer) {q : Dir} {x : Slot Dir}
    (hq : (slot q).ut? = none)
    (hx : x.ut? = none) : Held (Function.update slot q x) pos closing closer := by
  refine { h with parked := ?_, cleared := ?_ }
  · intro e he
    obtain ⟨r, hr⟩ := h.parked e he
    refine ⟨r, ?_⟩
    rw [Function.update_of_ne]
    · exact hr
    · rintro rfl
      rw [hr] at hq
      cases hq
  · intro r hr
    by_cases hne : r = q
    · rw [hne, Function.update_self]
      exact hx
    · rw [Function.update_of_ne hne]
      exact h.cleared r hr

/-- uThread `d` parks, before `close` is called. -/
theorem park (h : Held slot pos closing .idle) {d q : Dir} (hq : slot q = .null) :
    Held (Function.update slot q (.parked d)) (Function.update pos d .parked) closing .idle := by
  refine { h with parked := ?_, dropped := ?_, cleared := nofun, blocking := absurd rfl }
  · intro e he
    by_cases hne : e = d
    · exact ⟨q, by rw [hne, Function.update_self]⟩
    · rw [Function.update_of_ne hne] at he
      obtain ⟨r, hr⟩ := h.parked e he
      refine ⟨r, ?_⟩
      rw [Function.update_of_ne]
      · exact hr
      · rintro rfl
        rw [hr] at hq
        cases hq
  · intro e
    by_cases hne : e = d
    · rw [hne, Function.update_self]
      exact nofun
    · rw [Function.update_of_ne hne]
      exact h.dropped e

/-- An `unblock` takes the uThread out of its slot. -/
theorem take (h : Held slot pos closing closer) {q ut : Dir} (hq : slot q = .parked ut) :
    Held (Function.update slot q .null) (Function.update pos ut .taken) closing closer := by
  refine { h.goto (d := ut) (x := .taken) nofun nofun fun _ => rfl with
    parked := ?_, cleared := ?_ }
  · intro e he
    have hne : e ≠ ut := by
      rintro rfl
      rw [Function.update_self] at he
      cases he
    rw [Function.update_of_ne hne] at he
    obtain ⟨r, hr⟩ := h.parked e he
    refine ⟨r, ?_⟩
    rw [Function.update_of_ne]
    · exact hr
    · rintro rfl
      exact hne (Slot.parked.inj (hr.symm.trans hq))
  · intro r hr
    by_cases hne : r = q
    · rw [hne, Function.update_self]
      rfl
    · rw [Function.update_of_ne hne]
      exact h.cleared r hr

/-- Some uThreads get to the run queue. -/
theorem wake (h : Held slot pos closing closer) (hpos : ∀ d, pos' d = pos d ∨ pos' d = .runQueue) :
    Held slot pos' closing closer := by
  refine { h with parked := ?_, dropped := ?_, blocking := fun hc => ?_ } <;> intro d <;>
    rcases hpos d with hd | hd <;> rw [hd]
  · exact h.parked d
  · exact nofun
  · exact h.dropped d
  · exact nofun
  · exact h.blocking hc d
  · rfl

/-- `close` moves on. -/
theorem goOn (h : Held slot pos closing closer) {c : Closer} {b : Bool} (hne : closer ≠ .idle)
    (hb : b = true → c.isClosing = true) (hc : ∀ q, c.cleared q = true → (slot q).ut? = none)
    (hutp : c.utp? ≠ some .write) : Held slot pos b c :=
  { h with closing := hb, cleared := hc, utp := hutp, blocking := fun _ => h.blocking hne }

/-- `reset` stores `nullptr` to a slot without a uThread. -/
theorem reset (h : Held slot pos closing closer) {c : Closer} (q : Dir) (hne : closer ≠ .idle)
    (hall : ∀ r, closer.cleared r = true) (hb : c.isClosing = true) (hutp : c.utp? ≠ some .write) :
    Held (Function.update slot q .null) pos closing c := by
  have hset := h.setSlot (h.cleared q (hall q)) (x := .null) rfl
  exact hset.goOn hne (fun _ => hb) (fun r _ => hset.cleared r (hall r)) hutp

end Held

namespace Flushed

variable {home : Dir → K} {pos : Dir → Pos} {p p' : Poller K} {n n' : ℕ} {counter : K → ℕ}

theorem goto (h : Flushed home pos p n counter) {d : Dir} {x : Pos} (hx : x ≠ .bulkQueue) :
    Flushed home (Function.update pos d x) p n counter := by
  have hold : ∀ e, Function.update pos d x e = .bulkQueue → pos e = .bulkQueue := by
    intro e he
    by_cases hne : e = d
    · rw [hne, Function.update_self] at he
      exact absurd he hx
    · rw [Function.update_of_ne hne] at he
      exact he
  exact ⟨fun e he => h.pending e (hold e he), fun e he => h.counted e (hold e he)⟩

/-- The poller moves on, with the flush still to come. -/
theorem poller (h : Flushed home pos p n counter)
    (hp : ∀ k, UThreads.IOHandler.pending p n k = true →
    UThreads.IOHandler.pending p' n' k = true) : Flushed home pos p' n' counter :=
  { h with pending := fun d hd => hp _ (h.pending d hd) }

/-- `prepareBulkPush`, of a uThread of this connection or another. -/
theorem count (h : Flushed home pos p n counter) (k : K) :
    Flushed home pos p n (Function.update counter k (counter k + 1)) := by
  refine { h with counted := fun d hd => ?_ }
  by_cases hk : home d = k
  · rw [hk, Function.update_self]
    exact Nat.succ_pos _
  · rw [Function.update_of_ne hk]
    exact h.counted d hd

theorem push (h : Flushed home pos p n counter) {ut : Dir}
    (hut : UThreads.IOHandler.pending p n (home ut) = true) :
    Flushed home (Function.update pos ut .bulkQueue) p n
      (Function.update counter (home ut) (counter (home ut) + 1)) := by
  have hcount := h.count (home ut)
  refine ⟨?_, ?_⟩ <;> intro d hd <;> by_cases hne : d = ut
  · rw [hne]
    exact hut
  · rw [Function.update_of_ne hne] at hd
    exact h.pending d hd
  · rw [hne, Function.update_self]
    exact Nat.succ_pos _
  · rw [Function.update_of_ne hne] at hd
    exact hcount.counted d hd

end Flushed

/-- The suspended uThreads are in reach. A `prepareBulkPush` of `close` has the poll before its
`bulkPush`. -/
structure Kept (home : Dir → K) (s : State K) : Prop where
  held : Held s.slot s.pos s.closing s.closer
  flushed : Flushed home s.pos s.poller s.unblockCounter s.bulkCounter
  overlap : s.closer.inBulk = true → 0 < s.unblockCounter ∧ s.poller.gathering = true

section Kept

variable {home : Dir → K} {kts : List K} {s s' : State K}

theorem Kept.goto (h : Kept home s) {d : Dir} {x : Pos}
    (hx : x ≠ .parked ∧ x ≠ .dropped ∧ x ≠ .bulkQueue)
    (hb : s.closer ≠ .idle → x.blocking = false) : Kept home (s.goto d x) :=
  ⟨h.held.goto hx.1 hx.2.1 hb, h.flushed.goto hx.2.2, h.overlap⟩

/-- While a uThread is in `block`, `close` has not been called. -/
theorem Kept.idle (h : Kept home s) {d : Dir} {x : Pos} (hd : s.pos d = x)
    (hx : x.blocking = true) : s.closer = .idle := by
  by_contra hne
  have hb := h.held.blocking hne d
  rw [hd, hx] at hb
  cases hb

omit [DecidableEq K] in
/-- The slot of a uThread that is not parked is free. -/
theorem Apart.free (hA : Apart s) (hI : Inv home s) {d : Dir} (hd : s.pos d ≠ .parked) :
    (s.slot d).ut? = none := by
  cases hq : s.slot d with
  | parked e =>
    have hpos := hI.places.parked d e hq
    rw [hA.held d e hq] at hpos
    exact absurd hpos hd
  | _ => rfl

theorem kept_run (hI : Inv home s) (hA : Apart s) (h : Kept home s) {d : Dir}
    (hs : run d s = some s') : Kept home s' := by
  have hidle : ∀ {x : Pos}, s.pos d = x → x.blocking = true → s.closer = .idle := h.idle
  have hutp := hA.utp d
  have hfree := hA.free hI (d := d)
  unfold run at hs
  cases hd : s.pos d <;> rw [hd] at hutp hfree <;> simp only [hd] at hs
  case idle | syscall | parked | dropped | taken | bulkQueue => cases hs
  case opened | blockRead | hookRead q =>
    cases hs
    split_ifs <;> exact h.goto ⟨nofun, nofun, nofun⟩ (absurd (hidle hd rfl))
  case openCas =>
    cases hs
    split_ifs
    · exact h.goto ⟨nofun, nofun, nofun⟩ (absurd (hidle hd rfl))
    · exact Kept.goto (s := { s with opened := true }) ⟨h.held, h.flushed, h.overlap⟩
        ⟨nofun, nofun, nofun⟩ (absurd (hidle hd rfl))
  case openAdd | blockFlag | suspend | hookFlag | hookResume =>
    cases hs
    exact ⟨h.held.goto nofun nofun (absurd (hidle hd rfl)), h.flushed.goto nofun, h.overlap⟩
  case runQueue =>
    cases hs
    exact h.goto ⟨nofun, nofun, nofun⟩ fun _ => rfl
  case blockClear =>
    cases hs
    exact ⟨(h.held.setSlot (hfree nofun) rfl).goto nofun nofun (absurd (hidle hd rfl)),
      h.flushed.goto nofun, h.overlap⟩
  case hookClear q =>
    cases hs
    obtain rfl := hutp q rfl
    exact ⟨(h.held.setSlot (hfree nofun) rfl).goto nofun nofun (absurd (hidle hd rfl)),
      h.flushed.goto nofun, h.overlap⟩
  case hookClosing =>
    cases hs
    have hclosing : s.closing ≠ true := by
      intro hc
      have hcl := h.held.closing hc
      rw [hidle hd rfl] at hcl
      cases hcl
    rw [if_neg hclosing]
    exact h.goto ⟨nofun, nofun, nofun⟩ (absurd (hidle hd rfl))
  case hookCas q =>
    cases hs
    split_ifs with hq
    · have hheld := h.held
      rw [hidle hd rfl] at hheld
      have hpark := hheld.park (d := d) hq
      rw [← hidle hd rfl] at hpark
      exact ⟨hpark, h.flushed.goto nofun, h.overlap⟩
    · exact h.goto ⟨nofun, nofun, nofun⟩ (absurd (hidle hd rfl))

theorem held_unblock {u u' : Unblock Dir} {b : Bool} {c : Closer} (hu : UnblockStep home s u s' u')
    (h : Held s.slot s.pos b c) : Held s'.slot s'.pos b c := by
  cases hu with
  | @set q old x hq hold hx =>
    refine h.setSlot ?_ ?_
    · rw [hq]
      cases old with
      | parked ut => exact absurd rfl (hold ut)
      | _ => rfl
    · rw [hx]
      split_ifs <;> rfl
  | take hq => exact h.take hq
  | pushed => exact h.goto nofun nofun fun _ => rfl
  | _ => exact h

theorem flushed_unblock {u u' : Unblock Dir} {p : Poller K} {n : ℕ}
    (hu : UnblockStep home s u s' u') (h : Flushed home s.pos p n s.bulkCounter)
    (hpush : ∀ ut, u = .pushing ut → pending p n (home ut) = true) :
    Flushed home s'.pos p n s'.bulkCounter := by
  cases hu with
  | take => exact h.goto nofun
  | pushed => exact h.push (hpush _ rfl)
  | _ => exact h

/-- A poller in `unblock` that is to flush still is after the next step. -/
theorem pending_unblock {u u' : Unblock Dir} {todo : List Dir} {n : ℕ} {k : K}
    (hu : UnblockStep home s u s' u') (hne : ∀ res, u ≠ .ret res)
    (h : pending (.unblock u todo) n k = true) : pending (.unblock u' todo) n k = true := by
  have hcases : 0 < n ∨ u = .ret true ∨ u.ut?.isSome := of_decide_eq_true h
  refine decide_eq_true ?_
  rcases hcases with hn | hret | hut
  · exact .inl hn
  · exact absurd hret (hne true)
  · cases hu with
    | push => exact .inr (.inr rfl)
    | pushed => exact .inr (.inl rfl)
    | _ => cases hut

/-- A poll that has counted a uThread has its `bulkPush` to come. -/
theorem pending_of_gathering {p : Poller K} {n : ℕ} (hn : 0 < n) (hp : p.gathering = true) (k : K) :
    pending p n k = true := by
  cases p with
  | polling => exact decide_eq_true hn
  | unblock u todo => exact decide_eq_true (.inl hn)
  | _ => cases hp

omit [DecidableEq K] in
theorem Poller.gathering_next (todo : List Dir) :
    (Poller.next todo : Poller K).gathering = true := by
  cases todo <;> rfl

/-- A step of `unblock` into `prepareBulkPush` is its call. -/
theorem UnblockStep.beforeBulk {u u' : Unblock Dir} (hu : UnblockStep home s u s' u')
    (h : u'.inBulk = true) : u.beforeBulk = true := by
  cases hu with
  | push => rfl
  | _ => cases h

/-- When the `unblock` is done with its slot, there is no uThread in it. -/
theorem UnblockStep.past {u u' : Unblock Dir} {q : Dir} (hu : UnblockStep home s u s' u')
    (hclosing : s.closing = false) (hq : ∀ r, u.utp? = some r → r = q)
    (h : u.past = true → (s.slot q).ut? = none) (h' : u'.past = true) :
    (s'.slot q).ut? = none := by
  cases hu with
  | closed hc =>
    rw [hclosing] at hc
    cases hc
  | enter | read | retry => cases h'
  | @ready r hr =>
    obtain rfl := hq r rfl
    rw [hr]
    rfl
  | @set r old x _ _ hx =>
    obtain rfl := hq r rfl
    rw [hx]
    show (Function.update s.slot r _ r).ut? = none
    rw [Function.update_self]
    split_ifs <;> rfl
  | @take r ut hr =>
    obtain rfl := hq r rfl
    show (Function.update s.slot r .null r).ut? = none
    rw [Function.update_self]
    rfl
  | push | pushed | ret => exact h rfl

theorem UnblockStep.utp {u u' : Unblock Dir} {r : Dir} (hu : UnblockStep home s u s' u')
    (h : u'.utp? = some r) : u.utp? = some r := by
  cases hu <;> first | exact h | cases h

theorem pending_next {todo : List Dir} {n : ℕ} {k : K} (hn : 0 < n) :
    pending (.next todo) n k = true := by
  cases todo with
  | nil => exact decide_eq_true hn
  | cons d todo => exact decide_eq_true (.inl hn)

/-- The flush leaves nobody on the bulk queue of `k`. -/
theorem flushed_flush (h : Flushed home s.pos s.poller s.unblockCounter s.bulkCounter)
    (hplaces : Places home s.slot s.pos s.bulkQueue s.poller.ut? s.closer.ut?) {k : K} {ks : List K}
    (hp : s.poller = .flush (k :: ks)) :
    Flushed home (s.flush k).pos (.zero k ks) s.unblockCounter (s.flush k).bulkCounter := by
  have hold : ∀ d, (s.flush k).pos d = .bulkQueue → s.pos d = .bulkQueue := by
    intro d hd
    rcases s.flush_pos k d with hpos | hpos
    · rw [← hpos]
      exact hd
    · rw [hpos] at hd
      cases hd
  obtain ⟨-, -, -, -, -, -, hcounter⟩ := s.flush_same k
  rw [hcounter]
  refine ⟨fun d hd => ?_, fun d hd => h.counted d (hold d hd)⟩
  have hk : home d ≠ k := by
    rintro hk
    have hpos : 0 < s.bulkCounter k := hk ▸ h.counted d (hold d hd)
    have hmem : d ∈ s.bulkQueue k := hk ▸ (hplaces.queued d).mp (hold d hd)
    rw [State.flush, if_pos hpos] at hd
    replace hd : (if d ∈ s.bulkQueue k then Pos.runQueue else s.pos d) = .bulkQueue := hd
    rw [if_pos hmem] at hd
    cases hd
  have hpend := h.pending d (hold d hd)
  rw [hp] at hpend
  have hmem : home d ∈ k :: ks := of_decide_eq_true hpend
  exact decide_eq_true ⟨hk, (List.mem_cons.mp hmem).resolve_left hk⟩

theorem kept_poll (hkts : ∀ d, home d ∈ kts) (hI : Inv home s) (h : Kept home s)
    (hc : Timely s .poll) (hs : poll home kts s = some s') : Kept home s' := by
  have hf := h.flushed
  -- `close` is not in `prepareBulkPush` while the poller begins or does a bulk operation.
  have hout : s.poller.gathering = false ∨ s.poller.beforeBulk = true → s.closer.inBulk ≠ true := by
    rintro (hp | hp) hb
    · have hg := (h.overlap hb).2
      rw [hp] at hg
      cases hg
    · rw [hc hp] at hb
      cases hb
  cases poll_step hs with
  | start hp | flushed hp =>
    rw [hp] at hf hout
    exact ⟨h.held, hf.poller (by rintro k ⟨⟩), fun hb => absurd hb (hout (.inl rfl))⟩
  | bulkPush hp hn =>
    rw [hp] at hout
    exact ⟨h.held, ⟨fun d _ => decide_eq_true (hkts d), hf.counted⟩,
      fun hb => absurd hb (hout (.inr rfl))⟩
  | finish hp hn =>
    rw [hp] at hout
    rw [hp, hn] at hf
    exact ⟨h.held, hf.poller (by rintro k ⟨⟩), fun hb => absurd hb (hout (.inr rfl))⟩
  | @ret res todo hp =>
    rw [hp] at hf
    refine ⟨h.held, hf.poller fun k hk => ?_, fun hb => ⟨?_, Poller.gathering_next todo⟩⟩
    · have hcases : 0 < s.unblockCounter ∨ Unblock.ret res = .ret true ∨ none.isSome = true :=
        of_decide_eq_true hk
      refine pending_next ?_
      rcases hcases with hn | hret | hut
      · split_ifs
        · exact Nat.succ_pos _
        · exact hn
      · obtain rfl := Unblock.ret.inj hret
        exact Nat.succ_pos _
      · cases hut
    · have hn := (h.overlap hb).1
      split_ifs
      · exact Nat.succ_pos _
      · exact hn
  | @unblock u u' todo t hp hne hu =>
    rw [hp] at hf hout
    have hheld := held_unblock hu h.held
    have hflushed := flushed_unblock hu hf (by
      rintro ut rfl
      exact decide_eq_true (.inr (.inr rfl)))
    have hnext := hflushed.poller fun k hk => pending_unblock hu hne hk
    obtain ⟨-, hclo, hcl, -, -, -, -, -, hcount⟩ := hu.same
    rw [← hclo, ← hcl] at hheld
    rw [← hcount] at hnext
    refine ⟨hheld, hnext, fun hb => ?_⟩
    replace hb : t.closer.inBulk = true := hb
    rw [hclo] at hb
    refine ⟨hcount.symm ▸ (h.overlap hb).1, ?_⟩
    show (!u'.inBulk) = true
    cases hin : u'.inBulk with
    | false => rfl
    | true => exact absurd hb (hout (.inr (hu.beforeBulk hin)))
  | @other k hp =>
    rw [hp] at hout
    exact ⟨h.held, (hf.count k).poller fun j _ => pending_of_gathering (Nat.succ_pos _) rfl j,
      fun hb => absurd hb (hout (.inl rfl))⟩
  | @flush k ks hp =>
    have hnext := flushed_flush hf hI.places hp
    have hheld := h.held.wake (s.flush_pos k)
    obtain ⟨hslot, hclosing, -, -, hcloser, hcount, -⟩ := s.flush_same k
    rw [← hslot, ← hclosing, ← hcloser] at hheld
    rw [← hcount] at hnext
    rw [hp] at hout
    exact ⟨hheld, hnext, fun hb => absurd (hcloser ▸ hb) (hout (.inl rfl))⟩
  | @zero k ks hp =>
    rw [hp] at hf hout
    refine ⟨h.held, ⟨fun d hd => ?_, fun d hd => ?_⟩, fun hb => absurd hb (hout (.inl rfl))⟩
    · exact decide_eq_true (of_decide_eq_true (hf.pending d hd)).2
    · show 0 < Function.update s.bulkCounter k 0 (home d)
      rw [Function.update_of_ne (of_decide_eq_true (hf.pending d hd)).1]
      exact hf.counted d hd

/-- A step of `close` outside `unblock` that stores to no slot. -/
theorem Kept.goOn (h : Kept home s) {c : Closer} (hs' : s'.slot = s.slot ∧ s'.pos = s.pos ∧
      s'.poller = s.poller ∧ s'.unblockCounter = s.unblockCounter ∧ s'.bulkCounter = s.bulkCounter ∧
      s'.closer = c)
    (hheld : Held s.slot s.pos s'.closing c) (hb : c.inBulk = false) : Kept home s' := by
  obtain ⟨hslot, hpos, hp, hn, hcount, hc⟩ := hs'
  refine ⟨?_, ?_, fun hin => ?_⟩
  · rw [hslot, hpos, hc]
    exact hheld
  · rw [hpos, hp, hn, hcount]
    exact h.flushed
  · rw [hc, hb] at hin
    cases hin

/-- A step of the `unblock` in `close`. -/
theorem Kept.unblock (h : Kept home s) {u u' : Unblock Dir} {c : Unblock Dir → Closer}
    (hu : UnblockStep home s u s' u') (hcl : s.closer = c u) (hne : c u ≠ .idle)
    (hclosing : ∀ v, (c v).isClosing = false) (hin : ∀ v, (c v).inBulk = v.inBulk)
    (hutp : ∀ v, (c v).utp? = v.utp?)
    (hcleared : ∀ q, (c u').cleared q = true → (s'.slot q).ut? = none)
    (hbulk : u.beforeBulk = true → 0 < s.unblockCounter ∧ s.poller.gathering = true) :
    Kept home { s' with closer := c u' } := by
  obtain ⟨hp, -, hc, -, -, -, -, -, hcount⟩ := hu.same
  have hheld := h.held
  have hover := h.overlap
  rw [hcl] at hheld hover
  rw [hin] at hover
  have hflushed := flushed_unblock hu h.flushed (by
    rintro ut rfl
    obtain ⟨hn, hg⟩ := hover rfl
    exact pending_of_gathering hn hg _)
  rw [← hp, ← hcount] at hflushed
  refine ⟨(held_unblock hu hheld).goOn hne (fun hb => ?_) hcleared ?_, hflushed, fun hb => ?_⟩
  · rw [hc] at hb
    have hcl := hheld.closing hb
    rw [hclosing] at hcl
    cases hcl
  · intro hw
    rw [hutp] at hw
    exact hheld.utp ((hutp u).trans (hu.utp hw))
  · show 0 < s'.unblockCounter ∧ s'.poller.gathering = true
    rw [hp, hcount]
    exact hbulk (hu.beforeBulk ((hin u').symm.trans hb))

theorem kept_close (h : Kept home s) (hc : Timely s .close) (hs : close home s = some s') :
    Kept home s' := by
  have hh := h.held
  have hbefore := hc.2
  cases close_step hs with
  | start hcl =>
    obtain ⟨hr, hw, hslot⟩ := hc.1 hcl
    rw [hcl] at hh
    refine h.goOn ⟨rfl, rfl, rfl, rfl, rfl, rfl⟩ ⟨hh.parked, hh.dropped, ?_, ?_, nofun, ?_⟩ rfl
    · exact fun hb => absurd (hh.closing hb) nofun
    · intro q hq
      cases q with
      | read => cases hq
      | write => exact hslot
    · intro _ d
      cases d with
      | read => exact hr
      | write => exact hw
  | parked hcl _ =>
    rw [hcl] at hh
    refine h.goOn ⟨rfl, rfl, rfl, rfl, rfl, rfl⟩ (hh.goOn nofun ?_ ?_ nofun) rfl
    · exact fun hb => absurd (hh.closing hb) nofun
    · intro q hq
      cases q with
      | read => cases hq
      | write => exact hh.cleared .write rfl
  | empty hcl hslot =>
    rw [hcl] at hh
    refine h.goOn ⟨rfl, rfl, rfl, rfl, rfl, rfl⟩ (hh.goOn nofun ?_ ?_ nofun) rfl
    · exact fun hb => absurd (hh.closing hb) nofun
    · intro q _
      cases q with
      | read =>
        cases hq : s.slot .read with
        | parked ut => exact absurd hq (hslot ut)
        | _ => rfl
      | write => exact hh.cleared .write rfl
  | retRut hcl | testWut hcl | retWut hcl =>
    rw [hcl] at hh
    refine h.goOn ⟨rfl, rfl, rfl, rfl, rfl, rfl⟩ (hh.goOn nofun ?_ ?_ nofun) rfl
    · exact fun hb => absurd (hh.closing hb) nofun
    · intro q _
      exact hh.cleared q (by cases q <;> rfl)
  | @unblockRut u u' t hcl _ hu =>
    rw [hcl] at hh hbefore
    have hclosing : s.closing = false := by
      cases hb : s.closing with
      | false => rfl
      | true => exact absurd (hh.closing hb) nofun
    refine h.unblock (c := .unblockRut) hu hcl nofun (fun _ => rfl) (fun _ => rfl) (fun _ => rfl)
      (fun q hq => ?_) hbefore
    cases q with
    | read =>
      refine hu.past hclosing (fun r hr => ?_) (hh.cleared .read) hq
      cases r with
      | read => rfl
      | write => exact absurd hr hh.utp
    | write => exact (held_unblock hu hh).cleared .write rfl
  | @unblockWut u u' t hcl _ hu =>
    rw [hcl] at hh hbefore
    exact h.unblock (c := .unblockWut) hu hcl nofun (fun _ => rfl) (fun _ => rfl) (fun _ => rfl)
      (fun q hq => (held_unblock hu hh).cleared q (by cases q <;> rfl)) hbefore
  | lost hcl hl =>
    rw [hcl] at hh
    exact absurd (hh.closing hl) nofun
  | won hcl _ | delete hcl =>
    rw [hcl] at hh
    refine h.goOn ⟨rfl, rfl, rfl, rfl, rfl, rfl⟩ (hh.goOn nofun (fun _ => rfl) ?_ nofun) rfl
    exact fun q _ => hh.cleared q (by cases q <;> rfl)
  | resetRut hcl =>
    rw [hcl] at hh
    exact ⟨hh.reset .read nofun (by rintro ⟨⟩ <;> rfl) rfl nofun, h.flushed, nofun⟩
  | resetWut hcl =>
    rw [hcl] at hh
    exact ⟨hh.reset .write nofun (by rintro ⟨⟩ <;> rfl) rfl nofun, h.flushed, nofun⟩
  | resetClosing hcl =>
    rw [hcl] at hh
    refine h.goOn ⟨rfl, rfl, rfl, rfl, rfl, rfl⟩ (hh.goOn nofun nofun ?_ nofun) rfl
    exact fun q _ => hh.cleared q (by cases q <;> rfl)
  | resetOpened hcl | recycle hcl =>
    rw [hcl] at hh
    refine h.goOn ⟨rfl, rfl, rfl, rfl, rfl, rfl⟩ (hh.goOn nofun ?_ ?_ nofun) rfl
    · exact fun hb => absurd (hh.closing hb) nofun
    · exact fun q _ => hh.cleared q (by cases q <;> rfl)

theorem kept_step (hkts : ∀ d, home d ∈ kts) (hI : Inv home s) (hA : Apart s) (h : Kept home s)
    {a : Action K} (hc : Timely s a) (hs : step home kts s a = some s') : Kept home s' := by
  cases a with
  | call d =>
    obtain ⟨-, rfl⟩ := step_call hs
    exact h.goto ⟨nofun, nofun, nofun⟩ fun _ => rfl
  | syscall d again =>
    obtain ⟨-, ⟨hagain, -, rfl⟩ | rfl⟩ := step_syscall hs
    · exact h.goto ⟨nofun, nofun, nofun⟩ (absurd (hc hagain))
    · exact h.goto ⟨nofun, nofun, nofun⟩ fun _ => rfl
  | run d => exact kept_run hI hA h hs
  | deliver dirs =>
    obtain ⟨hg, rfl⟩ := step_deliver hs
    refine ⟨h.held, h.flushed.poller fun k hk => ?_, fun hb =>
      ⟨(h.overlap hb).1, Poller.gathering_next dirs⟩⟩
    rw [hg] at hk
    exact pending_next (of_decide_eq_true hk)
  | elsewhere k =>
    obtain ⟨-, rfl⟩ := step_elsewhere hs
    refine ⟨h.held, h.flushed.poller fun _ _ => rfl, fun hb => ?_⟩
    exact absurd (hc.symm.trans hb) nofun
  | poll => exact kept_poll hkts hI h hc hs
  | close => exact kept_close h hc hs
  | rise d merge | fall d | stale d =>
    cases hs
    exact ⟨h.held, h.flushed, h.overlap⟩

/-- **`close` wakes everyone** in every run whose steps are all `Timely`. When it has returned and
nobody is in `block`, every uThread has been put on its run queue once for each time it was
suspended, but for one whose flush is to come: it is in the poller's hands, or on a bulk queue that
the poller will flush. -/
theorem close_wakes {rt : Runtime K}
    (h : (machine rt).ReachableBy Timely s) (hdone : s.closer = .done)
    (hblock : ∀ d, (s.pos d).blocking = false) (d : Dir) :
    ¬Stranded rt.home s d ∧
      (s.suspensions d = s.runs d ∨
        s.suspensions d = s.runs d + 1 ∧
          (s.poller.ut? = some d ∨ d ∈ s.bulkQueue (rt.home d) ∧ WillFlush s (rt.home d))) := by
  have hall : Inv rt.home s ∧ Apart s ∧ Kept rt.home s := by
    refine Machine.ReachableBy.invariant (I := fun s => Inv rt.home s ∧ Apart s ∧ Kept rt.home s)
      ?_ ?_ h
    · rintro s ⟨fdReady, rfl⟩
      exact ⟨inv_initial fdReady, ⟨nofun, nofun, nofun⟩,
        ⟨nofun, nofun, nofun, nofun, nofun, absurd rfl⟩, ⟨nofun, nofun⟩, nofun⟩
    · rintro s a s' ⟨hI, hA, hK⟩ hc hs
      exact ⟨inv_step hI hs, apart_step hA hc.flagFree hs, kept_step rt.home_mem hI hA hK hc hs⟩
  obtain ⟨hI, -, hK⟩ := hall
  have hparked : s.pos d ≠ .parked := by
    intro hd
    obtain ⟨q, hq⟩ := hK.held.parked d hd
    have hnone := hK.held.cleared q (by rw [hdone]; cases q <;> rfl)
    rw [hq] at hnone
    cases hnone
  have hdropped := hK.held.dropped d
  have hflush : s.pos d = .bulkQueue → WillFlush s (rt.home d) := fun hd =>
    ⟨hK.flushed.pending d hd, hK.flushed.counted d hd⟩
  refine ⟨?_, ?_⟩
  · rintro (hd | hd | ⟨hd, hnot⟩)
    · exact hparked hd
    · exact hdropped hd
    · exact hnot (hflush hd)
  · have hcount := hI.counted.runs d
    have hb := hblock d
    cases hd : s.pos d with
    | parked => exact absurd hd hparked
    | dropped => exact absurd hd hdropped
    | idle | syscall | runQueue =>
      rw [hd] at hcount
      exact .inl hcount
    | taken =>
      rw [hd] at hcount
      refine .inr ⟨hcount, .inl ?_⟩
      rcases (hI.places.taken d).mp hd with hp | hcl
      · exact hp
      · rw [hdone] at hcl
        cases hcl
    | bulkQueue =>
      rw [hd] at hcount
      exact .inr ⟨hcount, .inr ⟨(hI.places.queued d).mp hd, hflush hd⟩⟩
    | _ =>
      rw [hd] at hb
      cases hb

/-- The reader parks. A poll has unblocked a uThread of another connection when `close` takes the
reader out of its slot; then the poll flushes. -/
def readerParkedAtClose : List (Action ℕ) :=
  List.flatten [[.call .read, .syscall .read true], List.replicate 10 (.run .read),
    [.poll, .elsewhere 0, .poll], List.replicate 20 .close, List.replicate 2 .poll]

theorem close_wakes_reader :
    ∃ s : State ℕ, (machine oneKThread).ReachableBy Timely s ∧ s.closer = .done ∧
      s.suspensions .read = 1 ∧ s.handovers .read = 1 ∧ s.pos .read = .runQueue ∧
      ¬Stranded oneKThread.home s .read := by
  have hinit : (machine oneKThread).ReachableBy Timely (initial fun _ => false) := .init ⟨_, rfl⟩
  have hr := hinit.get readerParkedAtClose (by decide +kernel)
  refine ⟨_, hr, by decide +kernel, by decide +kernel, by decide +kernel, by decide +kernel, ?_⟩
  refine (close_wakes hr (by decide +kernel) (fun d => ?_) .read).1
  cases d <;> decide +kernel

end Kept

end UThreads.IOHandler
