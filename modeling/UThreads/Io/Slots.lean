import UThreads.Io.IOHandlerProof

/-!
# A reader and a writer

`block` tells its `postSwitchFunc` the direction through `isBlockingOnRead`, a field of the
`PollData` that the reader and the writer share.

* **`slots_mixed_up`**: a store by the writer between the reader's store and its load sends the
  reader to the writer's slot.
* **`own_slots`**: when no such store happens, each slot holds only its own uThread.
-/

namespace UThreads.IOHandler

variable {K : Type*}

/-- Each slot holds at most its own uThread, and no `postSwitchFunc` finds another's in the slot it
is about to park in. -/
def OwnSlots (s : State K) : Prop :=
  (∀ q e, s.slot q = .parked e → e = q) ∧
    ∀ d q e, s.pos d = .hookRead q → s.slot q = .parked e → e = d

/-- The reader stores `isBlockingOnRead`, then the writer does; the reader's `postSwitchFunc` reads
what the writer stored. -/
def flagOverwritten : List (Action ℕ) :=
  List.flatten [[.call .read, .syscall .read true], List.replicate 5 (.run .read),
    [.call .write, .syscall .write true], List.replicate 3 (.run .write),
    List.replicate 5 (.run .read), List.replicate 3 (.run .write)]

/-- **A reader and a writer can mix up their slots**: the reader is parked in `wut`, where the
writer's `postSwitchFunc` finds it. -/
theorem slots_mixed_up :
    ∃ s : State ℕ, (machine oneKThread).Reachable s ∧ s.closer = .idle ∧
      s.slot .write = .parked .read ∧ s.pos .write = .hookRead .write ∧ ¬OwnSlots s := by
  have hinit : (machine oneKThread).Reachable (initial fun _ => false) := .of_init ⟨_, rfl⟩
  have hr := hinit.get flagOverwritten (by decide +kernel)
  refine ⟨_, hr, by decide +kernel, by decide +kernel, by decide +kernel, fun h => ?_⟩
  have hread : Dir.read = .write := h.1 .write .read (by decide +kernel)
  cases hread

def Dir.other : Dir → Dir
  | .read => .write
  | .write => .read

theorem Dir.eq_other {d e : Dir} (h : e ≠ d) : e = d.other := by
  cases d <;> cases e <;> first | rfl | exact absurd rfl h

/-- `block` stores `isBlockingOnRead` only while the other's `postSwitchFunc` has not still to
read it. -/
def FlagFree (s : State K) : Action K → Prop
  | .run d => s.pos d = .blockFlag → (s.pos d.other).flagged = false
  | _ => True

instance (s : State K) : (a : Action K) → Decidable (FlagFree s a)
  | .run d =>
    inferInstanceAs (Decidable (s.pos d = .blockFlag → (s.pos d.other).flagged = false))
  | .call _ | .syscall _ _ | .deliver _ | .elsewhere _ | .poll | .close | .rise _ _ | .fall _
  | .stale _ => inferInstanceAs (Decidable True)

structure Apart (s : State K) : Prop where
  flag : ∀ d, (s.pos d).flagged = true → Dir.of s.isBlockingOnRead = d
  utp : ∀ d q, (s.pos d).utp? = some q → q = d
  held : ∀ q e, s.slot q = .parked e → e = q

section TwoDirections

variable {home : Dir → K} {s s' : State K}

/-- A store that parks nobody. -/
theorem parked_of_update {slot : Dir → Slot Dir} {q r e : Dir} {x : Slot Dir}
    (hx : ∀ e, x ≠ .parked e)
    (hr : Function.update slot q x r = .parked e) : slot r = .parked e := by
  by_cases hrq : r = q
  · rw [hrq, Function.update_self] at hr
    exact absurd hr (hx e)
  · rw [Function.update_of_ne hrq] at hr
    exact hr

/-- A step that parks nobody, brings nobody to the flag or to a slot, and leaves the flag alone. -/
theorem Apart.mono (h : Apart s)
    (hpos : ∀ d, s'.pos d = s.pos d ∨ (s'.pos d).flagged = false ∧ (s'.pos d).utp? = none)
    (hflag : s'.isBlockingOnRead = s.isBlockingOnRead)
    (hslot : ∀ q e, s'.slot q = .parked e → s.slot q = .parked e) : Apart s' := by
  refine ⟨?_, ?_, fun q e hq => h.held q e (hslot q e hq)⟩
  · intro d hd
    rcases hpos d with hp | ⟨hp, -⟩
    · rw [hflag]
      exact h.flag d (hp ▸ hd)
    · rw [hp] at hd; cases hd
  · intro d q hd
    rcases hpos d with hp | ⟨-, hp⟩
    · exact h.utp d q (hp ▸ hd)
    · rw [hp] at hd; cases hd

/-- uThread `d` comes to `y`. -/
theorem Apart.goto (h : Apart s) {d : Dir} {y : Pos} (hpos : s'.pos = Function.update s.pos d y)
    (hflag : s'.isBlockingOnRead = s.isBlockingOnRead)
    (hy : y.flagged = true → Dir.of s.isBlockingOnRead = d) (hutp : ∀ q, y.utp? = some q → q = d)
    (hslot : ∀ q e, s'.slot q = .parked e → s.slot q = .parked e ∨ e = q) : Apart s' := by
  refine ⟨?_, ?_, ?_⟩
  · intro e he
    rw [hflag]
    by_cases hne : e = d
    · subst hne
      rw [hpos, Function.update_self] at he
      exact hy he
    · rw [hpos, Function.update_of_ne hne] at he
      exact h.flag e he
  · intro e q he
    by_cases hne : e = d
    · subst hne
      rw [hpos, Function.update_self] at he
      exact hutp q he
    · rw [hpos, Function.update_of_ne hne] at he
      exact h.utp e q he
  · intro q e hq
    rcases hslot q e hq with hq | he
    · exact h.held q e hq
    · exact he

theorem apart_run (h : Apart s) {d : Dir} (hc : FlagFree s (.run d)) (hs : run d s = some s') :
    Apart s' := by
  unfold run at hs
  have hflag := h.flag d
  have hutp := h.utp d
  cases hd : s.pos d <;> rw [hd] at hflag hutp <;> simp only [hd] at hs
  case idle | syscall | parked | dropped | taken | bulkQueue => cases hs
  case opened | blockRead | openCas =>
    cases hs
    split_ifs <;> exact h.goto rfl rfl nofun nofun fun q e => .inl
  case hookClosing =>
    cases hs
    split_ifs
    · exact h.goto rfl rfl nofun nofun fun q e => .inl
    · exact h.goto rfl rfl hflag nofun fun q e => .inl
  case hookRead =>
    cases hs
    split_ifs <;> exact h.goto rfl rfl nofun hutp fun q e => .inl
  case openAdd | hookResume | runQueue | suspend =>
    cases hs
    exact h.goto rfl rfl hflag nofun fun q e => .inl
  case blockFlag =>
    cases hs
    refine ⟨?_, ?_, h.held⟩
    · intro e he
      replace he : (Function.update s.pos d .suspend e).flagged = true := he
      by_cases hne : e = d
      · subst hne
        cases e <;> rfl
      · -- The other is not about to read the flag.
        rw [Function.update_of_ne hne, Dir.eq_other hne, hc hd] at he
        cases he
    · intro e q he
      replace he : (Function.update s.pos d .suspend e).utp? = some q := he
      by_cases hne : e = d
      · rw [hne, Function.update_self] at he
        cases he
      · rw [Function.update_of_ne hne] at he
        exact h.utp e q he
  case hookFlag =>
    cases hs
    refine h.goto rfl rfl nofun ?_ fun q e => .inl
    rintro q ⟨rfl⟩
    exact hflag rfl
  case blockClear | hookClear =>
    cases hs
    exact h.goto rfl rfl nofun nofun fun q e hq => .inl (parked_of_update (x := .null) nofun hq)
  case hookCas q =>
    cases hs
    obtain rfl := hutp q rfl
    split_ifs with hq
    · refine h.goto rfl rfl nofun nofun fun r e hr => ?_
      replace hr : Function.update s.slot q (.parked q) r = .parked e := hr
      by_cases hrq : r = q
      · rw [hrq, Function.update_self] at hr
        exact .inr (hrq ▸ (Slot.parked.inj hr).symm)
      · rw [Function.update_of_ne hrq] at hr
        exact .inl hr
    · exact h.goto rfl rfl nofun hutp fun q e => .inl

/-- `unblock` takes a uThread out of a slot, and puts none into one. -/
theorem apart_unblock [DecidableEq K] {u u' : Unblock Dir} (h : Apart s)
    (hu : UnblockStep home s u s' u') : Apart s' := by
  cases hu with
  | @set q old x hq hold hx =>
    refine h.mono (fun _ => .inl rfl) rfl fun r e hr => parked_of_update ?_ hr
    intro e' he
    rw [he] at hx
    split_ifs at hx
  | @take q ut hq =>
    refine h.mono (fun d => ?_) rfl fun r e hr => parked_of_update (x := .null) nofun hr
    by_cases hd : d = ut
    · rw [hd]
      refine .inr ?_
      show (Function.update s.pos ut .taken ut).flagged = _ ∧
        (Function.update s.pos ut .taken ut).utp? = _
      rw [Function.update_self]
      exact ⟨rfl, rfl⟩
    · exact .inl (Function.update_of_ne hd ..)
  | @pushed ut =>
    refine h.mono (fun d => ?_) rfl fun r e hr => hr
    by_cases hd : d = ut
    · rw [hd]
      refine .inr ?_
      show (Function.update s.pos ut .bulkQueue ut).flagged = _ ∧
        (Function.update s.pos ut .bulkQueue ut).utp? = _
      rw [Function.update_self]
      exact ⟨rfl, rfl⟩
    · exact .inl (Function.update_of_ne hd ..)
  | _ => exact h

theorem apart_step [DecidableEq K] {kts : List K} (h : Apart s) {a : Action K} (hc : FlagFree s a)
    (hs : step home kts s a = some s') : Apart s' := by
  cases a with
  | call d =>
    obtain ⟨-, rfl⟩ := step_call hs
    exact h.goto rfl rfl nofun nofun fun q e => .inl
  | syscall d again =>
    obtain ⟨-, ⟨-, -, rfl⟩ | rfl⟩ := step_syscall hs
    · exact h.goto rfl rfl nofun nofun fun q e => .inl
    · exact h.goto rfl rfl nofun nofun fun q e => .inl
  | run d => exact apart_run h hc hs
  | deliver dirs =>
    obtain ⟨-, rfl⟩ := step_deliver hs
    exact ⟨h.flag, h.utp, h.held⟩
  | elsewhere k =>
    obtain ⟨-, rfl⟩ := step_elsewhere hs
    exact ⟨h.flag, h.utp, h.held⟩
  | rise d merge | fall d | stale d =>
    cases hs
    exact ⟨h.flag, h.utp, h.held⟩
  | poll =>
    cases poll_step hs with
    | unblock _ _ hu =>
      have ht := apart_unblock h hu
      exact ⟨ht.flag, ht.utp, ht.held⟩
    | @flush k ks =>
      obtain ⟨hslot, -, hflag, -⟩ := s.flush_same k
      refine h.mono (fun d => ?_) hflag fun q e hq => ?_
      · refine (s.flush_pos k d).imp id fun hd => ?_
        show ((s.flush k).pos d).flagged = _ ∧ ((s.flush k).pos d).utp? = _
        rw [hd]
        exact ⟨rfl, rfl⟩
      · rw [← hslot]
        exact hq
    | _ => exact ⟨h.flag, h.utp, h.held⟩
  | close =>
    cases close_step hs with
    | unblockRut _ _ hu | unblockWut _ _ hu =>
      have ht := apart_unblock h hu
      exact ⟨ht.flag, ht.utp, ht.held⟩
    | resetRut | resetWut =>
      exact h.mono (fun _ => .inl rfl) rfl fun q e hq => parked_of_update (x := .null) nofun hq
    | _ => exact ⟨h.flag, h.utp, h.held⟩

/-- **A reader and a writer park in their own slots** in every run in which `block` stores
`isBlockingOnRead` only while the other's `postSwitchFunc` has not still to read it. -/
theorem own_slots [DecidableEq K] {rt : Runtime K}
    (h : (machine rt).ReachableBy FlagFree s) : OwnSlots s := by
  have hA : Apart s := by
    refine Machine.ReachableBy.invariant (I := Apart) ?_
      (fun _ _ _ hI hc hs => apart_step hI hc hs) h
    rintro s ⟨fdReady, rfl⟩
    exact ⟨nofun, nofun, nofun⟩
  refine ⟨hA.held, fun d q e hd hq => ?_⟩
  rw [← hA.utp d q (by rw [hd]; rfl)]
  exact hA.held q e hq

/-- The reader parks, then the writer. -/
def bothPark : List (Action ℕ) :=
  List.flatten [[.call .read, .syscall .read true], List.replicate 10 (.run .read),
    [.call .write, .syscall .write true], List.replicate 8 (.run .write)]

theorem own_slots_bothPark :
    ∃ s : State ℕ, (machine oneKThread).ReachableBy FlagFree s ∧
      s.slot .read = .parked .read ∧ s.slot .write = .parked .write ∧ OwnSlots s := by
  have hinit : (machine oneKThread).ReachableBy FlagFree (initial fun _ => false) :=
    .init ⟨_, rfl⟩
  have hr := hinit.get bothPark (by decide +kernel)
  exact ⟨_, hr, by decide +kernel, by decide +kernel, own_slots hr⟩

end TwoDirections

end UThreads.IOHandler
