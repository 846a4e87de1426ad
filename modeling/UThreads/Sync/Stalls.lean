import UThreads.Sync.ConditionVariable
import UThreads.Sync.MutexRefinement
import UThreads.Sync.Semaphore
import Mathlib.Data.Fintype.Basic

/-!
# `Semaphore` and `ConditionVariable` do not stall

A state is stuck when no step can be made but new calls. The layers are taken one after the other:

- **`Mutex`** (`Mutex.Stuck`): no kThread is in the code of the mutex, and whoever waits does so for
  one that is inside.
- **`BlockingQueue`** (`Stuck.rests`): a uThread is in no call, has the mutex and is between two
  calls, waits for the mutex, or is parked on the queue.
- **`Semaphore`**: a uThread that has the mutex goes on with `P` or `V`, so that nobody has it.
- **`ConditionVariable`**: a uThread that has the mutex has returned to its client.

**Theorem (`stalls_only_without_permits`).** In a stuck state of a semaphore its mutex is free, and
every uThread is in no call or is parked in `P`; if there is one that is parked, then the counter is
0.

**Theorem (`waits_only_for_signal`).** In a stuck state of a condition variable, a uThread in `wait`
is on its queue, or has been signalled and waits for the mutex, which a client has.
-/

namespace UThreads.BlockingQueue

variable {K U : Type*} [DecidableEq K] [DecidableEq U] {s : State K U} {u : U}

/-- No step can be made but calls. -/
def Stuck (s : State K U) : Prop := StuckBy step Action.internal s

/-- Where a uThread is in a stuck state. -/
inductive Rests (s : State K U) (u : U) : Prop
  | out : s.pc u = .out → Rests s u
  /-- with the mutex, between two calls -/
  | inside : s.pc u = .inside ∨ s.pc u = .sigFalse → Rests s u
  | parked : s.pc u = .parked → u ∈ s.bq → Rests s u
  | acquiring {w : U} : s.pc u = .acquiring → s.pc w = .inside ∨ s.pc w = .sigFalse → Rests s u

theorem Stuck.mutex (h : Stuck s) (hs : (machine K U).Reachable s) : Mutex.Stuck s.mutex := by
  apply Mutex.stuck_of_none (inv_reachable hs).mutex
  · intro k
    exact Option.map_eq_none_iff.mp (h (.mutex k) rfl)
  · intro u
    have hu := h (.dispatch u) rfl
    simp only [step] at hu
    split_ifs at hu
    exact Option.map_eq_none_iff.mp hu

/-- The mutex can be released by whoever has it. -/
theorem Stuck.release (h : Stuck s) (hs : (machine K U).Reachable s) (k : K)
    (hu : s.mutex.status u = .inside) (x : Pc U) : s.release k u x ≠ none := by
  have hact := (h.mutex hs).act k
  simp [State.release, Mutex.step, hact, hu]

/-- With the mutex, a uThread is between two calls. -/
theorem Stuck.rests_inside [Nonempty K] (h : Stuck s) (hs : (machine K U).Reachable s)
    (hu : s.mutex.status u = .inside) : s.pc u = .inside ∨ s.pc u = .sigFalse := by
  obtain ⟨k⟩ := ‹Nonempty K›
  have hinv := inv_reachable hs
  have hrun : run k u s = none := h (.run k u) rfl
  have hag := hinv.agrees u
  have hview := hinv.view u
  have hrelease := h.release hs k hu
  unfold run at hrun
  cases hp : s.pc u <;> rw [hp, hu] at hag <;> rw [hp] at hview
  case inside => exact .inl rfl
  case sigFalse => exact .inr rfl
  case acquiring => simp [hp, hu] at hrun
  case sigFront =>
    obtain ⟨w, l, hw⟩ := List.exists_cons_of_ne_nil hview
    simp [hp, hw] at hrun
  case hookRelease | sigRelease | release =>
    simp only [hp] at hrun
    exact absurd hrun (hrelease _)
  case allRemove ut => cases ut <;> simp [hp] at hrun
  case suspend | hookPush | sigTest | sigPop | allFront | allResume => simp [hp] at hrun
  case out | ready | sigResume => cases hag
  case parked | sigReleasing | releasing => rcases hag with hag | hag <;> cases hag

theorem Stuck.rests [Nonempty K] (h : Stuck s) (hs : (machine K U).Reachable s) (u : U) :
    Rests s u := by
  have hinv := inv_reachable hs
  have hmutex := h.mutex hs
  obtain ⟨k⟩ := ‹Nonempty K›
  have hrun : ∀ v, run k v s = none := fun v => h (.run k v) rfl
  by_cases hin : s.mutex.status u = .inside
  · exact .inside (h.rests_inside hs hin)
  -- Nobody is on the way out of the mutex.
  have hout : ∀ v, s.mutex.status v = .releasing ∨ s.mutex.status v = .out →
      s.mutex.status v = .out := by
    intro v hv
    rcases hmutex.status v with hx | hx | ⟨hx, -⟩
    · exact hx
    · rw [hx] at hv
      rcases hv with hv | hv <;> cases hv
    · rw [hx] at hv
      rcases hv with hv | hv <;> cases hv
  have hag := hinv.agrees u
  cases hp : s.pc u <;> rw [hp] at hag
  case out => exact .out hp
  case acquiring =>
    have hwait : s.mutex.status u = .waiting := by
      rcases hmutex.status u with hx | hx | ⟨hx, -⟩
      · exact absurd hx hag.1
      · exact absurd hx hin
      · exact hx
    obtain ⟨w, hw⟩ := hmutex.inside_of_waiting hinv.mutex hwait
    exact .acquiring hp (h.rests_inside hs hw)
  case parked =>
    rcases hinv.waits u hp with hq | ⟨v, hv⟩
    · exact .parked hp hq
    · exfalso
      have hvrun := hrun v
      have hvag := hinv.agrees v
      unfold run at hvrun
      cases hpv : s.pc v <;> rw [hpv] at hv hvag
      case sigRelease =>
        have hnone := h.rests_inside hs hvag
        rw [hpv] at hnone
        rcases hnone with hn | hn <;> cases hn
      case sigReleasing => simp [hpv, hout v hvag] at hvrun
      case sigResume | allResume => simp [hpv] at hvrun
      all_goals cases hv
  case ready =>
    have hd := h (.dispatch u) rfl
    simp [step, hp] at hd
  case sigReleasing | releasing =>
    have hu := hrun u
    unfold run at hu
    simp [hp, hout u hag] at hu
  case sigResume =>
    have hu := hrun u
    unfold run at hu
    simp [hp] at hu
  all_goals exact absurd hag hin

end UThreads.BlockingQueue

namespace UThreads.Semaphore

variable {K U : Type*} [DecidableEq K] [DecidableEq U] {c : BitVec 64} {s : State K U} {u : U}

/-- No step can be made but calls. -/
def Stuck (s : State K U) : Prop := StuckBy step Action.internal s

theorem Stuck.queue (h : Stuck s) : BlockingQueue.Stuck s.queue :=
  StuckBy.part h .queue (fun _ => rfl) fun _ ha => if_pos ha

/-- Whoever has the mutex goes on. -/
theorem Stuck.not_inside (h : Stuck s) (hs : (machine K U c).Reachable s) :
    ¬(s.queue.pc u = .inside ∨ s.queue.pc u = .sigFalse) := by
  intro hin
  have hrun : run u s = none := h (.run u) rfl
  have hag := (inv_reachable hs).agrees u
  unfold run at hrun
  rcases hin with hin | hin
  · rw [hin] at hag
    cases hp : s.pc u <;> rw [hp] at hag
    case pAcquire => simp [hp, hin] at hrun
    case vAcquire => simp [hp, hin, State.onQueue, BlockingQueue.step] at hrun
    case pTest =>
      simp only [hp] at hrun
      split_ifs at hrun
      simp [State.onQueue, BlockingQueue.step, hin] at hrun
    case pTake => simp [hp, hin, State.onQueue, State.take, BlockingQueue.step] at hrun
    all_goals cases hag
  · rw [hin] at hag
    cases hp : s.pc u <;> rw [hp] at hag
    case vSignal => simp [hp, hin] at hrun
    case vAdd => simp [hp, hin, State.onQueue, State.add, BlockingQueue.step] at hrun
    all_goals cases hag

/-- **The semaphore stalls for want of permits only.** When no step can be made but new calls, the
mutex is free, and every uThread is in no call, or is parked on the queue in `P` while the counter
is 0. -/
theorem stalls_only_without_permits [Nonempty K] (h : (machine K U c).Reachable s)
    (hstuck : ∀ a : Action K U, a.internal = true → step s a = none) :
    s.queue.mutex.owner = none ∧
      ∀ u, s.pc u = .idle ∨ s.pc u = .pSuspend ∧ u ∈ s.queue.bq ∧ s.counter = 0 := by
  have hinv := inv_reachable h
  have hno : ∀ u, ¬(s.queue.pc u = .inside ∨ s.queue.pc u = .sigFalse) :=
    fun u => Stuck.not_inside hstuck h
  have hq := Stuck.queue hstuck
  refine ⟨?_, ?_⟩
  · cases ho : s.queue.mutex.owner with
    | none => rfl
    | some w => exact absurd (hq.rests_inside hinv.queue ((hq.mutex hinv.queue).owner w ho)) (hno w)
  · intro u
    have hag := hinv.agrees u
    have hrun : run u s = none := hstuck (.run u) rfl
    unfold run at hrun
    rcases hq.rests hinv.queue u with hout | hin | ⟨hpark, hbq⟩ | ⟨-, hw⟩
    · rw [hout] at hag
      cases hp : s.pc u <;> rw [hp] at hag
      case idle => exact .inl rfl
      case pSuspend | pRelease | vSignal | vRelease => simp [hp, hout] at hrun
      all_goals cases hag
    · exact absurd hin (hno u)
    · rw [hpark] at hag
      cases hp : s.pc u <;> rw [hp] at hag
      case pSuspend =>
        refine .inr ⟨rfl, hbq, ?_⟩
        by_contra hne
        rw [hinv.empty hne] at hbq
        exact absurd hbq List.not_mem_nil
      all_goals cases hag
    · exact absurd hw (hno _)

/-- A call of `P` that parks. -/
def pParks : List (Action Unit Unit) :=
  List.flatten [[.p () ()], List.replicate 4 (.queue (.mutex ())),
    [.queue (.run () ()), .run (), .run ()],
    List.replicate 3 (.queue (.run () ())), List.replicate 4 (.queue (.mutex ()))]

theorem stalls_only_without_permits_parked :
    ∃ s : State Unit Unit, (machine Unit Unit 0).Reachable s ∧ s.queue.bq = [()] ∧
    s.queue.mutex.owner = none := by
  have hinit : (machine Unit Unit 0).Reachable (initial 0) := .of_init rfl
  have hr := hinit.get pParks (by decide +kernel)
  have hstuck : ∀ a : Action Unit Unit, a.internal = true →
      step (((machine Unit Unit 0).run (initial 0) pParks).get (by decide +kernel)) a = none := by
    intro a ha
    apply Option.isNone_iff_eq_none.mp
    cases a with
    | p | v => cases ha
    | run => decide +kernel +revert
    | queue b => cases b <;> decide +kernel +revert
  exact ⟨_, hr, by decide +kernel, (stalls_only_without_permits hr hstuck).1⟩

end UThreads.Semaphore

namespace UThreads.ConditionVariable

variable {K U : Type*} [DecidableEq K] [DecidableEq U] {s : State K U} {u : U}

/-- No step can be made but calls. -/
def Stuck (s : State K U) : Prop := StuckBy step Action.internal s

theorem Stuck.queue (h : Stuck s) : BlockingQueue.Stuck s.queue :=
  StuckBy.part h .queue (fun _ => rfl) fun _ ha => if_pos ha

/-- Whoever has the mutex has returned to the client. -/
theorem Stuck.own_of_inside [Nonempty K] (h : Stuck s) (hs : (machine K U).Reachable s)
    (hin : s.queue.pc u = .inside ∨ s.queue.pc u = .sigFalse) : s.pc u = .own := by
  obtain ⟨k⟩ := ‹Nonempty K›
  have hrun : run k u s = none := h (.run k u) rfl
  have hag := (inv_reachable hs).agrees u
  unfold run at hrun
  rcases hin with hin | hin
  · rw [hin] at hag
    cases hp : s.pc u <;> rw [hp] at hag
    case acquire | waitAcquire => simp [hp, hin, State.await] at hrun
    all_goals cases hag
  · rw [hin] at hag
    cases hp : s.pc u <;> rw [hp] at hag
    case signal => simp [hp, hin, State.onQueue, BlockingQueue.step] at hrun
    all_goals cases hag

/-- A uThread that was woken calls `mutex.acquire()`. -/
theorem Stuck.not_woken [Nonempty K] (h : Stuck s) (hs : (machine K U).Reachable s)
    (hout : s.queue.pc u = .out) : s.pc u ≠ .waitSuspend := by
  intro hp
  obtain ⟨k⟩ := ‹Nonempty K›
  have hinv := inv_reachable hs
  have hrun : run k u s = none := h (.run k u) rfl
  have hact := (h.queue.mutex hinv.queue).act k
  have hstatus := (BlockingQueue.inv_reachable hinv.queue).agrees u
  rw [hout] at hstatus
  have hstatus : s.queue.mutex.status u = .out := hstatus
  simp [run, hp, hout, State.onQueue, BlockingQueue.step, Mutex.step, hact, hstatus] at hrun

/-- **`wait` waits for a signal or for the mutex only.** When no step can be made but new calls, a
uThread in a call is in `wait` on the queue of the condition, or it waits for the mutex, and this is
with a client. -/
theorem waits_only_for_signal [Nonempty K] (h : (machine K U).Reachable s)
    (hstuck : ∀ a : Action K U, a.internal = true → step s a = none) (u : U) :
    s.pc u = .out ∨ s.pc u = .own ∨ s.pc u = .waitSuspend ∧ u ∈ s.queue.bq ∨
      (s.pc u = .acquire ∨ s.pc u = .waitAcquire) ∧ ∃ w,
      s.pc w = .own ∧ s.queue.mutex.owner = some w := by
  have hinv := inv_reachable h
  have hqinv := BlockingQueue.inv_reachable hinv.queue
  have hq := Stuck.queue hstuck
  have hag := hinv.agrees u
  rcases hq.rests hinv.queue u with hout | hin | ⟨hpark, hbq⟩ | ⟨hacq, hw⟩
  · have hnot := Stuck.not_woken hstuck h hout
    have hrun : ∀ k, run k u s = none := fun k => hstuck (.run k u) rfl
    obtain ⟨k⟩ := ‹Nonempty K›
    have hk := hrun k
    unfold run at hk
    rw [hout] at hag
    cases hp : s.pc u <;> rw [hp] at hag
    case out => exact .inl rfl
    case waitSuspend => exact absurd hp hnot
    case signal | signalRelease | signalAll | release => simp [hp, hout, State.await] at hk
    all_goals cases hag
  · exact .inr (.inl (Stuck.own_of_inside hstuck h hin))
  · rw [hpark] at hag
    cases hp : s.pc u <;> rw [hp] at hag
    case waitSuspend => exact .inr (.inr (.inl ⟨rfl, hbq⟩))
    all_goals cases hag
  · rename_i w
    have hholds : (s.queue.pc w).holds = true := by
      rcases hw with hw | hw <;> rw [hw] <;> rfl
    have hclient : ∃ w, s.pc w = .own ∧ s.queue.mutex.owner = some w :=
      ⟨w, Stuck.own_of_inside hstuck h hw, hqinv.owner hholds⟩
    rw [hacq] at hag
    cases hp : s.pc u <;> rw [hp] at hag
    case acquire => exact .inr (.inr (.inr ⟨.inl rfl, hclient⟩))
    case waitAcquire => exact .inr (.inr (.inr ⟨.inr rfl, hclient⟩))
    all_goals cases hag

/-- A call of `wait`. -/
def waitParks : List (Action Unit Unit) :=
  List.flatten [[.acquire () ()], List.replicate 4 (.queue (.mutex ())),
    [.queue (.run () ()), .run () (), .wait ()],
    List.replicate 3 (.queue (.run () ())), List.replicate 4 (.queue (.mutex ()))]

theorem waits_only_for_signal_parked :
    ∃ s : State Unit Unit, (machine Unit Unit).Reachable s ∧ s.pc () = .waitSuspend ∧
      s.queue.bq = [()] ∧
      (s.pc () = .out ∨ s.pc () = .own ∨ s.pc () = .waitSuspend ∧ () ∈ s.queue.bq ∨
        (s.pc () = .acquire ∨ s.pc () = .waitAcquire) ∧ ∃ w,
        s.pc w = .own ∧ s.queue.mutex.owner = some w) := by
  have hinit : (machine Unit Unit).Reachable initial := .of_init rfl
  have hr := hinit.get waitParks (by decide +kernel)
  have hstuck : ∀ a : Action Unit Unit, a.internal = true →
      step (((machine Unit Unit).run initial waitParks).get (by decide +kernel)) a = none := by
    intro a ha
    apply Option.isNone_iff_eq_none.mp
    cases a with
    | acquire | wait | signal | signalAll | release => cases ha
    | run => decide +kernel +revert
    | queue b => cases b <;> decide +kernel +revert
  exact ⟨_, hr, by decide +kernel, by decide +kernel, waits_only_for_signal hr hstuck ()⟩

end UThreads.ConditionVariable
