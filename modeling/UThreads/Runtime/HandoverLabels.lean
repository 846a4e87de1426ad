import UThreads.Runtime.HandoverRun
import Mathlib.Data.Fintype.Basic

/-!
# What `state` says about a uThread

`resume()` looks at nothing but `state` to decide whether to put a uThread on a run queue.
**`states_wrong`** shows the four ways in which `state` is not what it should be, and what a
`resume()` does then. In the runs that avoid them (`Truthful`), from the first context switch of
`initUT` on, `state` is right and `resume()` is idempotent (**`states_right`**).
-/

namespace UThreads.Handover

variable {U K C B D : Type*} [DecidableEq U] [DecidableEq K] [DecidableEq C] [DecidableEq B]
  [DecidableEq D]

/-- A kThread runs the code of `u`. -/
def Executing (s : Ctl U K C B D) (u : U) : Prop := ∃ k, s.pos k = .run u

def OnRunQueue (l : Lists U K C B) (u : U) : Prop :=
  (∃ k, u ∈ l (.runQueue k)) ∨ (∃ c, u ∈ l (.queue (.queue c))) ∨ ∃ k, u ∈ l (.queue (.lrq k))

/-- `u` is in a blocking queue or in a poll slot. -/
def Parked (s : Ctl U K C B D) (l : Lists U K C B) (u : U) : Prop :=
  (∃ b, u ∈ l (.bq b)) ∨ ∃ d, s.slot d = .parked u

/-- No yield falls through, nothing is pushed from a bulk queue, and the public `resume()` is called
on uThreads only that are executing or on a run queue, and not on `initUT` before its first context
switch. -/
def Truthful (cfg : Config K C) (s : Ctl U K C B D × Lists U K C B) : Action U K C B D → Prop
  | .resume u _ => (Executing s.1 u ∨ OnRunQueue s.2 u) ∧ ¬s.1.unswitched u
  | .switch k _ choice => fallsThrough cfg s k choice = false
  | .bulkPush j => s.1.bulkCounter j = 0
  | .pushChain => False
  | _ => True

instance [Fintype K] [Fintype C] (cfg : Config K C) (s : Ctl U K C B D × Lists U K C B)
    (a : Action U K C B D) : Decidable (Truthful cfg s a) :=
  match a with
  | .resume u _ => inferInstanceAs (Decidable
      (((∃ k, s.1.pos k = .run u) ∨ (∃ k, u ∈ s.2 (.runQueue k)) ∨
        (∃ c, u ∈ s.2 (.queue (.queue c))) ∨
        ∃ k, u ∈ s.2 (.queue (.lrq k))) ∧ ¬(s.1.initUT = some u ∧ s.1.switched = false)))
  | .switch k _ choice => inferInstanceAs (Decidable (fallsThrough cfg s k choice = false))
  | .bulkPush j => inferInstanceAs (Decidable (s.1.bulkCounter j = 0))
  | .pushChain => inferInstanceAs (Decidable False)
  | .newCluster .. | .defaultKT .. | .newkThread _ | .create .. | .createCached _ | .start ..
  | .yield _
  | .migrate .. | .terminate _ | .wait .. | .block .. | .signal .. | .wake .. | .poll | .unblock _
  | .prepareBulkPush =>
    inferInstanceAs (Decidable True)

variable {cfg : Config K C} {s : Ctl U K C B D} {l : Lists U K C B} {u : U}

section Labels

variable {counts : Prop}

omit [DecidableEq U] [DecidableEq K] [DecidableEq C] [DecidableEq B] [DecidableEq D] in
theorem Inv.executing (h : Inv True counts cfg s l) (hu : Executing s u) :
    (s.ut u).state = .running ∨ s.unswitched u := by
  obtain ⟨k, hk⟩ := hu
  have hgood := h.good u (.cur k) (by simp [At, hk, Pos.cur])
  exact hgood.2 trivial (by simp [hk, Pos.leaving])

omit [DecidableEq U] [DecidableEq K] [DecidableEq C] [DecidableEq B] [DecidableEq D] in
theorem Inv.onRunQueue (h : Inv True counts cfg s l) (hu : OnRunQueue l u) :
    (s.ut u).state = .ready := by
  rcases hu with ⟨k, hk⟩ | ⟨c, hc⟩ | ⟨k, hk⟩
  · exact h.good u (.cont (.runQueue k)) hk trivial rfl
  · exact h.good u (.cont (.queue (.queue c))) hc trivial rfl
  · exact h.good u (.cont (.queue (.lrq k))) hk trivial rfl

omit [DecidableEq U] [DecidableEq K] [DecidableEq C] [DecidableEq B] [DecidableEq D] in
theorem Inv.parked (h : Inv True counts cfg s l) (hu : Parked s l u) :
    (s.ut u).state = .waiting := by
  rcases hu with ⟨b, hb⟩ | ⟨d, hd⟩
  · exact h.good u (.cont (.bq b)) hb
  · exact h.good u (.slot d) hd

omit [DecidableEq U] [DecidableEq K] [DecidableEq C] [DecidableEq B] [DecidableEq D] in
/-- `resume()` does nothing for a uThread that is executing or on a run queue. -/
theorem Inv.not_resumable (h : Inv True counts cfg s l) (hu : Executing s u ∨ OnRunQueue l u)
    (hi : ¬s.unswitched u) : (s.ut u).state.resumable = false := by
  rcases hu with hu | hu
  · rw [(h.executing hu).resolve_right hi]
    rfl
  · rw [h.onRunQueue hu]
    rfl

omit [DecidableEq U] [DecidableEq K] [DecidableEq C] [DecidableEq B] [DecidableEq D] in
theorem Inv.not_absent (h : Inv True counts cfg s l) (hu : Executing s u ∨ OnRunQueue l u) :
    (s.ut u).life ≠ .absent := by
  intro hlife
  have hat : At s l u .absent := hlife
  rcases hu with ⟨k, hk⟩ | ⟨k, hk⟩ | ⟨c, hc⟩ | ⟨k, hk⟩
  · exact absurd (h.eq_of_at hat (q := .cur k) (by simp [At, hk, Pos.cur])) (by simp)
  · exact absurd (h.eq_of_at hat (q := .cont (.runQueue k)) hk) (by simp)
  · exact absurd (h.eq_of_at hat (q := .cont (.queue (.queue c))) hc) (by simp)
  · exact absurd (h.eq_of_at hat (q := .cont (.queue (.lrq k))) hk) (by simp)

omit [DecidableEq U] [DecidableEq K] [DecidableEq C] [DecidableEq B] [DecidableEq D] in
theorem Inv.allowed {a : Action U K C B D} (h : Inv True False cfg s l)
    (ha : Truthful cfg (s, l) a) : Allowed True False cfg (s, l) a := by
  cases a with
  | resume u home => exact h.not_resumable ha.1 ha.2
  | switch k home choice => exact fun _ => ha
  | bulkPush j => exact fun _ => ha
  | pushChain => exact ha.elim
  | newCluster c n => exact False.elim
  | _ => trivial

end Labels

theorem inv_of_truthful {s : Ctl U K C B D × Lists U K C B}
    (h : (machine lists cfg).ReachableBy (Truthful cfg) s) : Inv True False cfg s.1 s.2 := by
  refine h.invariant (I := fun s => Inv True False cfg s.1 s.2) ?_ ?_
  · rintro s rfl
    exact inv_initial
  · intro s a s' hinv ha hstep
    obtain ⟨x, hplan, hx⟩ := step_eq_some.mp hstep
    exact inv_plan hinv (hinv.allowed ha) hplan hx

/-! ## One kThread, and two uThreads

`false` is `initUT`. -/

def single : Config Unit Unit := ⟨.two, fun _ => (), 1000⟩

abbrev Single := Machine (Ctl Bool Unit Unit Unit Unit × Lists Bool Unit Unit Unit)
    (Action Bool Unit Unit Unit Unit)

/-- `false` creates and starts `true`. -/
def begin : List (Action Bool Unit Unit Unit Unit) :=
  [.newCluster () 0, .defaultKT () false, .create () true, .start () true () ()]

/-- The kThread goes on `n` times. -/
def switches (n : ℕ) : List (Action Bool Unit Unit Unit Unit) :=
  List.replicate n (.switch () () true)

/-- `false` waits on a blocking queue, and `true` runs. -/
def waiting : List (Action Bool Unit Unit Unit Unit) := begin ++ [.wait () ()] ++ switches 4

/-- `false` is woken, and resumed once more while it is on the run queue. -/
def woken : List (Action Bool Unit Unit Unit Unit) :=
  waiting ++ [.signal () (), .wake () (), .resume false ()]

/-- `false` waits at a poll slot, and `true` runs. -/
def polling : List (Action Bool Unit Unit Unit Unit) := begin ++ [.block () ()] ++ switches 3

/-- The poller takes `false` from its slot. -/
def bulk : List (Action Bool Unit Unit Unit Unit) :=
  [.unblock (), .prepareBulkPush, .bulkPush (.kThread ()), .pushChain]

/-- The state after a run. -/
def after (as : List (Action Bool Unit Unit Unit Unit))
    (h : ((machine lists single : Single).run (initial, fun _ => []) as).isSome) :
    Ctl Bool Unit Unit Unit Unit × Lists Bool Unit Unit Unit :=
  ((machine lists single : Single).run (initial, fun _ => []) as).get h

theorem reachable_after {as : List (Action Bool Unit Unit Unit Unit)}
    (h : ((machine lists single : Single).run (initial, fun _ => []) as).isSome) :
    (machine lists single : Single).Reachable (after as h) :=
  Machine.Reachable.get (.of_init rfl) as h

/-- **`state` is wrong**, and `resume()` not idempotent.

* A uThread that yields, when there is nothing else to run, goes on in state YIELD. A `resume()`
  puts it on the run queue while it is executing.
* So it is with `initUT`, which begins in state INITIALIZED.
* A uThread that the poller pushes is on the run queue in state WAITING. A `resume()` puts it there
  again.
* A `resume()` of a uThread in a blocking queue leaves it there, in state READY and on the run
  queue. -/
theorem states_wrong :
    (∃ s s', (machine lists single : Single).Reachable s ∧ Executing s.1 true ∧
      (s.1.ut true).state = .yield ∧
      step lists single s (.resume true ()) = some s' ∧ Executing s'.1 true ∧
      OnRunQueue s'.2 true) ∧
    (∃ s s', (machine lists single : Single).Reachable s ∧ Executing s.1 false ∧
      (s.1.ut false).state = .initialized ∧
      step lists single s (.resume false ()) = some s' ∧ Executing s'.1 false ∧
      OnRunQueue s'.2 false) ∧
    (∃ s s', (machine lists single : Single).Reachable s ∧ OnRunQueue s.2 false ∧
      (s.1.ut false).state = .waiting ∧
      step lists single s (.resume false ()) = some s' ∧ s'.2 (.runQueue ()) = [false, false]) ∧
    (∃ s, (machine lists single : Single).Reachable s ∧ Parked s.1 s.2 false ∧
      OnRunQueue s.2 false ∧ (s.1.ut false).state = .ready) := by
  refine ⟨⟨after (waiting ++ [.yield ()] ++ switches 1) (by decide +kernel),
      after (waiting ++ [.yield ()] ++ switches 1 ++ [.resume true ()]) (by decide +kernel),
      reachable_after _, ?_⟩,
    ⟨after (begin.take 2) (by decide +kernel), after (begin.take 2 ++ [.resume false ()])
      (by decide +kernel), reachable_after _, ?_⟩,
    ⟨after (polling ++ bulk) (by decide +kernel), after (polling ++ bulk ++ [.resume false ()])
      (by decide +kernel), reachable_after _, ?_⟩,
    ⟨after (waiting ++ [.resume false ()]) (by decide +kernel), reachable_after _, ?_⟩⟩
  · exact ⟨⟨(), by decide +kernel⟩, by decide +kernel, rfl, ⟨(), by decide +kernel⟩,
      .inl ⟨(), by decide +kernel⟩⟩
  · exact ⟨⟨(), by decide +kernel⟩, by decide +kernel, rfl, ⟨(), by decide +kernel⟩,
      .inl ⟨(), by decide +kernel⟩⟩
  · exact ⟨.inl ⟨(), by decide +kernel⟩, by decide +kernel, rfl, by decide +kernel⟩
  · exact ⟨.inl ⟨(), by decide +kernel⟩, .inl ⟨(), by decide +kernel⟩, by decide +kernel⟩

/-! ## The other runs -/

/-- **`state` is right**, and a public `resume()` of a uThread that is executing or on a run queue
changes nothing, from the first context switch of `initUT` on. -/
theorem states_right {s : Ctl U K C B D × Lists U K C B}
    (h : (machine lists cfg).ReachableBy (Truthful cfg) s) (hfirst : s.1.switched = true) (u : U) :
    (Executing s.1 u → (s.1.ut u).state = .running) ∧
      (OnRunQueue s.2 u → (s.1.ut u).state = .ready) ∧
      (Parked s.1 s.2 u → (s.1.ut u).state = .waiting) ∧
      (Executing s.1 u ∨ OnRunQueue s.2 u →
        ∀ home, step lists cfg s (.resume u home) = some s) := by
  have hinv := inv_of_truthful h
  have hi : ¬s.1.unswitched u := by
    rintro ⟨-, hs⟩
    rw [hfirst] at hs
    cases hs
  refine ⟨fun hu => (hinv.executing hu).resolve_right hi, hinv.onRunQueue, hinv.parked,
    fun hu home => ?_⟩
  have hr := hinv.not_resumable hu hi
  have hlife := hinv.not_absent hu
  simp [step, plan, resume, hr, hlife, Ctl.call, lists, Lists.exec]

theorem states_right_woken : ∃ s, (machine lists single : Single).ReachableBy (Truthful single) s ∧
    Executing s.1 true ∧ (s.1.ut true).state = .running ∧ OnRunQueue s.2 false ∧
    (s.1.ut false).state = .ready ∧ step lists single s (.resume false ()) = some s := by
  obtain ⟨s, hs⟩ : ∃ s, s = ((machine lists single : Single).runBy (Truthful single)
    (initial, fun _ => []) woken).get (by decide +kernel) := ⟨_, rfl⟩
  have h : (machine lists single : Single).ReachableBy (Truthful single) s :=
    hs ▸ Machine.ReachableBy.get (.init rfl) woken (by decide +kernel)
  have hfirst : s.1.switched = true := hs ▸ by decide +kernel
  have hrun : Executing s.1 true := hs ▸ ⟨(), by decide +kernel⟩
  have hqueue : OnRunQueue s.2 false := hs ▸ .inl ⟨(), by decide +kernel⟩
  exact ⟨s, h, hrun, (states_right h hfirst true).1 hrun, hqueue,
    (states_right h hfirst false).2.1 hqueue, (states_right h hfirst false).2.2.2 (.inr hqueue) ()⟩

end UThreads.Handover
