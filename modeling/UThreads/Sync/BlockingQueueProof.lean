import UThreads.Sync.BlockingQueue
import UThreads.Sync.MutexClient

/-!
# `BlockingQueue` with a `Mutex`: who is where

`Inv` says where the suspended uThreads are: on the queue, or taken off it and in the hands of one
waker, who has still to resume them. It rests on the mutex: the positions that touch the queue are
those of a uThread that is inside. `RunStep` says what a step of a uThread does in a state that
satisfies it.

Main results: `inv_reachable`, and for the history `Logged` and `Called`.
-/

namespace UThreads.BlockingQueue

open Mutex (Status)

variable {K U : Type*}

/-- What the mutex says of a uThread at this position. -/
def Pc.Agrees : Pc U → Status → Prop
  | .out, x | .ready, x | .sigResume _, x => x = .out
  | .acquiring, x => x ≠ .out ∧ x ≠ .releasing
  | .parked, x | .sigReleasing _, x | .releasing, x => x = .releasing ∨ x = .out
  | _, x => x = .inside

/-- The positions of a uThread that has the mutex. -/
def Pc.holds : Pc U → Bool
  | .out | .acquiring | .parked | .ready | .sigReleasing _ | .sigResume _ | .releasing => false
  | _ => true

theorem Pc.Agrees.inside {p : Pc U} {x : Status} (h : p.Agrees x) (hp : p.holds = true) :
    x = .inside := by
  cases p <;> first | exact h | cases hp

theorem Pc.Agrees.moves {p : Pc U} {x y : Status} (h : p.Agrees x) (hm : Status.Moves x y) :
    p.Agrees y := by
  cases hm with
  | same => exact h
  | leave =>
    cases p with
    | parked | sigReleasing w | releasing => exact .inr rfl
    | acquiring => exact absurd rfl h.2
    | _ => cases h
  | _ =>
    cases p with
    | acquiring => exact ⟨nofun, nofun⟩
    | parked | sigReleasing w | releasing => rcases h with h | h <;> cases h
    | _ => cases h

/-- Queued, or taken off the queue and not resumed. -/
def Pc.queued : Pc U → Bool
  | .hookRelease | .parked => true
  | _ => false

/-- The uThread that was taken off the queue and is still to be resumed. -/
def Pc.handing : Pc U → Option U
  | .sigRelease w | .sigReleasing w | .sigResume w | .allResume w => some w
  | _ => none

/-- What a position says of the queue. -/
def View (bq : List U) (u : U) : Pc U → Prop
  | .hookRelease => u ∈ bq
  | .sigFront => bq ≠ []
  | .sigPop w => bq.head? = some w
  | .allRemove ut => ut = bq.head?
  | .sigFalse => bq = []
  | _ => True

theorem View.of_not_holds {bq : List U} {u : U} {p : Pc U} (hp : p.holds = false) :
    View bq u p := by
  cases p <;> trivial

variable [DecidableEq K] [DecidableEq U]

structure Inv (s : State K U) : Prop where
  mutex : (Mutex.machine K U).Reachable s.mutex
  agrees : ∀ u, (s.pc u).Agrees (s.mutex.status u)
  view : ∀ u, View s.bq u (s.pc u)
  queued : ∀ u ∈ s.bq, (s.pc u).queued = true
  nodup : s.bq.Nodup
  /-- A suspended uThread is queued, or in the hands of a waker. -/
  waits : ∀ u, s.pc u = .parked → u ∈ s.bq ∨ ∃ v, (s.pc v).handing = some u
  handed : ∀ v w, (s.pc v).handing = some w → s.pc w = .parked ∧ s.mutex.status w = .out ∧ w ∉ s.bq
  handed_inj : ∀ v v' w, (s.pc v).handing = some w → (s.pc v').handing = some w → v = v'

section Steps

variable {s s' : State K U} {k : K} {u : U}

/-- **At most one uThread has the mutex.** -/
theorem Inv.holds_inj (h : Inv s) {v : U} (hu : (s.pc u).holds = true)
    (hv : (s.pc v).holds = true) : u = v :=
  Mutex.inside_inj h.mutex ((h.agrees u).inside hu) ((h.agrees v).inside hv)

theorem Inv.owner (h : Inv s) (hu : (s.pc u).holds = true) : s.mutex.owner = some u :=
  (Mutex.inv_reachable h.mutex).owns u (.inl ((h.agrees u).inside hu))

theorem Inv.not_holds (h : Inv s) {v : U} (hu : (s.pc u).holds = true) (hv : v ≠ u) :
    (s.pc v).holds = false := by
  rw [← Bool.not_eq_true]
  intro hholds
  exact hv (h.holds_inj hholds hu)

/-- While somebody has the mutex, the queued uThreads have released it. -/
theorem Inv.out_of_queued (h : Inv s) {w : U} (hu : (s.pc u).holds = true) (hne : w ≠ u)
    (hw : w ∈ s.bq) : s.pc w = .parked ∧ s.mutex.status w = .out := by
  have hnot := h.not_holds hu hne
  have hq := h.queued w hw
  have hag := h.agrees w
  cases hp : s.pc w <;> rw [hp] at hnot hq hag <;> cases hq
  case hookRelease => cases hnot
  case parked =>
    refine ⟨rfl, hag.resolve_left fun hrel => ?_⟩
    exact Mutex.not_inside_of_releasing h.mutex hrel ((h.agrees u).inside hu)

/-- A uThread at any other position is not on the queue. -/
theorem Inv.not_mem (h : Inv s) {x : Pc U} (hx : s.pc u = x) (hq : x.queued = false) :
    u ∉ s.bq := by
  intro hmem
  rw [← hx, h.queued u hmem] at hq
  cases hq

/-- **Only `u` moves**, with its status, and the queue stays. -/
theorem Inv.move (h : Inv s) {y : Pc U} (hpc : s'.pc = Function.update s.pc u y)
    (hbq : s'.bq = s.bq) (hm : (Mutex.machine K U).Reachable s'.mutex)
    (hst : ∀ v, v ≠ u → s'.mutex.status v = s.mutex.status v) (hy : y.Agrees (s'.mutex.status u))
    (hview : View s.bq u y) (hu : s.pc u ≠ .parked) (hqueued : u ∈ s.bq → y.queued = true)
    (hwaits : y = .parked → u ∈ s.bq) (hhand : y.handing = (s.pc u).handing) : Inv s' := by
  have hself : s'.pc u = y := by rw [hpc, Function.update_self]
  have hother : ∀ v, v ≠ u → s'.pc v = s.pc v := by
    intro v hv
    rw [hpc, Function.update_of_ne hv]
  have hhand' : ∀ v, (s'.pc v).handing = (s.pc v).handing := by
    intro v
    by_cases hv : v = u
    · rw [hv, hself, hhand]
    · rw [hother v hv]
  refine ⟨hm, ?_, ?_, ?_, ?_, ?_, ?_, ?_⟩
  · intro v
    by_cases hv : v = u
    · rw [hv, hself]
      exact hy
    · rw [hother v hv, hst v hv]
      exact h.agrees v
  · intro v
    rw [hbq]
    by_cases hv : v = u
    · rw [hv, hself]
      exact hview
    · rw [hother v hv]
      exact h.view v
  · intro v hv
    rw [hbq] at hv
    by_cases hvu : v = u
    · rw [hvu, hself]
      exact hqueued (hvu ▸ hv)
    · rw [hother v hvu]
      exact h.queued v hv
  · rw [hbq]
    exact h.nodup
  · intro v hv
    rw [hbq]
    by_cases hvu : v = u
    · rw [hvu, hself] at hv
      exact .inl (hvu ▸ hwaits hv)
    · rw [hother v hvu] at hv
      refine (h.waits v hv).imp id ?_
      rintro ⟨v', hv'⟩
      exact ⟨v', by rw [hhand' v']; exact hv'⟩
  · intro v w hw
    rw [hhand' v] at hw
    obtain ⟨hpark, hout, hnot⟩ := h.handed v w hw
    have hne : w ≠ u := by
      rintro rfl
      exact hu hpark
    rw [hother w hne, hst w hne, hbq]
    exact ⟨hpark, hout, hnot⟩
  · intro v v' w hv hv'
    rw [hhand' v] at hv
    rw [hhand' v'] at hv'
    exact h.handed_inj v v' w hv hv'

/-- A step of the mutex. -/
theorem Inv.mutexStep (h : Inv s) {m : Mutex.State K U} (hm : (Mutex.machine K U).Reachable m)
    (hmoves : ∀ v, Status.Moves (s.mutex.status v) (m.status v)) : Inv { s with mutex := m } := by
  refine { h with mutex := hm, agrees := fun v => (h.agrees v).moves (hmoves v), handed := ?_ }
  intro v w hw
  obtain ⟨hpark, hout, hnot⟩ := h.handed v w hw
  refine ⟨hpark, ?_, hnot⟩
  have hmw := hmoves w
  rw [hout] at hmw
  show m.status w = .out
  generalize m.status w = y at hmw
  cases hmw
  rfl

/-- `postSwitchFunc` queues its uThread. -/
theorem Inv.push (h : Inv s) (hu : s.pc u = .hookPush)
    (hpc : s'.pc = Function.update s.pc u .hookRelease)
    (hbq : s'.bq = s.bq ++ [u]) (hm : s'.mutex = s.mutex) : Inv s' := by
  have hself : s'.pc u = .hookRelease := by rw [hpc, Function.update_self]
  have hother : ∀ v, v ≠ u → s'.pc v = s.pc v := by
    intro v hv
    rw [hpc, Function.update_of_ne hv]
  have hnot := h.not_mem hu rfl
  have hhand' : ∀ v, (s'.pc v).handing = (s.pc v).handing := by
    intro v
    by_cases hv : v = u
    · rw [hv, hself, hu]
      rfl
    · rw [hother v hv]
  refine ⟨hm ▸ h.mutex, ?_, ?_, ?_, ?_, ?_, ?_, ?_⟩
  · intro v
    rw [hm]
    by_cases hv : v = u
    · have hag := h.agrees u
      rw [hu] at hag
      rw [hv, hself]
      exact hag
    · rw [hother v hv]
      exact h.agrees v
  · intro v
    by_cases hv : v = u
    · rw [hv, hself, hbq]
      exact List.mem_append_right _ (List.mem_singleton_self u)
    · rw [hother v hv]
      exact .of_not_holds (h.not_holds (by rw [hu]; rfl) hv)
  · intro v hv
    rw [hbq, List.mem_append, List.mem_singleton] at hv
    by_cases hvu : v = u
    · rw [hvu, hself]
      rfl
    · rw [hother v hvu]
      exact h.queued v (hv.resolve_right hvu)
  · rw [hbq, ← List.concat_eq_append]
    exact h.nodup.concat hnot
  · intro v hv
    have hvu : v ≠ u := by
      rintro rfl
      rw [hself] at hv
      cases hv
    rw [hother v hvu] at hv
    rw [hbq]
    refine (h.waits v hv).imp (List.mem_append_left _) ?_
    rintro ⟨v', hv'⟩
    exact ⟨v', by rw [hhand' v']; exact hv'⟩
  · intro v w hw
    rw [hhand' v] at hw
    obtain ⟨hpark, hout, hmem⟩ := h.handed v w hw
    have hne : w ≠ u := by
      rintro rfl
      rw [hu] at hpark
      cases hpark
    rw [hother w hne, hm, hbq]
    refine ⟨hpark, hout, fun hw => ?_⟩
    rcases List.mem_append.mp hw with hw | hw
    · exact hmem hw
    · exact hne (List.mem_singleton.mp hw)
  · intro v v' w hv hv'
    rw [hhand' v] at hv
    rw [hhand' v'] at hv'
    exact h.handed_inj v v' w hv hv'

/-- A waker takes the first uThread off the queue. -/
theorem Inv.take (h : Inv s) {w : U} {l : List U} {y : Pc U} (hu : (s.pc u).holds = true)
    (hq : (s.pc u).queued = false) (hhand : (s.pc u).handing = none) (hbq : s.bq = w :: l)
    (hy : y = .sigRelease w ∨ y = .allResume w) : Inv (s.take u w l y) := by
  have hmem : w ∈ s.bq := by
    rw [hbq]
    exact List.mem_cons_self
  have hwl : w ∉ l ∧ l.Nodup := by
    rw [← List.nodup_cons, ← hbq]
    exact h.nodup
  have hsub : ∀ v, v ∈ l → v ∈ s.bq := by
    intro v hv
    rw [hbq]
    exact List.mem_cons_of_mem w hv
  have hne : ∀ v ∈ s.bq, v ≠ u := by
    rintro v hv rfl
    rw [h.queued v hv] at hq
    cases hq
  have hself : (s.take u w l y).pc u = y := Function.update_self ..
  have hother : ∀ v, v ≠ u → (s.take u w l y).pc v = s.pc v :=
    fun v hv => Function.update_of_ne hv ..
  have hyw : y.handing = some w := by rcases hy with rfl | rfl <;> rfl
  -- `w` was on the queue, so it was in nobody's hands.
  have hnone : ∀ v, (s.pc v).handing ≠ some w := fun v hv => (h.handed v w hv).2.2 hmem
  refine ⟨h.mutex, ?_, ?_, ?_, hwl.2, ?_, ?_, ?_⟩
  · intro v
    by_cases hv : v = u
    · rw [hv, hself]
      have hin : s.mutex.status u = .inside := (h.agrees u).inside hu
      rcases hy with rfl | rfl <;> exact hin
    · rw [hother v hv]
      exact h.agrees v
  · intro v
    by_cases hv : v = u
    · rw [hv, hself]
      rcases hy with rfl | rfl <;> trivial
    · rw [hother v hv]
      exact .of_not_holds (h.not_holds hu hv)
  · intro v hv
    rw [hother v (hne v (hsub v hv))]
    exact h.queued v (hsub v hv)
  · intro v hv
    have hvu : v ≠ u := by
      rintro rfl
      rw [hself] at hv
      rcases hy with rfl | rfl <;> cases hv
    rw [hother v hvu] at hv
    rcases h.waits v hv with hv | ⟨v', hv'⟩
    · rw [hbq] at hv
      rcases List.mem_cons.mp hv with rfl | hv
      · exact .inr ⟨u, by rw [hself, hyw]⟩
      · exact .inl hv
    · refine .inr ⟨v', ?_⟩
      rw [hother]
      · exact hv'
      · rintro rfl
        rw [hhand] at hv'
        cases hv'
  · intro v x hx
    by_cases hv : v = u
    · rw [hv, hself, hyw] at hx
      obtain rfl := Option.some.inj hx
      obtain ⟨hpark, hout⟩ := h.out_of_queued hu (hne w hmem) hmem
      rw [hother w (hne w hmem)]
      exact ⟨hpark, hout, hwl.1⟩
    · rw [hother v hv] at hx
      obtain ⟨hpark, hout, hnot⟩ := h.handed v x hx
      have hxu : x ≠ u := by
        rintro rfl
        rw [hpark] at hq
        cases hq
      rw [hother x hxu]
      exact ⟨hpark, hout, fun hxl => hnot (hsub x hxl)⟩
  · intro v v' x hx hx'
    by_cases hv : v = u <;> by_cases hv' : v' = u
    · rw [hv, hv']
    · rw [hv, hself, hyw] at hx
      rw [hother v' hv'] at hx'
      exact absurd (hx'.trans hx.symm) (hnone v')
    · rw [hv', hself, hyw] at hx'
      rw [hother v hv] at hx
      exact absurd (hx.trans hx'.symm) (hnone v)
    · rw [hother v hv] at hx
      rw [hother v' hv'] at hx'
      exact h.handed_inj v v' x hx hx'

omit [DecidableEq K] in
theorem State.resume_of_parked {w : U} (hw : s.pc w = .parked) :
    s.resume w =
      { s with resumes := Function.update s.resumes w (s.resumes w + 1) }.goto w .ready := by
  rw [State.resume, if_pos]
  show (s.pc w).suspended = true
  rw [hw]
  rfl

/-- A waker resumes the uThread in its hands. -/
theorem Inv.resume (h : Inv s) {w : U} {y : Pc U} (hw : (s.pc u).handing = some w)
    (hy : y = .out ∨ y = .allFront) (hag : y.Agrees (s.mutex.status u)) :
    Inv ((s.resume w).goto u y) := by
  obtain ⟨hpark, hout, hnot⟩ := h.handed u w hw
  have hwu : w ≠ u := by
    rintro rfl
    rw [hpark] at hw
    cases hw
  rw [State.resume_of_parked hpark]
  have hself : Function.update (Function.update s.pc w .ready) u y u = y := Function.update_self ..
  have hw' : Function.update (Function.update s.pc w .ready) u y w = .ready := by
    rw [Function.update_of_ne hwu, Function.update_self]
  have hother : ∀ v, v ≠ u → v ≠ w → Function.update (Function.update s.pc w .ready) u y v =
      s.pc v := by
    intro v hvu hvw
    rw [Function.update_of_ne hvu, Function.update_of_ne hvw]
  have hyn : y.handing = none := by rcases hy with rfl | rfl <;> rfl
  -- The others have the same in their hands as before.
  have hhand : ∀ v x, (Function.update (Function.update s.pc w .ready) u y v).handing = some x →
      (s.pc v).handing = some x ∧ v ≠ u ∧ x ≠ w := by
    intro v x hx
    by_cases hvu : v = u
    · rw [hvu, hself, hyn] at hx
      cases hx
    by_cases hvw : v = w
    · rw [hvw, hw'] at hx
      cases hx
    rw [hother v hvu hvw] at hx
    refine ⟨hx, hvu, ?_⟩
    rintro rfl
    exact hvu (h.handed_inj v u x hx hw)
  have hq : (s.pc u).queued = false := by
    cases hp : s.pc u <;> rw [hp] at hw <;> first | rfl | cases hw
  refine ⟨h.mutex, ?_, ?_, ?_, h.nodup, ?_, ?_, ?_⟩
  · intro v
    show Pc.Agrees (Function.update (Function.update s.pc w .ready) u y v) (s.mutex.status v)
    by_cases hvu : v = u
    · rw [hvu, hself]
      exact hag
    by_cases hvw : v = w
    · rw [hvw, hw']
      exact hout
    rw [hother v hvu hvw]
    exact h.agrees v
  · intro v
    show View s.bq v (Function.update (Function.update s.pc w .ready) u y v)
    by_cases hvu : v = u
    · rw [hvu, hself]
      rcases hy with rfl | rfl <;> trivial
    by_cases hvw : v = w
    · rw [hvw, hw']
      trivial
    rw [hother v hvu hvw]
    exact h.view v
  · intro v hv
    show (Function.update (Function.update s.pc w .ready) u y v).queued = true
    rw [hother v]
    · exact h.queued v hv
    · rintro rfl
      rw [h.queued v hv] at hq
      cases hq
    · rintro rfl
      exact hnot hv
  · intro v hv
    replace hv : Function.update (Function.update s.pc w .ready) u y v = .parked := hv
    have hvu : v ≠ u := by
      rintro rfl
      rw [hself] at hv
      rcases hy with rfl | rfl <;> cases hv
    have hvw : v ≠ w := by
      rintro rfl
      rw [hw'] at hv
      cases hv
    rw [hother v hvu hvw] at hv
    refine (h.waits v hv).imp id ?_
    rintro ⟨v', hv'⟩
    refine ⟨v', ?_⟩
    show (Function.update (Function.update s.pc w .ready) u y v').handing = some v
    rw [hother v']
    · exact hv'
    · rintro rfl
      exact hvw (Option.some.inj (hv'.symm.trans hw))
    · rintro rfl
      rw [hpark] at hv'
      cases hv'
  · intro v x hx
    obtain ⟨hx, -, hxw⟩ := hhand v x hx
    obtain ⟨hpx, hox, hnx⟩ := h.handed v x hx
    have hxu : x ≠ u := by
      rintro rfl
      rw [hpx] at hq
      cases hq
    refine ⟨?_, hox, hnx⟩
    show Function.update (Function.update s.pc w .ready) u y x = .parked
    rw [hother x hxu hxw]
    exact hpx
  · intro v v' x hx hx'
    exact h.handed_inj v v' x (hhand v x hx).1 (hhand v' x hx').1

/-! ## What a step does -/

/-- The steps of `u` that change nothing but its position. -/
inductive Local (s : State K U) (u : U) : Pc U → Pc U → Prop
  | acquired : s.mutex.status u = .inside → Local s u .acquiring .inside
  | empty : s.bq = [] → Local s u .sigTest .sigFalse
  | nonempty : s.bq ≠ [] → Local s u .sigTest .sigFront
  | front {w : U} : s.bq.head? = some w → Local s u .sigFront (.sigPop w)
  | released {w : U} : s.mutex.status u = .out → Local s u (.sigReleasing w) (.sigResume w)
  | allFront : Local s u .allFront (.allRemove s.bq.head?)
  | fence : Local s u (.allRemove none) .release
  | leave : s.mutex.status u = .out → Local s u .releasing .out

/-- The calls of `mutex.release()`, and where the caller comes to. -/
inductive Pc.Releases : Pc U → Pc U → Prop
  | hook : Releases .hookRelease .parked
  | signal {w : U} : Releases (.sigRelease w) (.sigReleasing w)
  | call : Releases .release .releasing

/-- The steps that take `w` off the queue. -/
inductive Pc.Takes (w : U) : Pc U → Pc U → Prop
  | pop : Takes w (.sigPop w) (.sigRelease w)
  | remove : Takes w (.allRemove (some w)) (.allResume w)

/-- The calls of `w->resume()`. -/
inductive Pc.Resumes (w : U) : Pc U → Pc U → Prop
  | signal : Resumes w (.sigResume w) .out
  | signalAll : Resumes w (.allResume w) .allFront

/-- What a step of `u` on kThread `k` does. -/
inductive RunStep (k : K) (u : U) (s : State K U) : State K U → Prop
  | goto {x y : Pc U} : s.pc u = x → Local s u x y → RunStep k u s (s.goto u y)
  | suspend : s.pc u = .suspend → RunStep k u s ({ s with
      suspensions := Function.update s.suspensions u (s.suspensions u + 1) }.goto u .hookPush)
  | push : s.pc u = .hookPush →
      RunStep k u s ({ s with bq := s.bq ++ [u], parks := s.parks ++ [u] }.goto u .hookRelease)
  | release {x y : Pc U} {m : Mutex.State K U} : s.pc u = x → x.Releases y →
      Mutex.step s.mutex (.release k u) = some m → RunStep k u s ({ s with
        mutex := m
        releases := Function.update s.releases u (s.releases u + 1) }.goto u y)
  | take {w : U} {x y : Pc U} {l : List U} : s.pc u = x → x.Takes w y → s.bq = w :: l →
      RunStep k u s (s.take u w l y)
  | resume {w : U} {x y : Pc U} : s.pc u = x → x.Resumes w y → s.pc w = .parked →
      RunStep k u s (({ s with
        resumes := Function.update s.resumes w (s.resumes w + 1) }.goto w .ready).goto u y)

theorem State.release_step {x y : Pc U} (hx : s.pc u = x) (hy : x.Releases y)
    (hs : s.release k u y = some s') : RunStep k u s s' := by
  obtain ⟨m, hm, rfl⟩ := Option.map_eq_some_iff.mp hs
  exact .release hx hy hm

theorem run_step (h : Inv s) (hs : run k u s = some s') : RunStep k u s s' := by
  have hview := h.view u
  have hhand := h.handed u
  unfold run at hs
  cases hu : s.pc u with
  | out | inside | parked | ready | sigFalse => simp [hu] at hs
  | acquiring =>
    simp only [hu] at hs
    split_ifs at hs with hin
    cases hs
    exact .goto hu (.acquired hin)
  | suspend =>
    simp only [hu] at hs
    cases hs
    exact .suspend hu
  | hookPush =>
    simp only [hu] at hs
    cases hs
    exact .push hu
  | hookRelease =>
    simp only [hu] at hs
    exact State.release_step hu .hook hs
  | sigTest =>
    simp only [hu] at hs
    cases hs
    split_ifs with hbq
    · exact .goto hu (.empty hbq)
    · exact .goto hu (.nonempty hbq)
  | sigFront =>
    simp only [hu] at hs
    obtain ⟨w, hw, rfl⟩ := Option.map_eq_some_iff.mp hs
    exact .goto hu (.front hw)
  | sigPop w =>
    rw [hu] at hview
    obtain ⟨l, hl⟩ := List.head?_eq_some_iff.mp hview
    simp only [hu, hl, List.tail_cons] at hs
    cases hs
    exact .take hu .pop hl
  | sigRelease w =>
    simp only [hu] at hs
    exact State.release_step hu .signal hs
  | sigReleasing w =>
    simp only [hu] at hs
    split_ifs at hs with hout
    cases hs
    exact .goto hu (.released hout)
  | sigResume w =>
    simp only [hu] at hs
    cases hs
    have hw := (hhand w (by rw [hu]; rfl)).1
    rw [State.resume_of_parked hw]
    exact .resume hu .signal hw
  | allFront =>
    simp only [hu] at hs
    cases hs
    exact .goto hu .allFront
  | allRemove ut =>
    cases ut with
    | none =>
      simp only [hu] at hs
      cases hs
      exact .goto hu .fence
    | some w =>
      rw [hu] at hview
      obtain ⟨l, hl⟩ := List.head?_eq_some_iff.mp hview.symm
      simp only [hu, hl, List.erase_cons_head] at hs
      cases hs
      exact .take hu .remove hl
  | allResume w =>
    simp only [hu] at hs
    cases hs
    have hw := (hhand w (by rw [hu]; rfl)).1
    rw [State.resume_of_parked hw]
    exact .resume hu .signalAll hw
  | release =>
    simp only [hu] at hs
    exact State.release_step hu .call hs
  | releasing =>
    simp only [hu] at hs
    split_ifs at hs with hout
    cases hs
    exact .goto hu (.leave hout)

/-- What a step does. -/
inductive Step (s : State K U) : Action K U → State K U → Prop
  | acquire {k : K} {u : U} {m : Mutex.State K U} : s.pc u = .out →
      Mutex.step s.mutex (.acquire k u) = some m →
      Step s (.acquire k u) ({ s with
        mutex := m
        acquires := Function.update s.acquires u (s.acquires u + 1) }.goto u .acquiring)
  | suspend {u : U} : s.pc u = .inside → Step s (.suspend u) (s.goto u .suspend)
  | signal {u : U} : s.pc u = .inside → Step s (.signal u) (s.enter u false .sigTest)
  | signalAll {u : U} : s.pc u = .inside → Step s (.signalAll u) (s.enter u true .allFront)
  | release {u : U} : s.pc u = .inside ∨ s.pc u = .sigFalse →
      Step s (.release u) (s.goto u .release)
  | run {k : K} {u : U} {s' : State K U} : RunStep k u s s' → Step s (.run k u) s'
  | mutex {k : K} {m : Mutex.State K U} : Mutex.step s.mutex (.run k) = some m →
      Step s (.mutex k) { s with mutex := m }
  | dispatch {u : U} : s.pc u = .ready → Step s (.dispatch u) (s.goto u .out)
  | switch {u : U} {m : Mutex.State K U} : s.pc u ≠ .ready →
      Mutex.step s.mutex (.dispatch u) = some m → Step s (.dispatch u) { s with mutex := m }

theorem step_cases (h : Inv s) {a : Action K U} (hs : step s a = some s') : Step s a s' := by
  cases a with
  | acquire k u =>
    simp only [step] at hs
    split_ifs at hs with hu
    obtain ⟨m, hm, rfl⟩ := Option.map_eq_some_iff.mp hs
    exact .acquire hu hm
  | suspend u =>
    simp only [step] at hs
    split_ifs at hs with hu
    cases hs
    exact .suspend hu
  | signal u =>
    simp only [step] at hs
    split_ifs at hs with hu
    cases hs
    exact .signal hu
  | signalAll u =>
    simp only [step] at hs
    split_ifs at hs with hu
    cases hs
    exact .signalAll hu
  | release u =>
    simp only [step] at hs
    split_ifs at hs with hu
    cases hs
    exact .release hu
  | run k u => exact .run (run_step h hs)
  | mutex k =>
    obtain ⟨m, hm, rfl⟩ := Option.map_eq_some_iff.mp hs
    exact .mutex hm
  | dispatch u =>
    simp only [step] at hs
    split_ifs at hs with hu
    · cases hs
      exact .dispatch hu
    · obtain ⟨m, hm, rfl⟩ := Option.map_eq_some_iff.mp hs
      exact .switch hu hm

/-- `u` moves and nothing else changes. -/
theorem Inv.goto (h : Inv s) {x y : Pc U} (hx : s.pc u = x) (hag : y.Agrees (s.mutex.status u))
    (hview : View s.bq u y) (hxq : x.queued = false) (hyq : y.queued = false)
    (hhand : y.handing = x.handing) : Inv (s.goto u y) := by
  refine h.move rfl rfl h.mutex (fun v _ => rfl) hag hview ?_ (fun hmem => ?_) ?_ (hx ▸ hhand)
  · rintro hpark
    rw [← hx, hpark] at hxq
    cases hxq
  · exact absurd hmem (h.not_mem hx hxq)
  · rintro rfl
    cases hyq

theorem inv_run (h : Inv s) (hs : RunStep k u s s') : Inv s' := by
  have hag := h.agrees u
  have hview := h.view u
  cases hs with
  | @goto x y hx hl =>
    rw [hx] at hag
    cases hl with
    | acquired hin => exact h.goto hx hin trivial rfl rfl rfl
    | empty hbq => exact h.goto hx hag hbq rfl rfl rfl
    | nonempty hbq => exact h.goto hx hag hbq rfl rfl rfl
    | front hw => exact h.goto hx hag hw rfl rfl rfl
    | released hout => exact h.goto hx hout trivial rfl rfl rfl
    | allFront => exact h.goto hx hag rfl rfl rfl rfl
    | fence => exact h.goto hx hag trivial rfl rfl rfl
    | leave hout => exact h.goto hx hout trivial rfl rfl rfl
  | suspend hu =>
    rw [hu] at hag
    have hgo : Inv (s.goto u .hookPush) := h.goto hu hag trivial rfl rfl rfl
    exact { hgo with }
  | push hu => exact h.push hu rfl rfl rfl
  | @release x y m hx hr hm =>
    rw [hx] at hview
    obtain ⟨hin, hst⟩ := Mutex.status_release hm
    have hrel : m.status u = .releasing := by rw [hst, Function.update_self]
    refine h.move rfl rfl (Mutex.reachable_step h.mutex hm) (fun v hv => ?_) ?_ ?_ ?_ ?_ ?_ ?_
    · show m.status v = _
      rw [hst, Function.update_of_ne hv]
    · cases hr <;> exact .inl hrel
    · cases hr <;> trivial
    · rw [hx]
      cases hr <;> exact nofun
    · intro hmem
      have hq := h.queued u hmem
      rw [hx] at hq
      cases hr <;> first | rfl | cases hq
    · rintro rfl
      cases hr
      exact hview
    · rw [hx]
      cases hr <;> rfl
  | @take w x y l hx ht hl =>
    cases ht with
    | pop => exact h.take (by rw [hx]; rfl) (by rw [hx]; rfl) (by rw [hx]; rfl) hl (.inl rfl)
    | remove => exact h.take (by rw [hx]; rfl) (by rw [hx]; rfl) (by rw [hx]; rfl) hl (.inr rfl)
  | @resume w x y hx hr hw =>
    rw [← State.resume_of_parked hw]
    rw [hx] at hag
    cases hr with
    | signal => exact h.resume (by rw [hx]; rfl) (.inl rfl) hag
    | signalAll => exact h.resume (by rw [hx]; rfl) (.inr rfl) hag

theorem inv_step (h : Inv s) {a : Action K U} (hs : step s a = some s') : Inv s' := by
  cases step_cases h hs with
  | @acquire k u m hu hm =>
    obtain ⟨-, hst⟩ := Mutex.status_acquire hm
    have hacq : m.status u = .acquiring := by rw [hst, Function.update_self]
    refine h.move rfl rfl (Mutex.reachable_step h.mutex hm) (fun v hv => ?_) ?_ trivial ?_
      (fun hmem => absurd hmem (h.not_mem hu rfl)) nofun ?_
    · show m.status v = _
      rw [hst, Function.update_of_ne hv]
    · show m.status u ≠ .out ∧ m.status u ≠ .releasing
      rw [hacq]
      exact ⟨nofun, nofun⟩
    · rw [hu]
      exact nofun
    · rw [hu]
      rfl
  | @suspend u hu | @signal u hu | @signalAll u hu =>
    have hag := h.agrees u
    rw [hu] at hag
    refine h.move rfl rfl h.mutex (fun v _ => rfl) hag trivial ?_
      (fun hmem => absurd hmem (h.not_mem hu rfl)) nofun ?_
    · rw [hu]
      exact nofun
    · rw [hu]
      rfl
  | @release u hu =>
    have hag := h.agrees u
    rcases hu with hu | hu <;> rw [hu] at hag <;> exact h.goto hu hag trivial rfl rfl rfl
  | run hr => exact inv_run h hr
  | mutex hm =>
    exact h.mutexStep (Mutex.reachable_step h.mutex hm)
      (Mutex.moves_run (Mutex.inv_reachable h.mutex) hm)
  | @dispatch u hu =>
    have hag := h.agrees u
    rw [hu] at hag
    exact h.goto hu hag trivial rfl rfl rfl
  | switch _ hm => exact h.mutexStep (Mutex.reachable_step h.mutex hm) (Mutex.moves_dispatch hm)

theorem inv_initial : Inv (initial : State K U) where
  mutex := .of_init rfl
  agrees := fun _ => rfl
  view := fun _ => trivial
  queued := nofun
  nodup := List.nodup_nil
  waits := nofun
  handed := nofun
  handed_inj := nofun

theorem inv_reachable (h : (machine K U).Reachable s) : Inv s := by
  refine Machine.Reachable.invariant (I := Inv) ?_ (fun _ _ _ hI hs => inv_step hI hs) h
  rintro s rfl
  exact inv_initial

theorem reachable_step (h : (machine K U).Reachable s) {a : Action K U} (hs : step s a = some s') :
    (machine K U).Reachable s' :=
  h.next (a := a) hs

/-! ## The history -/

/-- The uThreads are taken off the queue in the order in which they were queued. -/
def Logged (s : State K U) : Prop := s.parks = s.wakes.map Prod.snd ++ s.bq

theorem logged_step (h : Logged s) {a : Action K U} (hs : Step s a s') : Logged s' := by
  cases hs with
  | run hr =>
    cases hr with
    | @push hu =>
      show s.parks ++ [_] = s.wakes.map Prod.snd ++ (s.bq ++ [_])
      rw [← List.append_assoc, ← h]
    | @take w x y l hx ht hl =>
      show s.parks = (s.wakes ++ [_]).map Prod.snd ++ l
      rw [h, hl]
      simp
    | _ => exact h
  | _ => exact h

/-- A uThread that has called `mutex.acquire()` and has still to call `mutex.release()`. -/
def Pc.due : Pc U → Bool
  | .acquiring => true
  | p => p.holds

/-- `ups` counts how often a uThread came to positions with `f`, `downs` how often it left them. -/
def Balanced (f : Pc U → Bool) (pc : U → Pc U) (ups downs : U → ℕ) : Prop :=
  ∀ u, ups u = downs u + (f (pc u)).toNat

section Balanced

variable {f : Pc U → Bool} {pc : U → Pc U} {ups downs : U → ℕ} {y : Pc U}

omit [DecidableEq K]

theorem Balanced.goto (h : Balanced f pc ups downs) (hy : f y = f (pc u)) :
    Balanced f (Function.update pc u y) ups downs := by
  intro v
  by_cases hv : v = u
  · rw [hv, Function.update_self, hy]
    exact h u
  · rw [Function.update_of_ne hv]
    exact h v

theorem Balanced.up (h : Balanced f pc ups downs) (hu : f (pc u) = false) (hy : f y = true) :
    Balanced f (Function.update pc u y) (Function.update ups u (ups u + 1)) downs := by
  intro v
  have hv := h v
  by_cases hvu : v = u
  · rw [hvu, hu] at hv
    rw [hvu, Function.update_self, Function.update_self, hv, hy]
    rfl
  · rw [Function.update_of_ne hvu, Function.update_of_ne hvu]
    exact hv

theorem Balanced.down (h : Balanced f pc ups downs) (hu : f (pc u) = true) (hy : f y = false) :
    Balanced f (Function.update pc u y) ups (Function.update downs u (downs u + 1)) := by
  intro v
  have hv := h v
  by_cases hvu : v = u
  · rw [hvu, hu] at hv
    rw [hvu, Function.update_self, Function.update_self, hv, hy]
    rfl
  · rw [Function.update_of_ne hvu, Function.update_of_ne hvu]
    exact hv

end Balanced

omit [DecidableEq K] [DecidableEq U] in
/-- Nobody wakes itself. -/
theorem RunStep.resume_ne {w : U} {x y : Pc U} (hx : s.pc u = x) (hr : x.Resumes w y)
    (hw : s.pc w = .parked) : u ≠ w := by
  rintro rfl
  rw [hw] at hx
  subst hx
  cases hr

/-- Each suspension but the present one was followed by one call of `resume`. -/
theorem resumed_step (h : Balanced Pc.suspended s.pc s.suspensions s.resumes) {a : Action K U}
    (hs : Step s a s') : Balanced Pc.suspended s'.pc s'.suspensions s'.resumes := by
  cases hs with
  | acquire hu | suspend hu | signal hu | signalAll hu | dispatch hu =>
    exact h.goto (by rw [hu]; rfl)
  | release hu => rcases hu with hu | hu <;> exact h.goto (by rw [hu]; rfl)
  | mutex | switch => exact h
  | @run k u s' hr =>
    cases hr with
    | goto hx hl => cases hl <;> exact h.goto (by rw [hx]; rfl)
    | suspend hu => exact h.up (by rw [hu]; rfl) rfl
    | push hu => exact h.goto (by rw [hu]; rfl)
    | release hx hr => cases hr <;> exact h.goto (by rw [hx]; rfl)
    | take hx ht => cases ht <;> exact h.goto (by rw [hx]; rfl)
    | @resume w x y hx hr hw =>
      refine (h.down (u := w) (by rw [hw]; rfl) rfl).goto ?_
      rw [Function.update_of_ne (RunStep.resume_ne hx hr hw), hx]
      cases hr <;> rfl

/-- Each call of `mutex.acquire()` is followed by one call of `mutex.release()`. -/
theorem released_step (h : Balanced Pc.due s.pc s.acquires s.releases) {a : Action K U}
    (hs : Step s a s') : Balanced Pc.due s'.pc s'.acquires s'.releases := by
  cases hs with
  | acquire hu => exact h.up (by rw [hu]; rfl) rfl
  | suspend hu | signal hu | signalAll hu | dispatch hu => exact h.goto (by rw [hu]; rfl)
  | release hu => rcases hu with hu | hu <;> exact h.goto (by rw [hu]; rfl)
  | mutex | switch => exact h
  | @run k u s' hr =>
    cases hr with
    | goto hx hl => cases hl <;> exact h.goto (by rw [hx]; rfl)
    | suspend hu | push hu => exact h.goto (by rw [hu]; rfl)
    | release hx hr => cases hr <;> exact h.down (by rw [hx]; rfl) rfl
    | take hx ht => cases ht <;> exact h.goto (by rw [hx]; rfl)
    | @resume w x y hx hr hw =>
      refine (h.goto (u := w) (y := .ready) (by rw [hw]; rfl)).goto ?_
      rw [Function.update_of_ne (RunStep.resume_ne hx hr hw), hx]
      cases hr <;> rfl

/-- What the last call of `signal` or `signalAll` has done so far, at each position. -/
def Called (bq : List U) (c : Call U) : Pc U → Prop
  | .sigTest | .sigFront | .sigPop _ => c.all = false ∧ c.waiters = bq ∧ c.woken = []
  | .sigFalse => c.all = false ∧ c.waiters = [] ∧ c.woken = []
  | .sigRelease w | .sigReleasing w | .sigResume w =>
    c.all = false ∧ c.waiters.head? = some w ∧ c.woken = [w]
  | .allFront | .allRemove _ | .allResume _ => c.all = true ∧ c.waiters = c.woken ++ bq
  | _ => c.woken = if c.all then c.waiters else c.waiters.take 1

section Called

variable {bq : List U} {c : Call U}

omit [DecidableEq K] [DecidableEq U]

/-- Without the mutex, a position says nothing of the queue as it is. -/
theorem Called.of_not_holds {p : Pc U} (h : Called bq c p) (hp : p.holds = false) (bq' : List U) :
    Called bq' c p := by
  cases p <;> first | exact h | cases hp

theorem Called.of_signal {w : U} (h : Called bq c (.sigResume w)) : Called bq c .out := by
  obtain ⟨hall, hhead, hwoken⟩ := h
  obtain ⟨l, hl⟩ := List.head?_eq_some_iff.mp hhead
  show c.woken = if c.all then c.waiters else c.waiters.take 1
  rw [hall, hwoken, hl]
  rfl

theorem Called.of_sigFalse (h : Called bq c .sigFalse) : Called bq c .release := by
  obtain ⟨hall, hnil, hwoken⟩ := h
  show c.woken = if c.all then c.waiters else c.waiters.take 1
  rw [hall, hwoken, hnil]
  rfl

theorem Called.of_fence (h : Called bq c (.allRemove none)) (hbq : bq = []) :
    Called bq c .release := by
  obtain ⟨hall, hw⟩ := h
  show c.woken = if c.all then c.waiters else c.waiters.take 1
  rw [hall, hw, hbq, List.append_nil]
  rfl

theorem Called.take {w : U} {l : List U} {x y : Pc U} (h : Called bq c x) (ht : x.Takes w y)
    (hbq : bq = w :: l) : Called l { c with woken := c.woken ++ [w] } y := by
  cases ht with
  | pop =>
    obtain ⟨hall, hw, hwoken⟩ := h
    refine ⟨hall, ?_, ?_⟩
    · show c.waiters.head? = some w
      rw [hw, hbq]
      rfl
    · show c.woken ++ [w] = [w]
      rw [hwoken]
      rfl
  | remove =>
    obtain ⟨hall, hw⟩ := h
    refine ⟨hall, ?_⟩
    show c.waiters = c.woken ++ [w] ++ l
    rw [hw, hbq, List.append_assoc]
    rfl

end Called

omit [DecidableEq K] in
/-- Only `u` moves. -/
theorem Called.move {bq : List U} {call : U → Call U} {pc : U → Pc U} {c : Call U} {y : Pc U}
    (hother : ∀ v, v ≠ u → Called bq (call v) (pc v)) (hy : Called bq c y) (v : U) :
    Called bq (Function.update call u c v) (Function.update pc u y v) := by
  by_cases hv : v = u
  · rw [hv, Function.update_self, Function.update_self]
    exact hy
  · rw [Function.update_of_ne hv, Function.update_of_ne hv]
    exact hother v hv

omit [DecidableEq K] in
theorem Called.goto {bq : List U} {call : U → Call U} {pc : U → Pc U}
    (h : ∀ v, Called bq (call v) (pc v)) {y : Pc U} (hy : Called bq (call u) y) (v : U) :
    Called bq (call v) (Function.update pc u y v) := by
  have hmove := Called.move (u := u) (fun v _ => h v) hy v
  rw [Function.update_eq_self] at hmove
  exact hmove

theorem called_step (hI : Inv s) (h : ∀ u, Called s.bq (s.call u) (s.pc u)) {a : Action K U}
    (hs : Step s a s') (v : U) : Called s'.bq (s'.call v) (s'.pc v) := by
  cases hs with
  | @acquire k u m hu | @suspend u hu | @dispatch u hu =>
    have hc := h u
    rw [hu] at hc
    refine Called.goto h ?_ v
    exact hc
  | @release u hu =>
    have hc := h u
    refine Called.goto h ?_ v
    rcases hu with hu | hu <;> rw [hu] at hc
    · exact hc
    · exact hc.of_sigFalse
  | @signal u hu =>
    refine Called.move (fun v _ => h v) ?_ v
    exact ⟨rfl, rfl, rfl⟩
  | @signalAll u hu =>
    refine Called.move (fun v _ => h v) ?_ v
    exact ⟨rfl, rfl⟩
  | mutex | switch => exact h v
  | @run k u s' hr =>
    have hc := h u
    -- The others do not have the mutex, so the queue may change under them.
    have hother : (s.pc u).holds = true → ∀ bq v, v ≠ u → Called bq (s.call v) (s.pc v) :=
      fun hu bq v hv => (h v).of_not_holds (hI.not_holds hu hv) bq
    cases hr with
    | goto hx hl =>
      rw [hx] at hc
      refine Called.goto h ?_ v
      cases hl with
      | empty hbq => exact ⟨hc.1, hc.2.1.trans hbq, hc.2.2⟩
      | fence =>
        have hview := hI.view u
        rw [hx] at hview
        exact hc.of_fence (List.head?_eq_none_iff.mp hview.symm)
      | leave | acquired | nonempty | front | released | allFront => exact hc
    | suspend hx =>
      rw [hx] at hc
      refine Called.goto h ?_ v
      exact hc
    | push hx =>
      rw [hx] at hc hother
      have hmove := Called.move (c := s.call u) (y := .hookRelease) (hother rfl (s.bq ++ [u])) hc v
      rw [Function.update_eq_self] at hmove
      exact hmove
    | release hx hr =>
      rw [hx] at hc
      refine Called.goto h ?_ v
      cases hr <;> exact hc
    | @take w x y l hx ht hl =>
      rw [hx] at hc hother
      exact Called.move (hother (by cases ht <;> rfl) l) (hc.take ht hl) v
    | @resume w x y hx hr hw =>
      rw [hx] at hc
      have hcw := h w
      rw [hw] at hcw
      have hready := Called.goto h (u := w) (y := .ready) hcw
      refine Called.goto hready ?_ v
      cases hr with
      | signal => exact hc.of_signal
      | signalAll => exact hc

/-- **The history of the queue.** -/
structure History (s : State K U) : Prop where
  logged : Logged s
  resumed : Balanced Pc.suspended s.pc s.suspensions s.resumes
  released : Balanced Pc.due s.pc s.acquires s.releases
  called : ∀ u, Called s.bq (s.call u) (s.pc u)

theorem history_reachable (h : (machine K U).Reachable s) : History s := by
  have hI : Inv s ∧ History s := by
    refine Machine.Reachable.invariant (I := fun s => Inv s ∧ History s) ?_ ?_ h
    · rintro s rfl
      exact ⟨inv_initial, rfl, fun _ => rfl, fun _ => rfl, fun _ => rfl⟩
    · intro s a s' hI hs
      have hstep := step_cases hI.1 hs
      exact ⟨inv_step hI.1 hs, logged_step hI.2.logged hstep, resumed_step hI.2.resumed hstep,
        released_step hI.2.released hstep, called_step hI.1 hI.2.called hstep⟩
  exact hI.2

/-! ## The loop of `signalAll` -/

def Pc.inLoop : Pc U → Bool
  | .allFront | .allRemove _ | .allResume _ => true
  | _ => false

/-- The steps `signalAll` still takes in its loop, with `n` uThreads on the queue. -/
def Pc.left (n : ℕ) : Pc U → ℕ
  | .allFront => 3 * n + 2
  | .allRemove none => 1
  | .allRemove (some _) => 3 * n + 1
  | .allResume _ => 3 * n + 3
  | _ => 0

/-- **The loop of `signalAll` ends.** Each step of `u` brings it nearer to the end, and nobody else
touches the queue meanwhile. -/
theorem loop_step (hI : Inv s) {a : Action K U} (hs : Step s a s') (hu : (s.pc u).inLoop = true) :
    (s'.pc u = s.pc u ∧ s'.bq = s.bq) ∨
      (∃ k, a = .run k u) ∧ (s'.pc u).left s'.bq.length < (s.pc u).left s.bq.length := by
  have hholds : (s.pc u).holds = true := by
    cases hp : s.pc u <;> rw [hp] at hu <;> first | rfl | cases hu
  -- A uThread at a position outside the loop is another one.
  have hne : ∀ {v x}, s.pc v = x → x.inLoop = false → u ≠ v := by
    rintro v x hv hx rfl
    rw [hv, hx] at hu
    cases hu
  cases hs with
  | acquire hv | suspend hv | signal hv | signalAll hv | dispatch hv =>
    exact .inl ⟨Function.update_of_ne (hne hv rfl) .., rfl⟩
  | release hv =>
    rcases hv with hv | hv <;> exact .inl ⟨Function.update_of_ne (hne hv rfl) .., rfl⟩
  | mutex | switch => exact .inl ⟨rfl, rfl⟩
  | @run k v s' hr =>
    by_cases hvu : u = v
    · subst hvu
      refine .inr ⟨⟨k, rfl⟩, ?_⟩
      cases hr with
      | goto hx hl =>
        rw [hx] at hu ⊢
        show (Function.update s.pc u _ u).left s.bq.length < _
        rw [Function.update_self]
        cases hl with
        | allFront =>
          cases hbq : s.bq with
          | nil => exact Nat.lt_succ_self 1
          | cons w l => exact Nat.lt_succ_self _
        | fence => exact Nat.one_pos
        | acquired | empty | nonempty | front | released | leave => cases hu
      | suspend hx | push hx => rw [hx] at hu; cases hu
      | release hx hr => rw [hx] at hu; cases hr <;> cases hu
      | @take w x y l hx ht hl =>
        rw [hx] at hu ⊢
        cases ht with
        | pop => cases hu
        | remove =>
          show (Function.update s.pc u (.allResume w) u).left l.length < 3 * s.bq.length + 1
          rw [Function.update_self, hl, List.length_cons]
          show 3 * l.length + 3 < _
          omega
      | resume hx hr hw =>
        rw [hx] at hu ⊢
        show (Function.update (Function.update s.pc _ .ready) u _ u).left s.bq.length < _
        rw [Function.update_self]
        cases hr with
        | signal => cases hu
        | signalAll => exact Nat.lt_succ_self _
    · -- Another uThread does not have the mutex.
      have hnot := hI.not_holds hholds (Ne.symm hvu)
      refine .inl ?_
      cases hr with
      | goto | suspend | release => exact ⟨Function.update_of_ne hvu .., rfl⟩
      | push hx => rw [hx] at hnot; cases hnot
      | take hx ht => rw [hx] at hnot; cases ht <;> cases hnot
      | resume hx hr hw =>
        refine ⟨?_, rfl⟩
        show Function.update (Function.update s.pc _ .ready) v _ u = s.pc u
        rw [Function.update_of_ne hvu, Function.update_of_ne (hne hw rfl)]

/-- A uThread in the loop can take its next step on any kThread. -/
theorem loop_enabled (k : K) (hu : (s.pc u).inLoop = true) : (run k u s).isSome = true := by
  unfold run
  cases hp : s.pc u <;> rw [hp] at hu <;> first | rfl | cases hu
  case allRemove ut => cases ut <;> rfl

/-! ## What a client sees -/

/-- The steps of a uThread between its calls that leave the queue alone. -/
inductive Pc.Quiet : Pc U → Pc U → Prop
  | acquired : Quiet .acquiring .inside
  | suspend : Quiet .suspend .hookPush
  | wake : Quiet .parked .ready
  | dispatch : Quiet .ready .out
  | empty : Quiet .sigTest .sigFalse
  | nonempty : Quiet .sigTest .sigFront
  | front {w : U} : Quiet .sigFront (.sigPop w)
  | released {w : U} : Quiet (.sigReleasing w) (.sigResume w)
  | allFront {ut : Option U} : Quiet .allFront (.allRemove ut)
  | fence : Quiet (.allRemove none) .release
  | leave : Quiet .releasing .out
  | release {x y : Pc U} : x.Releases y → Quiet x y
  | resume {w : U} {x y : Pc U} : x.Resumes w y → Quiet x y

/-- What a step between calls does to the queue. -/
inductive Internal (s s' : State K U) : Prop
  | quiet : s'.bq = s.bq → s'.wakes = s.wakes →
      (∀ v, s'.pc v = s.pc v ∨ (s.pc v).Quiet (s'.pc v)) → Internal s s'
  | push {u : U} : s.pc u = .hookPush → s'.bq = s.bq ++ [u] → s'.wakes = s.wakes →
      s'.pc = Function.update s.pc u .hookRelease → Internal s s'
  | take {u w : U} {x y : Pc U} {l : List U} : s.pc u = x → x.Takes w y → s.bq = w :: l →
      s'.bq = l → s'.wakes = s.wakes ++ [(u, w)] → s'.pc = Function.update s.pc u y → Internal s s'

omit [DecidableEq K] in
theorem Pc.Quiet.update {pc : U → Pc U} {x y : Pc U} (hx : pc u = x) (hn : x.Quiet y) (v : U) :
    Function.update pc u y v = pc v ∨ (pc v).Quiet (Function.update pc u y v) := by
  by_cases hv : v = u
  · rw [hv, Function.update_self, hx]
    exact .inr hn
  · exact .inl (Function.update_of_ne hv ..)

omit [DecidableEq K] [DecidableEq U] in
theorem Local.quiet {x y : Pc U} (h : Local s u x y) : x.Quiet y := by
  cases h <;> constructor

theorem internal_cases {a : Action K U} (ha : a.internal = true) (hs : Step s a s') :
    Internal s s' ∧ s'.acquires = s.acquires := by
  cases hs with
  | acquire | suspend | signal | signalAll | release => cases ha
  | mutex | switch => exact ⟨.quiet rfl rfl fun _ => .inl rfl, rfl⟩
  | dispatch hu => exact ⟨.quiet rfl rfl (Pc.Quiet.update hu .dispatch), rfl⟩
  | @run k u s' hr =>
    cases hr with
    | goto hx hl => exact ⟨.quiet rfl rfl (Pc.Quiet.update hx hl.quiet), rfl⟩
    | suspend hx => exact ⟨.quiet rfl rfl (Pc.Quiet.update hx .suspend), rfl⟩
    | push hx => exact ⟨.push hx rfl rfl rfl, rfl⟩
    | release hx hr => exact ⟨.quiet rfl rfl (Pc.Quiet.update hx (.release hr)), rfl⟩
    | take hx ht hl => exact ⟨.take hx ht hl rfl rfl rfl, rfl⟩
    | @resume w x y hx hr hw =>
      refine ⟨.quiet rfl rfl fun v => ?_, rfl⟩
      show Function.update (Function.update s.pc w .ready) u y v = s.pc v ∨
        (s.pc v).Quiet (Function.update (Function.update s.pc w .ready) u y v)
      by_cases hv : v = u
      · rw [hv, Function.update_self, hx]
        exact .inr (.resume hr)
      · rw [Function.update_of_ne hv]
        exact Pc.Quiet.update hw .wake v

/-- The steps of a uThread between its calls. -/
inductive Pc.Next : Pc U → Pc U → Prop
  | quiet {x y : Pc U} : x.Quiet y → Next x y
  | push : Next .hookPush .hookRelease
  | take {w : U} {x y : Pc U} : x.Takes w y → Next x y

/-- What a client of the queue is doing with it. -/
inductive Use
  | none
  | acquire
  /-- has the mutex -/
  | hold
  | suspend
  | signal
  | signalAll
  /-- `signal` has returned `false` -/
  | failed
  | release

/-- The positions of a uThread in such a call, up to its return. -/
def Use.covers : Use → Pc U → Bool
  | .none, .out | .hold, .inside | .failed, .sigFalse => true
  | .acquire, .acquiring | .acquire, .inside => true
  | .suspend, .suspend | .suspend, .hookPush | .suspend, .hookRelease | .suspend, .parked => true
  | .suspend, .ready | .suspend, .out => true
  | .signal, .sigTest | .signal, .sigFront | .signal, .sigPop _ | .signal, .sigRelease _ => true
  | .signal, .sigReleasing _ | .signal, .sigResume _ | .signal, .sigFalse | .signal, .out => true
  | .signalAll, .allFront | .signalAll, .allRemove _ | .signalAll, .allResume _ => true
  | .signalAll, .release | .signalAll, .releasing | .signalAll, .out => true
  | .release, .release | .release, .releasing | .release, .out => true
  | _, _ => false

omit [DecidableEq U] in
theorem Use.covers_next {c : Use} {x y : Pc U} (h : c.covers x = true) (hn : x.Next y) :
    c.covers y = true := by
  cases hn with
  | quiet hq =>
    cases hq with
    | release hr => cases hr <;> cases c <;> first | rfl | cases h
    | resume hr => cases hr <;> cases c <;> first | rfl | cases h
    | _ => cases c <;> first | rfl | cases h
  | push => cases c <;> first | rfl | cases h
  | take ht => cases ht <;> cases c <;> first | rfl | cases h

omit [DecidableEq K] in
theorem Internal.next (h : Internal s s') (v : U) : s'.pc v = s.pc v ∨ (s.pc v).Next (s'.pc v) := by
  cases h with
  | quiet _ _ hpc => exact (hpc v).imp id .quiet
  | @push u hu _ _ hpc =>
    rw [hpc]
    by_cases hv : v = u
    · rw [hv, Function.update_self, hu]
      exact .inr .push
    · exact .inl (Function.update_of_ne hv ..)
  | @take u w x y l hx ht _ _ _ hpc =>
    rw [hpc]
    by_cases hv : v = u
    · rw [hv, Function.update_self, hx]
      exact .inr (.take ht)
    · exact .inl (Function.update_of_ne hv ..)

/-- About to be queued. -/
def Pc.Joining (x : Pc U) : Prop := x = .suspend ∨ x = .hookPush

omit [DecidableEq U] in
theorem Pc.Joining.of_next {x y : Pc U} (hn : x.Next y) (hy : y.Joining) : x.Joining := by
  cases hn with
  | quiet hq =>
    cases hq with
    | suspend => exact .inl rfl
    | release hr => cases hr <;> rcases hy with hy | hy <;> cases hy
    | resume hr => cases hr <;> rcases hy with hy | hy <;> cases hy
    | _ => rcases hy with hy | hy <;> cases hy
  | push => rcases hy with hy | hy <;> cases hy
  | take ht => cases ht <;> rcases hy with hy | hy <;> cases hy

/-- `u` waits on the queue, or is about to. -/
def Waits (s : State K U) (u : U) : Prop := (s.pc u).Joining ∨ u ∈ s.bq

omit [DecidableEq K] in
theorem waits_iff {x : Pc U} (hpc : s'.pc = Function.update s.pc u x) (hbq : s'.bq = s.bq)
    (hx : x.Joining ↔ (s.pc u).Joining) (v : U) : Waits s' v ↔ Waits s v := by
  unfold Waits
  rw [hpc, hbq]
  by_cases hv : v = u
  · rw [hv, Function.update_self, hx]
  · rw [Function.update_of_ne hv]

omit [DecidableEq K] in
/-- Nobody comes to wait between calls, -/
theorem Internal.waits_of (h : Internal s s') (hu : Waits s' u) : Waits s u := by
  rcases hu with hj | hmem
  · refine .inl ?_
    rcases h.next u with hsame | hnext
    · rw [← hsame]
      exact hj
    · generalize s.pc u = x at hnext
      generalize s'.pc u = y at hnext hj
      exact hj.of_next hnext
  · cases h with
    | quiet hbq =>
      rw [hbq] at hmem
      exact .inr hmem
    | @push v hv hbq =>
      rw [hbq, List.mem_append, List.mem_singleton] at hmem
      rcases hmem with hmem | rfl
      · exact .inr hmem
      · exact .inl (.inr hv)
    | take _ _ hl hbq =>
      rw [hbq] at hmem
      rw [Waits, hl]
      exact .inr (List.mem_cons_of_mem _ hmem)

omit [DecidableEq K] in
/-- and one that waits goes on waiting, unless it is taken off the queue. -/
theorem Internal.waits (h : Internal s s') (hu : Waits s u) :
    Waits s' u ∨ ∃ v y, (s.pc v).Takes u y ∧ s'.pc v = y := by
  cases h with
  | quiet hbq _ hpc =>
    refine .inl ?_
    rcases hu with hj | hmem
    · rcases hpc u with hsame | hquiet
      · rw [Waits, hsame]
        exact .inl hj
      · refine .inl ?_
        generalize s'.pc u = y at hquiet
        rcases hj with hj | hj <;> rw [hj] at hquiet
        · cases hquiet with
          | suspend => exact .inr rfl
          | release hr => cases hr
          | resume hr => cases hr
        · cases hquiet with
          | release hr => cases hr
          | resume hr => cases hr
    · exact .inr (hbq ▸ hmem)
  | @push v hv hbq _ hpc =>
    refine .inl ?_
    rw [Waits, hbq, hpc]
    by_cases huv : u = v
    · rw [huv]
      exact .inr (List.mem_append_right _ (List.mem_singleton_self v))
    · rw [Function.update_of_ne huv]
      exact hu.imp id (List.mem_append_left _)
  | @take v w x y l hx ht hl hbq _ hpc =>
    rcases hu with hj | hmem
    · refine .inl (.inl ?_)
      rw [hpc, Function.update_of_ne]
      · exact hj
      · rintro rfl
        rw [hx] at hj
        cases ht <;> rcases hj with hj | hj <;> cases hj
    · rw [hl] at hmem
      rcases List.mem_cons.mp hmem with rfl | hmem
      · refine .inr ⟨v, y, hx ▸ ht, ?_⟩
        rw [hpc, Function.update_self]
      · exact .inl (.inr (hbq ▸ hmem))

/-- Between calls, a uThread that has nothing to do with the mutex stays so. -/
theorem internal_out (h : Inv s) {a : Action K U} (ha : a.internal = true) (hs : Step s a s')
    (hu : s.mutex.status u = .out) : s'.mutex.status u = .out := by
  have hmoves : ∀ {m : Mutex.State K U}, Status.Moves (s.mutex.status u) (m.status u) →
      m.status u = .out := by
    intro m hm
    rw [hu] at hm
    generalize m.status u = y at hm
    cases hm
    rfl
  cases hs with
  | acquire | suspend | signal | signalAll | release => cases ha
  | mutex hm => exact hmoves (Mutex.moves_run (Mutex.inv_reachable h.mutex) hm u)
  | switch _ hm => exact hmoves (Mutex.moves_dispatch hm u)
  | dispatch => exact hu
  | @run k v s' hr =>
    cases hr with
    | @release x y m hx hr hm =>
      obtain ⟨hin, hst⟩ := Mutex.status_release hm
      have huv : u ≠ v := by
        rintro rfl
        exact absurd (hu.symm.trans hin) nofun
      show m.status u = .out
      rw [hst, Function.update_of_ne huv]
      exact hu
    | _ => exact hu

end Steps

end UThreads.BlockingQueue
