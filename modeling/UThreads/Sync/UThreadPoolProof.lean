import UThreads.Sync.UThreadPool
import UThreads.Lib.Tally
import UThreads.Lib.Placement

/-!
# `uThreadPool`: no task is lost

* **`tasks_served`**: each task is in one place and is run once, `idleuThreads` counts the idle
  workers modulo 2^32, and no task is left with all workers waiting.
* **`idle_wraps`**: with 2^32 idle workers, `idleuThreads` is 0.
-/

namespace UThreads.UThreadPool

open BlockingQueue (Waits)

variable {K U F : Type*} [DecidableEq K] [DecidableEq U]

/-! ## What a step does -/

/-- The calls on the mutex and the condition variable: the position of the caller before and after
it, the call, and the position in the condition variable before and after it. -/
inductive Calls (s : State K U F) (k : K) (u : U) :
    Pos F → Pos F → ConditionVariable.Action K U → ConditionVariable.Pc →
    ConditionVariable.Pc → Prop
  | submit {b : Option (Task F)} {t : Task F} :
      Calls s k u (.submit b (.acquire t)) (.submit b (.acquiring t)) (.acquire k u) .out .acquire
  | signal {b : Option (Task F)} :
      Calls s k u (.submit b .signal) (.submit b .signalling) (.signal u) .own .signal
  | acquire : Calls s k u (.work .acquire) (.work .acquiring) (.acquire k u) .out .acquire
  | wait : s.taskList = [] → Calls s k u (.work .test) (.work .wait) (.wait u) .own .waitSuspend
  | release {t : Task F} :
      Calls s k u (.work (.release t)) (.work (.releasing t)) (.release u) .own .release

/-- The returns from these calls. -/
inductive Returns : Pos F → ConditionVariable.Pc → Pos F → Prop
  | submit {b : Option (Task F)} {t : Task F} :
      Returns (.submit b (.acquiring t)) .own (.submit b (.push t))
  | signal {b : Option (Task F)} : Returns (.submit b .signalling) .out (.back b)
  | acquire : Returns (.work .acquiring) .own (.work .test)
  | wait : Returns (.work .wait) .own (.work .test)

inductive Step (s : State K U F) : Action K U F → State K U F → Prop
  | execute {u : U} {f : F} {b : Option (Task F)} : s.pos u = .back b →
      Step s (.execute u f) ({ s with submitted := s.submitted ++ [s.newTask f] }.goto u
        (.submit b (.load (s.newTask f))))
  | spawn {k : K} {u : U} {b : Option (Task F)} {t : Task F} : s.pos u = .submit b (.load t) →
      s.idleuThreads = 0 → Step s (.run k u) (s.goto u (.submit b (.create t)))
  | queue {k : K} {u : U} {b : Option (Task F)} {t : Task F} : s.pos u = .submit b (.load t) →
      s.idleuThreads ≠ 0 →
      Step s (.run k u) ({ s with pending := s.pending + 1 }.goto u (.submit b (.acquire t)))
  | create {u w : U} {b : Option (Task F)} {t : Task F} : s.pos u = .submit b (.create t) →
      s.pos w = .user →
      Step s (.create u w)
        (({ s with workers := s.workers ++ [w] }.goto w (.work (.created t))).goto u
        (.submit b .total))
  | total {k : K} {u : U} {b : Option (Task F)} : s.pos u = .submit b .total →
      Step s (.run k u) ({ s with totalnumuThreads := s.totalnumuThreads + 1 }.goto u (.back b))
  | push {k : K} {u : U} {b : Option (Task F)} {t : Task F} : s.pos u = .submit b (.push t) →
      Step s (.run k u) ({ s with taskList := s.taskList ++ [t], pending := s.pending - 1 }.goto u
        (.submit b .signal))
  | begin {k : K} {u : U} {t : Task F} : s.pos u = .work (.created t) →
      Step s (.run k u) ({ s with taken := s.taken ++ [(t, u)], ran := s.ran ++ [t] }.goto u
        (.work (.running t)))
  | finish {k : K} {u : U} {t : Task F} : s.pos u = .work (.running t) →
      Step s (.run k u) (s.goto u (.work .incr))
  | incr {k : K} {u : U} : s.pos u = .work .incr →
      Step s (.run k u) ({ s with idleuThreads := s.idleuThreads + 1 }.goto u (.work .acquire))
  | found {k : K} {u : U} : s.pos u = .work .test → s.taskList ≠ [] →
      Step s (.run k u) (s.goto u (.work .decr))
  | decr {k : K} {u : U} : s.pos u = .work .decr →
      Step s (.run k u) ({ s with idleuThreads := s.idleuThreads - 1 }.goto u (.work .take))
  | take {k : K} {u : U} {t : Task F} {ts : List (Task F)} : s.pos u = .work .take →
      s.taskList = t :: ts →
      Step s (.run k u) ({ s with taskList := ts, taken := s.taken ++ [(t, u)] }.goto u
        (.work (.release t)))
  | start {k : K} {u : U} {t : Task F} : s.pos u = .work (.releasing t) → s.cv.pc u = .out →
      Step s (.run k u) ({ s with ran := s.ran ++ [t] }.goto u (.work (.running t)))
  | call {k : K} {u : U} {x y : Pos F} {a : ConditionVariable.Action K U}
      {p q : ConditionVariable.Pc} {c : ConditionVariable.State K U} : s.pos u = x →
      Calls s k u x y a p q → ConditionVariable.step s.cv a = some c →
      Step s (.run k u) ({ s with cv := c }.goto u y)
  | ret {k : K} {u : U} {x y : Pos F} {p : ConditionVariable.Pc} : s.pos u = x → Returns x p y →
      s.cv.pc u = p → Step s (.run k u) (s.goto u y)
  | cv {a : ConditionVariable.Action K U} {c : ConditionVariable.State K U} : a.internal = true →
      ConditionVariable.step s.cv a = some c → Step s (.cv a) { s with cv := c }

section Inversion

variable {s s' : State K U F} {k : K} {u : U}

theorem State.onCv_step {x y : Pos F} {a : ConditionVariable.Action K U}
    {p q : ConditionVariable.Pc}
    (hx : s.pos u = x) (hc : Calls s k u x y a p q) (hs : s.onCv a u y = some s') :
    Step s (.run k u) s' := by
  obtain ⟨c, hc', rfl⟩ := Option.map_eq_some_iff.mp hs
  exact .call hx hc hc'

theorem State.await_step {x y : Pos F} {p : ConditionVariable.Pc} (hx : s.pos u = x)
    (hr : Returns x p y) (hs : s.await u p y = some s') : Step s (.run k u) s' := by
  unfold State.await at hs
  split_ifs at hs with hp
  obtain rfl := Option.some.inj hs
  exact .ret hx hr hp

theorem submit_step {b : Option (Task F)} {x : Submit F} (hx : s.pos u = .submit b x)
    (hs : submit k u b s x = some s') : Step s (.run k u) s' := by
  cases x with
  | load t =>
    simp only [submit] at hs
    split_ifs at hs with hidle <;> obtain rfl := Option.some.inj hs
    · exact .spawn hx hidle
    · exact .queue hx hidle
  | create t => simp [submit] at hs
  | total =>
    obtain rfl := Option.some.inj hs
    exact .total hx
  | acquire t => exact State.onCv_step hx .submit hs
  | acquiring t => exact State.await_step hx .submit hs
  | push t =>
    obtain rfl := Option.some.inj hs
    exact .push hx
  | signal => exact State.onCv_step hx .signal hs
  | signalling => exact State.await_step hx .signal hs

theorem work_step {x : Work F} (hx : s.pos u = .work x) (hs : work k u s x = some s') :
    Step s (.run k u) s' := by
  cases x with
  | created t =>
    obtain rfl := Option.some.inj hs
    exact .begin hx
  | running t =>
    obtain rfl := Option.some.inj hs
    exact .finish hx
  | incr =>
    obtain rfl := Option.some.inj hs
    exact .incr hx
  | acquire => exact State.onCv_step hx .acquire hs
  | acquiring => exact State.await_step hx .acquire hs
  | test =>
    simp only [work] at hs
    split_ifs at hs with hempty
    · exact State.onCv_step hx (.wait hempty) hs
    · obtain rfl := Option.some.inj hs
      exact .found hx hempty
  | wait => exact State.await_step hx .wait hs
  | decr =>
    obtain rfl := Option.some.inj hs
    exact .decr hx
  | take =>
    simp only [work] at hs
    split at hs
    next => cases hs
    next t ts hts =>
      obtain rfl := Option.some.inj hs
      exact .take hx hts
  | release t => exact State.onCv_step hx .release hs
  | releasing t =>
    simp only [work, State.await] at hs
    split_ifs at hs with hout
    obtain rfl := Option.some.inj hs
    exact .start hx hout

theorem step_cases {a : Action K U F} (hs : step s a = some s') : Step s a s' := by
  cases a with
  | execute u f =>
    simp only [step] at hs
    split at hs
    next hx =>
      obtain rfl := Option.some.inj hs
      exact .execute (b := none) hx
    next t hx =>
      obtain rfl := Option.some.inj hs
      exact .execute (b := some t) hx
    next => cases hs
  | run k u =>
    simp only [step] at hs
    split at hs
    next => cases hs
    next x hx => exact work_step hx hs
    next b x hx => exact submit_step hx hs
  | create u w =>
    simp only [step] at hs
    split at hs
    next b t hu hw =>
      obtain rfl := Option.some.inj hs
      exact .create hu hw
    next => cases hs
  | cv a =>
    simp only [step] at hs
    split_ifs at hs with ha
    obtain ⟨c, hc, rfl⟩ := Option.map_eq_some_iff.mp hs
    exact .cv ha hc

/-- A call moves the caller in the condition variable. -/
theorem Calls.cv {x y : Pos F} {a : ConditionVariable.Action K U} {p q : ConditionVariable.Pc}
    {c : ConditionVariable.State K U} (h : Calls s k u x y a p q)
    (hc : ConditionVariable.step s.cv a = some c) : c.pc = Function.update s.cv.pc u q := by
  cases h <;> cases ConditionVariable.step_cases hc with
  | call hcall => cases hcall; rfl

end Inversion

/-! ## The workers and the mutex -/

/-- A worker, maybe in a call of `uThreadExecute` from its task. -/
def Pos.worker : Pos F → Bool
  | .user => false
  | .work _ => true
  | .submit b _ => b.isSome

/-- Between `idleuThreads++` and `idleuThreads--`. -/
def Pos.idle : Pos F → Bool
  | .work .acquire | .work .acquiring | .work .test | .work .wait | .work .decr => true
  | _ => false

/-- Past the decision to queue the task. -/
def Pos.queuing : Pos F → Bool
  | .submit _ (.acquire _) | .submit _ (.acquiring _) | .submit _ (.push _) => true
  | .submit _ .signal | .submit _ .signalling => true
  | _ => false

/-- The positions in the condition variable. -/
def Pos.Fits : Pos F → ConditionVariable.Pc → Prop
  | .submit _ (.acquiring _), x | .work .acquiring, x => x = .acquire ∨ x = .own
  | .submit _ (.push _), x | .submit _ .signal, x => x = .own
  | .work .test, x | .work .decr, x | .work .take, x | .work (.release _), x => x = .own
  | .submit _ .signalling, x => x = .signal ∨ x = .signalRelease ∨ x = .out
  | .work .wait, x => x = .waitSuspend ∨ x = .waitAcquire ∨ x = .own
  | .work (.releasing _), x => x = .release ∨ x = .out
  | _, x => x = .out

structure Inv (s : State K U F) : Prop where
  cv : (ConditionVariable.machine K U).Reachable s.cv
  fits : ∀ u, (s.pos u).Fits (s.cv.pc u)
  nodup : s.workers.Nodup
  workers : ∀ u, u ∈ s.workers ↔ (s.pos u).worker = true
  idle : s.idleuThreads = BitVec.ofNat 32 (tally Pos.idle s.workers s.pos)
  /-- Who decides to queue a task has seen an idle worker. -/
  queuing : ∀ u, (s.pos u).queuing = true → s.workers ≠ []

section Workers

variable {s s' : State K U F} {c c' : ConditionVariable.State K U} {k : K} {u : U}

omit [DecidableEq U] in
theorem Pos.worker_of_idle {x : Pos F} (h : x.idle = true) : x.worker = true := by
  cases x with
  | work => rfl
  | user | submit => cases h

omit [DecidableEq K] in
/-- What the tally of idle workers becomes when `u` moves. -/
theorem tally_idle (hn : s.workers.Nodup) (hw : ∀ u, u ∈ s.workers ↔ (s.pos u).worker = true)
    {y : Pos F} (hy : y.worker = (s.pos u).worker) :
    tally Pos.idle s.workers (Function.update s.pos u y) + (s.pos u).idle.toNat =
      tally Pos.idle s.workers s.pos + y.idle.toNat := by
  by_cases hu : u ∈ s.workers
  · exact tally.update hn hu
  · -- Who is not a worker is not counted, before or after.
    have hwork : (s.pos u).worker = false := by rwa [hw u, Bool.not_eq_true] at hu
    have hx : (s.pos u).idle = false := by
      rw [← Bool.not_eq_true]
      intro hi
      simp [Pos.worker_of_idle hi] at hwork
    have hy' : y.idle = false := by
      rw [← Bool.not_eq_true]
      intro hi
      simp [hy ▸ Pos.worker_of_idle hi] at hwork
    rw [tally.update_of_not_mem hu, hx, hy']

/-- uThread `u` moves, and with it its position in the condition variable. -/
theorem Inv.move (h : Inv s) {x y : Pos F} (hx : s.pos u = x)
    (hpos : s'.pos = Function.update s.pos u y)
    (hcv : (ConditionVariable.machine K U).Reachable s'.cv)
    (hpc : ∀ v, v ≠ u → s'.cv.pc v = s.cv.pc v) (hfits : y.Fits (s'.cv.pc u))
    (hw : y.worker = x.worker) (hworkers : s'.workers = s.workers)
    (hidle : s'.idleuThreads + BitVec.ofNat 32 x.idle.toNat =
      s.idleuThreads + BitVec.ofNat 32 y.idle.toNat)
    (hq : y.queuing = true → s.workers ≠ []) : Inv s' := by
  subst hx
  refine ⟨hcv, fun v => ?_, hworkers ▸ h.nodup, fun v => ?_, ?_, fun v hv => ?_⟩
  · rw [hpos]
    by_cases hv : v = u
    · subst hv
      rw [Function.update_self]
      exact hfits
    · rw [Function.update_of_ne hv, hpc v hv]
      exact h.fits v
  · rw [hworkers, hpos, h.workers v]
    by_cases hv : v = u
    · rw [hv, Function.update_self, hw]
    · rw [Function.update_of_ne hv]
  · have htally := tally_idle h.nodup h.workers hw
    rw [h.idle, ← BitVec.ofNat_add, ← htally, BitVec.ofNat_add] at hidle
    rw [hworkers, hpos]
    exact (BitVec.add_left_inj _).mp hidle
  · rw [hworkers]
    rw [hpos] at hv
    by_cases hvu : v = u
    · rw [hvu, Function.update_self] at hv
      exact hq hv
    · rw [Function.update_of_ne hvu] at hv
      exact h.queuing v hv

/-- `u` moves, and nothing else. -/
theorem Inv.goto (h : Inv s) {x y : Pos F} (hx : s.pos u = x)
    (hpos : s'.pos = Function.update s.pos u y)
    (hcv : s'.cv = s.cv) (hfits : y.Fits (s.cv.pc u)) (hw : y.worker = x.worker)
    (hworkers : s'.workers = s.workers) (hidle : s'.idleuThreads = s.idleuThreads)
    (hi : y.idle = x.idle) (hq : y.queuing = true → s.workers ≠ []) : Inv s' := by
  refine h.move hx hpos (hcv ▸ h.cv) (fun v _ => by rw [hcv]) (hcv ▸ hfits) hw hworkers ?_ hq
  rw [hidle, hi]

omit [DecidableEq U] in
/-- A call of `uThreadExecute` is over. -/
theorem Pos.fits_back (b : Option (Task F)) : (Pos.back b).Fits .out := by
  cases b <;> rfl

omit [DecidableEq U] in
theorem Pos.worker_back (b : Option (Task F)) : (Pos.back b).worker = b.isSome := by
  cases b <;> rfl

omit [DecidableEq U] in
theorem Pos.not_back (b : Option (Task F)) :
    (Pos.back b).idle = false ∧ (Pos.back b).queuing = false := by
  cases b <;> exact ⟨rfl, rfl⟩

/-- A step inside the mutex or the condition variable. -/
theorem Pos.Fits.internal {x : Pos F} {a : ConditionVariable.Action K U} (ha : a.internal = true)
    (hs : ConditionVariable.step c a = some c') (h : x.Fits (c.pc u)) : x.Fits (c'.pc u) := by
  cases ConditionVariable.step_cases hs with
  | queue => exact h
  | @ret k v p q y hr hv =>
    show x.Fits (Function.update c.pc v q u)
    by_cases hu : u = v
    · subst hu
      rw [hv] at h
      rw [Function.update_self]
      cases x with
      | user => cases hr <;> simp_all [Pos.Fits]
      | work x => cases hr <;> cases x <;> simp_all [Pos.Fits]
      | submit b x => cases hr <;> cases x <;> simp_all [Pos.Fits]
    · rw [Function.update_of_ne hu]
      exact h
  | @call a v b p q y z hc hv =>
    show x.Fits (Function.update c.pc v q u)
    by_cases hu : u = v
    · subst hu
      rw [hv] at h
      rw [Function.update_self]
      cases x with
      | user => cases hc <;> simp_all [Pos.Fits, ConditionVariable.Action.internal]
      | work x => cases hc <;> cases x <;> simp_all [Pos.Fits, ConditionVariable.Action.internal]
      | submit b x =>
        cases hc <;> cases x <;> simp_all [Pos.Fits, ConditionVariable.Action.internal]
    · rw [Function.update_of_ne hu]
      exact h

theorem inv_create (h : Inv s) {w : U} {b : Option (Task F)} {t : Task F}
    (hu : s.pos u = .submit b (.create t)) (hw : s.pos w = .user) :
    Inv (({ s with workers := s.workers ++ [w] }.goto w (.work (.created t))).goto u
      (.submit b .total)) := by
  have hnew : w ∉ s.workers := by
    rw [h.workers w, hw]
    simp [Pos.worker]
  have hwfits := h.fits w
  rw [hw] at hwfits
  have hmem : ∀ v, v ∈ s.workers ++ [w] ↔
      (Function.update s.pos w (.work (.created t)) v).worker = true := by
    intro v
    by_cases hv : v = w
    · subst hv
      simp [Pos.worker]
    · rw [Function.update_of_ne hv, ← h.workers v]
      simp [hv]
  have hne : u ≠ w := by
    rintro rfl
    simp [hw] at hu
  -- The worker first, then the step of its creator.
  have hcreated : Inv ({ s with workers := s.workers ++ [w] }.goto w (.work (.created t))) := by
    refine ⟨h.cv, fun v => ?_, List.nodup_append.mpr ⟨h.nodup, List.nodup_singleton w, ?_⟩, hmem,
      ?_,
      fun v _ => by simp [State.goto]⟩
    · show (Function.update s.pos w (.work (.created t)) v).Fits (s.cv.pc v)
      by_cases hv : v = w
      · rw [hv, Function.update_self]
        exact hwfits
      · rw [Function.update_of_ne hv]
        exact h.fits v
    · intro v hv x hx
      rw [List.mem_singleton.mp hx]
      rintro rfl
      exact hnew hv
    · show s.idleuThreads = BitVec.ofNat 32
        (tally Pos.idle (s.workers ++ [w]) (Function.update s.pos w (.work (.created t))))
      rw [tally.concat, tally.update_of_not_mem hnew, Function.update_self]
      exact h.idle
  have hpos : ({ s with workers := s.workers ++ [w] }.goto w (.work (.created t))).pos u =
      .submit b (.create t) := (Function.update_of_ne hne ..).trans hu
  refine hcreated.goto hpos rfl rfl ?_ rfl rfl rfl rfl (by simp [Pos.queuing])
  have hfits := h.fits u
  rw [hu] at hfits
  exact hfits

theorem inv_step (h : Inv s) {a : Action K U F} (hs : Step s a s') : Inv s' := by
  cases hs with
  | @execute u f b hx =>
    have hfits := h.fits u
    rw [hx] at hfits
    have hout : s.cv.pc u = .out := by cases b <;> exact hfits
    exact h.goto hx rfl rfl hout (Pos.worker_back b).symm rfl rfl (Pos.not_back b).1.symm
      (by simp [Pos.queuing])
  | @spawn k u b t hx _ | @finish k u t hx =>
    have hfits := h.fits u
    rw [hx] at hfits
    exact h.goto hx rfl rfl hfits rfl rfl rfl rfl (by simp [Pos.queuing])
  | @begin k u t hx =>
    have hfits := h.fits u
    rw [hx] at hfits
    exact h.goto hx rfl rfl hfits rfl rfl rfl rfl (by simp [Pos.queuing])
  | @queue k u b t hx hidle =>
    have hfits := h.fits u
    rw [hx] at hfits
    refine h.goto hx rfl rfl hfits rfl rfl rfl rfl fun _ hnil => hidle ?_
    rw [h.idle, hnil]
    rfl
  | create hu hw => exact inv_create h hu hw
  | @total k u b hx =>
    have hfits := h.fits u
    rw [hx] at hfits
    refine h.goto hx rfl rfl ?_ (Pos.worker_back b) rfl rfl (Pos.not_back b).1
      (by simp [Pos.not_back b])
    rw [hfits]
    exact Pos.fits_back b
  | @push k u b t hx =>
    have hfits := h.fits u
    rw [hx] at hfits
    exact h.goto hx rfl rfl hfits rfl rfl rfl rfl fun _ => h.queuing u (by rw [hx]; rfl)
  | @incr k u hx =>
    have hfits := h.fits u
    rw [hx] at hfits
    exact h.move hx rfl h.cv (fun _ _ => rfl) hfits rfl rfl (by simp [Pos.idle, State.goto])
      (by simp [Pos.queuing])
  | @found k u hx _ =>
    have hfits := h.fits u
    rw [hx] at hfits
    exact h.goto hx rfl rfl hfits rfl rfl rfl rfl (by simp [Pos.queuing])
  | @decr k u hx =>
    have hfits := h.fits u
    rw [hx] at hfits
    refine h.move hx rfl h.cv (fun _ _ => rfl) hfits rfl rfl ?_ (by simp [Pos.queuing])
    show s.idleuThreads - 1#32 + 1#32 = s.idleuThreads + 0#32
    rw [BitVec.sub_add_cancel, BitVec.add_zero]
  | @take k u t ts hx _ =>
    have hfits := h.fits u
    rw [hx] at hfits
    exact h.goto hx rfl rfl hfits rfl rfl rfl rfl (by simp [Pos.queuing])
  | @start k u t hx hout =>
    exact h.goto hx rfl rfl hout rfl rfl rfl rfl (by simp [Pos.queuing])
  | @call k u x y a p q c hx hc hstep =>
    have hpc := hc.cv hstep
    have hqueuing : y.queuing = true → s.workers ≠ [] := by
      intro hy
      refine h.queuing u ?_
      rw [hx]
      cases hc <;> first | rfl | cases hy
    refine h.move hx rfl (ConditionVariable.reachable_step h.cv hstep) (fun v hv => ?_) ?_ ?_ rfl ?_
      hqueuing
    · show c.pc v = _
      rw [hpc, Function.update_of_ne hv]
    · show y.Fits (c.pc u)
      rw [hpc, Function.update_self]
      cases hc <;> simp [Pos.Fits]
    · cases hc <;> rfl
    · cases hc <;> rfl
  | @ret k u x y p hx hr hp =>
    have hqueuing : y.queuing = true → s.workers ≠ [] := by
      intro hy
      refine h.queuing u ?_
      rw [hx]
      cases hr with
      | signal => rfl
      | submit => rfl
      | acquire | wait => cases hy
    refine h.goto hx rfl rfl ?_ ?_ rfl rfl ?_ hqueuing
    · rw [hp]
      cases hr with
      | signal => exact Pos.fits_back _
      | _ => rfl
    · cases hr with
      | signal => exact Pos.worker_back _
      | _ => rfl
    · cases hr with
      | signal => exact (Pos.not_back _).1
      | _ => rfl
  | cv ha hc =>
    exact ⟨ConditionVariable.reachable_step h.cv hc, fun v => (h.fits v).internal ha hc, h.nodup,
      h.workers, h.idle, h.queuing⟩

end Workers

/-! ## No task is left with all workers waiting -/

/-- In `signal`, before a uThread is taken off the queue. -/
def seeking : BlockingQueue.Pc U → Bool
  | .sigTest | .sigFront | .sigPop _ => true
  | _ => false

/-- `u` has queued a task and has still to take a worker off the queue of the condition variable. -/
def Signalling (s : State K U F) (u : U) : Prop :=
  ∃ b, s.pos u = .submit b .signal ∨
    s.pos u = .submit b .signalling ∧ seeking (s.cv.queue.pc u) = true

/-- With a task queued, somebody is to signal, or some worker at a `good` position does not wait. -/
def Served (good : Pos F → Bool) (s : State K U F) : Prop :=
  s.taskList ≠ [] → (∃ u, Signalling s u) ∨
    ∃ w ∈ s.workers, good (s.pos w) = true ∧ ¬Waits s.cv.queue w

section Served

variable {s s' : State K U F} {c c' : ConditionVariable.State K U} {k : K} {u : U}
  {good : Pos F → Bool}

theorem Inv.queue (h : Inv s) : BlockingQueue.Inv s.cv.queue :=
  BlockingQueue.inv_reachable (ConditionVariable.inv_reachable h.cv).queue

theorem Inv.agrees (h : Inv s) (u : U) : (s.cv.pc u).agrees (s.cv.queue.pc u) = true :=
  (ConditionVariable.inv_reachable h.cv).agrees u

/-- Who owns the mutex, between its calls. -/
theorem Inv.holds_of_own (h : Inv s) (hu : s.cv.pc u = .own) :
    (s.cv.queue.pc u).holds = true := by
  have hag := h.agrees u
  rw [hu] at hag
  cases hq : s.cv.queue.pc u <;> rw [hq] at hag <;> first | rfl | cases hag

/-- A uThread on the queue of the condition variable is a worker in `cv.wait`. -/
theorem Inv.wait_of_mem (h : Inv s) (hu : u ∈ s.cv.queue.bq) : s.pos u = .work .wait := by
  have hq := h.queue.queued u hu
  have hag := h.agrees u
  have hfits := h.fits u
  have hpc : s.cv.pc u = .waitSuspend := by
    cases hp : s.cv.queue.pc u <;> rw [hp] at hq hag <;> cases hq <;>
      cases hc : s.cv.pc u <;> rw [hc] at hag <;> first | rfl | cases hag
  rw [hpc] at hfits
  cases hx : s.pos u with
  | user => simp [hx, Pos.Fits] at hfits
  | work x => cases x <;> simp [hx, Pos.Fits] at hfits ⊢
  | submit b x => cases x <;> simp [hx, Pos.Fits] at hfits

omit [DecidableEq U] in
theorem not_queued_of_seeking {x : BlockingQueue.Pc U} (h : seeking x = true) :
    x.queued = false := by
  cases x <;> first | rfl | cases h

omit [DecidableEq K] in
theorem seeking_internal {q q' : BlockingQueue.State K U} (hi : BlockingQueue.Internal q q')
    (hu : seeking (q.pc u) = true) :
    seeking (q'.pc u) = true ∨ q'.pc u = .sigFalse ∨
      ∃ w l, q.bq = w :: l ∧ q'.bq = l ∧ q'.pc = Function.update q.pc u (.sigRelease w) := by
  cases hi with
  | quiet _ _ hpc =>
    rcases hpc u with he | hquiet
    · rw [he]
      exact .inl hu
    · generalize hx : q.pc u = x at hu hquiet
      generalize q'.pc u = y at hquiet
      cases hquiet with
      | empty => exact .inr (.inl rfl)
      | nonempty | front => exact .inl rfl
      | release hr => cases hr <;> cases hu
      | resume hr => cases hr <;> cases hu
      | _ => cases hu
  | @push v hv _ _ hpc =>
    left
    by_cases huv : u = v
    · rw [huv, hv] at hu
      cases hu
    · rw [hpc, Function.update_of_ne huv]
      exact hu
  | @take v w x y l hx ht hl hl' _ hpc =>
    by_cases huv : u = v
    · subst huv
      rw [hx] at hu
      cases ht with
      | pop => exact .inr (.inr ⟨w, l, hl, hl', hpc⟩)
      | remove => cases hu
    · left
      rw [hpc, Function.update_of_ne huv]
      exact hu

/-- A step inside the mutex or the condition variable: nobody comes to wait, and who is to signal
goes on, finds nobody waiting, or takes a uThread off the queue. -/
theorem internal_seeking (hI : (ConditionVariable.machine K U).Reachable c)
    {a : ConditionVariable.Action K U} (ha : a.internal = true)
    (hs : ConditionVariable.step c a = some c') :
    (∀ w, Waits c'.queue w → Waits c.queue w) ∧
      ∀ u, seeking (c.queue.pc u) = true → seeking (c'.queue.pc u) = true ∨
        c'.queue.pc u = .sigFalse ∨
        ∃ w l, c.queue.bq = w :: l ∧ c'.queue.bq = l ∧
          c'.queue.pc = Function.update c.queue.pc u (.sigRelease w) := by
  have hC := ConditionVariable.inv_reachable hI
  have hB := BlockingQueue.inv_reachable hC.queue
  cases ConditionVariable.step_cases hs with
  | ret => exact ⟨fun _ => id, fun _ => .inl⟩
  | @call a v b p y x q hc hv hq =>
    obtain ⟨hpc, hbq⟩ := hc.queue hB hq
    have hag := hC.agrees v
    rw [hv] at hag
    -- `wait` acquires the mutex again, or `signal` has found nobody.
    have hx : ¬x.Joining ∧ seeking (c.queue.pc v) = false := by
      cases hc <;> simp only [ConditionVariable.Action.internal, Bool.false_eq_true] at ha
      · refine ⟨by simp [BlockingQueue.Pc.Joining], ?_⟩
        cases hqv : c.queue.pc v <;> rw [hqv] at hag <;> first | rfl | cases hag
      · refine ⟨by simp [BlockingQueue.Pc.Joining], ?_⟩
        cases BlockingQueue.step_cases hB hq with
        | release hr => rcases hr with hr | hr <;> rw [hr] <;> rfl
    refine ⟨fun w hw => ?_, fun u hu => .inl ?_⟩
    · rcases hw with hw | hw
      · replace hw : (q.pc w).Joining := hw
        rw [hpc] at hw
        by_cases hwv : w = v
        · rw [hwv, Function.update_self] at hw
          exact absurd hw hx.1
        · rw [Function.update_of_ne hwv] at hw
          exact .inl hw
      · replace hw : w ∈ q.bq := hw
        rw [hbq] at hw
        exact .inr hw
    · have huv : u ≠ v := by
        rintro rfl
        simp [hx.2] at hu
      show seeking (q.pc u) = true
      rw [hpc, Function.update_of_ne huv]
      exact hu
  | queue hint hq =>
    obtain ⟨hi, -⟩ := BlockingQueue.internal_cases hint (BlockingQueue.step_cases hB hq)
    exact ⟨fun w hw => hi.waits_of hw, fun u hu => seeking_internal hi hu⟩

omit [DecidableEq K] [DecidableEq U] in
/-- Others move. -/
theorem Signalling.mono {v : U} (h : Signalling s v) (hpos : s'.pos v = s.pos v)
    (hpc : s'.cv.queue.pc v = s.cv.queue.pc v) : Signalling s' v := by
  unfold Signalling
  rw [hpos, hpc]
  exact h

omit [DecidableEq K] [DecidableEq U] in
/-- `u`, which is not to signal, moves; tasks are taken or none is queued. -/
theorem Served.goto (h : Served good s)
    (hgood : ∀ w ∈ s.workers, good (s.pos w) = true → s'.taskList ≠ [] → good (s'.pos w) = true)
    (htask : s'.taskList ≠ [] → s.taskList ≠ [])
    (hpos : ∀ v, v ≠ u → s'.pos v = s.pos v) (hcv : s'.cv = s.cv) (hu : ¬Signalling s u)
    (hworkers : ∀ w ∈ s.workers, w ∈ s'.workers) : Served good s' := by
  intro hne
  rcases h (htask hne) with ⟨v, hv⟩ | ⟨w, hw, hg, hnot⟩
  · refine .inl ⟨v, hv.mono (hpos v ?_) (by rw [hcv])⟩
    rintro rfl
    exact hu hv
  · exact .inr ⟨w, hworkers w hw, hgood w hw hg hne, by rw [hcv]; exact hnot⟩

omit [DecidableEq K] [DecidableEq U] in
/-- Who is in none of the two positions is not to signal. -/
theorem not_signalling {x : Pos F} (hx : s.pos u = x) (h : ∀ b, x ≠ .submit b .signal)
    (h' : ∀ b, x ≠ .submit b .signalling) : ¬Signalling s u := by
  rintro ⟨b, hs | hs⟩
  · exact h b (hx.symm.trans hs)
  · exact h' b (hx.symm.trans hs.1)

/-- A step inside the mutex or the condition variable. -/
theorem served_cv (hI : Inv s) (h : Served good s) (hwait : good (.work .wait) = true)
    (hex : ∀ u, (s.pos u).queuing = true → s.taskList ≠ [] → ∃ w ∈ s.workers, good (s.pos w) = true)
    {a : ConditionVariable.Action K U}
    (ha : a.internal = true) (hc : ConditionVariable.step s.cv a = some c) :
    Served good { s with cv := c } := by
  have hI' : Inv { s with cv := c } := inv_step hI (.cv ha hc)
  obtain ⟨hwaits, hseek⟩ := internal_seeking hI.cv ha hc
  intro hne
  rcases h hne with ⟨u, b, hu | ⟨hu, hs⟩⟩ | ⟨w, hw, hg, hnot⟩
  · exact .inl ⟨u, b, .inl hu⟩
  · rcases hseek u hs with hs' | hfalse | ⟨w, l, hl, hl', hpc⟩
    · exact .inl ⟨u, b, .inr ⟨hu, hs'⟩⟩
    · -- `u` has found nobody waiting, and owns the mutex: no worker is about to wait either.
      have hB : BlockingQueue.Inv c.queue := hI'.queue
      have hbq : c.queue.bq = [] := by
        have hview := hB.view u
        rwa [hfalse] at hview
      obtain ⟨w, hw, hg⟩ := hex u (by rw [hu]; rfl) hne
      refine .inr ⟨w, hw, hg, ?_⟩
      rintro (hj | hmem)
      · have hholds : (c.queue.pc w).holds = true := by rcases hj with hj | hj <;> rw [hj] <;> rfl
        have hwu : w = u := hB.holds_inj hholds (by rw [hfalse]; rfl)
        rw [hwu] at hj
        replace hj : (c.queue.pc u).Joining := hj
        rw [hfalse] at hj
        rcases hj with hj | hj <;> cases hj
      · replace hmem : w ∈ c.queue.bq := hmem
        rw [hbq] at hmem
        cases hmem
    · -- The first of the queue is taken off.
      have hmem : w ∈ s.cv.queue.bq := by
        rw [hl]
        exact List.mem_cons_self
      have hnodup := hI.queue.nodup
      rw [hl] at hnodup
      have hpos := hI.wait_of_mem hmem
      refine .inr ⟨w, (hI.workers w).mpr (by rw [hpos]; rfl), by rw [hpos]; exact hwait, ?_⟩
      have hq := hI.queue.queued w hmem
      have hwu : w ≠ u := by
        rintro rfl
        simp [not_queued_of_seeking hs] at hq
      rintro (hj | hm)
      · replace hj : (c.queue.pc w).Joining := hj
        rw [hpc, Function.update_of_ne hwu] at hj
        rcases hj with hj | hj <;> rw [hj] at hq <;> cases hq
      · replace hm : w ∈ c.queue.bq := hm
        rw [hl'] at hm
        exact (List.nodup_cons.mp hnodup).1 hm
  · exact .inr ⟨w, hw, hg, fun hw' => hnot (hwaits w hw')⟩

/-- A call moves the caller on the queue. It comes to wait only if there is no task. -/
theorem Calls.queue (hI : Inv s) {x y : Pos F} {a : ConditionVariable.Action K U}
    {p q : ConditionVariable.Pc} (hc : Calls s k u x y a p q)
    (hstep : ConditionVariable.step s.cv a = some c) :
    ∃ z, c.queue.pc = Function.update s.cv.queue.pc u z ∧ c.queue.bq = s.cv.queue.bq ∧
      (z.Joining → s.taskList = []) ∧ (∀ b, x = .submit b .signal → seeking z = true) := by
  cases hc <;> cases ConditionVariable.step_cases hstep with
  | @call _ _ _ _ _ z _ hcall _ hq =>
    obtain ⟨hpc, hbq⟩ := hcall.queue hI.queue hq
    refine ⟨z, ?_⟩
    cases hcall
    refine ⟨hpc, hbq, ?_, ?_⟩
    · first
        | exact fun _ => by assumption
        | simp [BlockingQueue.Pc.Joining]
    · simp [seeking]

theorem served_call (hI : Inv s) (h : Served good s) {x y : Pos F}
    {a : ConditionVariable.Action K U} {p q : ConditionVariable.Pc}
    (hgood : ∀ w ∈ s.workers, good (s.pos w) = true → s.taskList ≠ [] →
      good (Function.update s.pos u y w) = true) (hx : s.pos u = x) (hc : Calls s k u x y a p q)
    (hstep : ConditionVariable.step s.cv a = some c) :
    Served good ({ s with cv := c }.goto u y) := by
  obtain ⟨z, hpc, hbq, hjoin, hseek⟩ := hc.queue hI hstep
  intro hne
  rcases h hne with ⟨v, hv⟩ | ⟨w, hw, hg, hnot⟩
  · by_cases hvu : v = u
    · subst hvu
      obtain ⟨b, hb | ⟨hb, -⟩⟩ := hv
      · -- `signal` is called.
        have hxb : x = .submit b .signal := hx.symm.trans hb
        have hy : y = .submit b .signalling := by
          subst hxb
          cases hc
          rfl
        refine .inl ⟨v, b, .inr ⟨?_, ?_⟩⟩
        · rw [← hy]
          exact Function.update_self ..
        · show seeking (c.queue.pc v) = true
          rw [hpc, Function.update_self]
          exact hseek b hxb
      · have hxb : x = .submit b .signalling := hx.symm.trans hb
        subst hxb
        cases hc
    · refine .inl ⟨v, hv.mono (Function.update_of_ne hvu ..) ?_⟩
      show c.queue.pc v = _
      rw [hpc, Function.update_of_ne hvu]
  · refine .inr ⟨w, hw, hgood w hw hg hne, ?_⟩
    rintro (hj | hm)
    · replace hj : (c.queue.pc w).Joining := hj
      rw [hpc] at hj
      by_cases hwu : w = u
      · rw [hwu, Function.update_self] at hj
        exact hne (hjoin hj)
      · rw [Function.update_of_ne hwu] at hj
        exact hnot (.inl hj)
    · replace hm : w ∈ c.queue.bq := hm
      rw [hbq] at hm
      exact hnot (.inr hm)

theorem served_step (hI : Inv s) (h : Served good s) (hwait : good (.work .wait) = true)
    (hex : ∀ u, (s.pos u).queuing = true → s.taskList ≠ [] → ∃ w ∈ s.workers, good (s.pos w) = true)
    (hgood : ∀ w ∈ s.workers, good (s.pos w) = true → s'.taskList ≠ [] → good (s'.pos w) = true)
    {a : Action K U F} (hs : Step s a s') : Served good s' := by
  cases hs with
  | @execute u f b hx =>
    refine h.goto (u := u) hgood id (fun v hv => Function.update_of_ne hv ..) rfl
      (not_signalling hx ?_ ?_) fun _ => id <;> cases b <;> simp [Pos.back]
  | @spawn k u b t hx _ | @queue k u b t hx _ | @total k u b hx =>
    exact h.goto (u := u) hgood id (fun v hv => Function.update_of_ne hv ..) rfl
      (not_signalling hx (by simp) (by simp)) fun _ => id
  | @begin k u t hx | @finish k u t hx | @incr k u hx | @found k u hx _ | @decr k u hx
  | @start k u t hx _ =>
    exact h.goto (u := u) hgood id (fun v hv => Function.update_of_ne hv ..) rfl
      (not_signalling hx (by simp) (by simp)) fun _ => id
  | @take k u t ts hx hts =>
    exact h.goto (u := u) hgood (fun _ => by simp [hts])
      (fun v hv => Function.update_of_ne hv ..) rfl
      (not_signalling hx (by simp) (by simp)) fun _ => id
  | @create u w b t hu hw =>
    have hne : u ≠ w := by
      rintro rfl
      simp [hw] at hu
    intro htask
    rcases h htask with ⟨v, hv⟩ | ⟨v, hv, hg, hnot⟩
    · have hvu : v ≠ u := by
        rintro rfl
        exact not_signalling hu (by simp) (by simp) hv
      have hvw : v ≠ w := by
        rintro rfl
        exact not_signalling hw (by simp) (by simp) hv
      refine .inl ⟨v, hv.mono ?_ rfl⟩
      simp [State.goto, hvu, hvw]
    · exact .inr ⟨v, List.mem_append_left _ hv, hgood v hv hg htask, hnot⟩
  | @push k u b t hx => exact fun _ => .inl ⟨u, b, .inl (Function.update_self ..)⟩
  | call hx hc hstep => exact served_call hI h hgood hx hc hstep
  | @ret k u x y p hx hr hp =>
    refine h.goto (u := u) hgood id (fun v hv => Function.update_of_ne hv ..) rfl ?_ fun _ => id
    rintro ⟨b, hb | ⟨hb, hseek⟩⟩
    · rw [hx] at hb
      subst hb
      cases hr
    · -- `signal` has returned.
      rw [hx] at hb
      subst hb
      cases hr
      have hag := hI.agrees u
      rw [hp] at hag
      have hout : s.cv.queue.pc u = .out := by
        cases hq : s.cv.queue.pc u <;> rw [hq] at hag <;> first | rfl | cases hag
      rw [hout] at hseek
      cases hseek
  | cv ha hc => exact served_cv hI h hwait hex ha hc

/-- With the mutex unowned, nobody is to signal. -/
theorem Inv.not_signalling_of_unowned (hI : Inv s) (ho : s.cv.queue.mutex.owner = none) :
    ¬Signalling s u := by
  have hholds : (s.cv.queue.pc u).holds = false := by
    rw [← Bool.not_eq_true]
    intro hh
    simp [hI.queue.owner hh] at ho
  rintro ⟨b, hu | ⟨hu, hs⟩⟩
  · have hfits := hI.fits u
    rw [hu] at hfits
    simp [hI.holds_of_own hfits] at hholds
  · cases hq : s.cv.queue.pc u <;> simp_all [seeking, BlockingQueue.Pc.holds]

end Served

/-! ## The places of a task -/

inductive Place (U : Type*)
  /-- with the uThread that submits it -/
  | hands (u : U)
  /-- the argument of a worker that has not begun -/
  | argument (w : U)
  | list
  /-- taken by a worker, which runs it or has run it -/
  | taken (w : U)

/-- The task a submitter has still to pass on. -/
def Pos.hand : Pos F → Option (Task F)
  | .submit _ (.load t) | .submit _ (.create t) | .submit _ (.acquire t) => some t
  | .submit _ (.acquiring t) | .submit _ (.push t) => some t
  | _ => none

def Pos.argument : Pos F → Option (Task F)
  | .work (.created t) => some t
  | _ => none

/-- The task a worker has taken off the list and has still to run. -/
def Pos.held : Pos F → Option (Task F)
  | .work (.release t) | .work (.releasing t) => some t
  | _ => none

/-- Task `t` is at this place. -/
def At (s : State K U F) (t : Task F) : Place U → Prop
  | .hands u => (s.pos u).hand = some t
  | .argument w => (s.pos w).argument = some t
  | .list => t ∈ s.taskList
  | .taken w => (t, w) ∈ s.taken

/-- The submitted tasks are each at one place, and are run from the place `taken`. -/
structure Placed (s : State K U F) : Prop where
  placement : Placement (At s) (· ∈ s.submitted)
  numbered : s.submitted.map Task.number = List.range s.submitted.length
  list : s.taskList.Nodup
  ran : ∀ t ∈ s.ran, ∃ w, (t, w) ∈ s.taken
  once : s.ran.Nodup
  held : ∀ w t, (s.pos w).held = some t → (t, w) ∈ s.taken ∧ t ∉ s.ran

section Places

variable {s s' : State K U F} {k : K} {u : U} {t : Task F}

omit [DecidableEq K] [DecidableEq U] in
theorem Placed.newTask_not_mem (h : Placed s) (f : F) : s.newTask f ∉ s.submitted := by
  intro hmem
  have hnumber : s.submitted.length ∈ s.submitted.map Task.number :=
    List.mem_map_of_mem (f := Task.number) hmem
  rw [h.numbered] at hnumber
  simp at hnumber

omit [DecidableEq K] [DecidableEq U] in
/-- A task that nobody has taken has not run. -/
theorem Placed.not_ran (h : Placed s) {p : Place U} (hp : At s t p) (hne : ∀ w, p ≠ .taken w) :
    t ∉ s.ran := by
  intro hran
  obtain ⟨w, hw⟩ := h.ran t hran
  exact hne w (h.placement.unique hp hw)

omit [DecidableEq K] in
/-- What a uThread has of a task, after `u` has moved to `y`. -/
theorem pos_update {y : Pos F} (hpos : s'.pos = Function.update s.pos u y)
    (f : Pos F → Option (Task F)) (v : U) :
    f (s'.pos v) = some t ↔ v = u ∧ f y = some t ∨ v ≠ u ∧ f (s.pos v) = some t := by
  rw [hpos]
  by_cases hv : v = u
  · simp [hv]
  · simp [hv]

omit [DecidableEq K] in
/-- `u` moves, and no task changes its place. -/
theorem Placed.goto (h : Placed s) {x y : Pos F} (hx : s.pos u = x)
    (hpos : s'.pos = Function.update s.pos u y) (hhand : y.hand = x.hand)
    (harg : y.argument = x.argument) (hheld : y.held = x.held) (hlist : s'.taskList = s.taskList)
    (htaken : s'.taken = s.taken) (hran : s'.ran = s.ran) (hsub : s'.submitted = s.submitted) :
    Placed s' := by
  subst hx
  have hsame : ∀ f : Pos F → Option (Task F), f y = f (s.pos u) → ∀ v,
      f (s'.pos v) = f (s.pos v) := by
    intro f hf v
    rw [hpos]
    by_cases hv : v = u
    · rw [hv, Function.update_self, hf]
    · rw [Function.update_of_ne hv]
  refine ⟨?_, hsub ▸ h.numbered, hlist ▸ h.list, by rw [hran, htaken]; exact h.ran,
    hran ▸ h.once, ?_⟩
  · rw [hsub]
    refine h.placement.frame fun t p => ?_
    cases p with
    | hands v => simp only [At, hsame Pos.hand hhand v]
    | argument v => simp only [At, hsame Pos.argument harg v]
    | list => simp only [At, hlist]
    | taken v => simp only [At, htaken]
  · intro w t hw
    rw [hsame Pos.held hheld w] at hw
    rw [hran, htaken]
    exact h.held w t hw

omit [DecidableEq K] in
/-- Who comes to a position without a task taken off the list leaves the others theirs. -/
theorem Placed.held_of_update (h : Placed s) {y : Pos F} (hpos : s'.pos = Function.update s.pos u y)
    (hy : y.held = none) {w : U} (hw : (s'.pos w).held = some t) :
    (t, w) ∈ s.taken ∧ t ∉ s.ran := by
  rcases (pos_update hpos Pos.held w).mp hw with ⟨-, hy'⟩ | ⟨-, hw⟩
  · simp [hy] at hy'
  · exact h.held w t hw

omit [DecidableEq K] in
/-- A task is submitted. -/
theorem placed_execute (h : Placed s) {f : F} {b : Option (Task F)} (hx : s.pos u = .back b) :
    Placed ({ s with submitted := s.submitted ++ [s.newTask f] }.goto u
      (.submit b (.load (s.newTask f)))) := by
  have hnone : (s.pos u).hand = none ∧ (s.pos u).argument = none := by
    rw [hx]
    cases b <;> exact ⟨rfl, rfl⟩
  refine ⟨h.placement.enter (q := .hands u) (· = s.newTask f) ?_ (by simp [State.goto]) ?_,
    ?_, h.list, h.ran, h.once, fun w t => h.held_of_update rfl rfl⟩
  · rintro t rfl
    exact h.newTask_not_mem f
  · intro t p
    cases p with
    | hands v =>
      simp only [At]
      rw [pos_update rfl Pos.hand v]
      grind [Pos.hand]
    | argument v =>
      simp only [At]
      rw [pos_update rfl Pos.argument v]
      grind [Pos.argument]
    | list | taken => simp [At, State.goto]
  · simp [State.goto, h.numbered, State.newTask, List.range_succ]

omit [DecidableEq K] in
/-- A submitter passes its task on to a new worker. -/
theorem placed_create (h : Placed s) {w : U} {b : Option (Task F)}
    (hu : s.pos u = .submit b (.create t)) (hw : s.pos w = .user) :
    Placed (({ s with workers := s.workers ++ [w] }.goto w (.work (.created t))).goto u
      (.submit b .total)) := by
  have hne : u ≠ w := by
    rintro rfl
    simp [hw] at hu
  refine ⟨h.placement.move (t := t) (p := .hands u) (q := .argument w)
    (by simp [At, hu, Pos.hand]) ?_, h.numbered, h.list, h.ran, h.once, ?_⟩
  · intro t p
    cases p with
    | hands v =>
      simp only [At]
      rw [pos_update rfl Pos.hand v, pos_update rfl Pos.hand v]
      grind [Pos.hand]
    | argument v =>
      simp only [At]
      rw [pos_update rfl Pos.argument v, pos_update rfl Pos.argument v]
      grind [Pos.argument]
    | list | taken => simp [At, State.goto]
  · intro v x hv
    rw [pos_update rfl Pos.held v, pos_update rfl Pos.held v] at hv
    rcases hv with ⟨-, hv⟩ | ⟨-, ⟨-, hv⟩ | ⟨-, hv⟩⟩
    · cases hv
    · cases hv
    · exact h.held v x hv

omit [DecidableEq K] in
/-- A submitter passes its task on to the list. -/
theorem placed_push (h : Placed s) {b : Option (Task F)} (hx : s.pos u = .submit b (.push t)) :
    Placed ({ s with taskList := s.taskList ++ [t], pending := s.pending - 1 }.goto u
      (.submit b .signal)) := by
  have hat : At s t (.hands u) := by simp [At, hx, Pos.hand]
  have hnew : t ∉ s.taskList := by
    intro hmem
    have hlist : At s t .list := hmem
    cases h.placement.unique hat hlist
  refine ⟨h.placement.move (t := t) (p := .hands u) (q := .list) hat ?_, h.numbered, ?_,
    h.ran, h.once,
    fun w t => h.held_of_update rfl rfl⟩
  · intro t p
    cases p with
    | hands v =>
      simp only [At]
      rw [pos_update rfl Pos.hand v]
      grind [Pos.hand]
    | argument v =>
      simp only [At]
      rw [pos_update rfl Pos.argument v]
      grind [Pos.argument]
    | list =>
      simp [At, State.goto]
      tauto
    | taken => simp [At, State.goto]
  · simp only [State.goto]
    exact List.nodup_append.mpr ⟨h.list, List.nodup_singleton t, by grind⟩

omit [DecidableEq K] in
/-- A worker begins with its argument. -/
theorem placed_begin (h : Placed s) (hx : s.pos u = .work (.created t)) :
    Placed ({ s with taken := s.taken ++ [(t, u)], ran := s.ran ++ [t] }.goto u
      (.work (.running t))) := by
  have hat : At s t (.argument u) := by simp [At, hx, Pos.argument]
  have hnew : t ∉ s.ran := h.not_ran hat (by simp)
  refine ⟨h.placement.move (t := t) (p := .argument u) (q := .taken u) hat ?_, h.numbered, h.list,
    ?_, ?_, ?_⟩
  · intro t p
    cases p with
    | hands v =>
      simp only [At]
      rw [pos_update rfl Pos.hand v]
      grind [Pos.hand]
    | argument v =>
      simp only [At]
      rw [pos_update rfl Pos.argument v]
      grind [Pos.argument]
    | list => simp [At, State.goto]
    | taken v =>
      simp [At, State.goto]
      tauto
  · simp only [State.goto]
    grind [h.ran]
  · simp only [State.goto]
    exact List.nodup_append.mpr ⟨h.once, List.nodup_singleton t, by grind⟩
  · intro w x hw
    obtain ⟨hmem, hran⟩ := h.held_of_update (u := u) (y := .work (.running t)) rfl rfl hw
    refine ⟨List.mem_append_left _ hmem, ?_⟩
    have hne : x ≠ t := by
      rintro rfl
      have htaken : At s x (.taken w) := hmem
      cases h.placement.unique hat htaken
    simp [State.goto, hran, hne]

omit [DecidableEq K] in
/-- A worker takes the first task of the list. -/
theorem placed_take (h : Placed s) {ts : List (Task F)} (hx : s.pos u = .work .take)
    (hts : s.taskList = t :: ts) :
    Placed ({ s with taskList := ts, taken := s.taken ++ [(t, u)] }.goto u
    (.work (.release t))) := by
  have hat : At s t .list := by simp [At, hts]
  have hnew : t ∉ s.ran := h.not_ran hat (by simp)
  have hlist := h.list
  rw [hts] at hlist
  obtain ⟨hnot, hts'⟩ := List.nodup_cons.mp hlist
  refine ⟨h.placement.move (t := t) (p := .list) (q := .taken u) hat ?_, h.numbered, hts', ?_,
    h.once, ?_⟩
  · intro t p
    cases p with
    | hands v =>
      simp only [At]
      rw [pos_update rfl Pos.hand v]
      grind [Pos.hand]
    | argument v =>
      simp only [At]
      rw [pos_update rfl Pos.argument v]
      grind [Pos.argument]
    | list =>
      simp [At, State.goto, hts]
      grind
    | taken v =>
      simp [At, State.goto]
      tauto
  · intro x hran
    obtain ⟨w, hw⟩ := h.ran x hran
    exact ⟨w, List.mem_append_left _ hw⟩
  · intro w x hw
    rcases (pos_update rfl Pos.held w).mp hw with ⟨hwu, hw⟩ | ⟨-, hw⟩
    · obtain rfl : t = x := Option.some.inj hw
      rw [hwu]
      exact ⟨by simp [State.goto], hnew⟩
    · obtain ⟨hmem, hran⟩ := h.held w x hw
      exact ⟨List.mem_append_left _ hmem, hran⟩

omit [DecidableEq K] in
/-- A worker runs the task it has taken. -/
theorem placed_start (h : Placed s) (hx : s.pos u = .work (.releasing t)) :
    Placed ({ s with ran := s.ran ++ [t] }.goto u (.work (.running t))) := by
  obtain ⟨hmem, hnew⟩ := h.held u t (by rw [hx]; rfl)
  refine ⟨h.placement.frame ?_, h.numbered, h.list, ?_, ?_, ?_⟩
  · intro t p
    cases p with
    | hands v =>
      simp only [At]
      rw [pos_update rfl Pos.hand v]
      grind [Pos.hand]
    | argument v =>
      simp only [At]
      rw [pos_update rfl Pos.argument v]
      grind [Pos.argument]
    | list | taken => simp [At, State.goto]
  · simp only [State.goto]
    grind [h.ran]
  · simp only [State.goto]
    exact List.nodup_append.mpr ⟨h.once, List.nodup_singleton t, by grind⟩
  · intro w x hw
    rcases (pos_update rfl Pos.held w).mp hw with ⟨-, hw⟩ | ⟨hwu, hw⟩
    · cases hw
    · obtain ⟨hmem', hran⟩ := h.held w x hw
      refine ⟨hmem', ?_⟩
      have hne : x ≠ t := by
        rintro rfl
        have hw' : At s x (.taken w) := hmem'
        have hu' : At s x (.taken u) := hmem
        exact hwu (Place.taken.inj (h.placement.unique hw' hu'))
      simp [State.goto, hran, hne]

omit [DecidableEq U] in
theorem Pos.nothing_back (b : Option (Task F)) :
    (Pos.back b).hand = none ∧ (Pos.back b).argument = none ∧ (Pos.back b).held = none := by
  cases b <;> exact ⟨rfl, rfl, rfl⟩

theorem placed_step (h : Placed s) {a : Action K U F} (hs : Step s a s') : Placed s' := by
  cases hs with
  | execute hx => exact placed_execute h hx
  | create hu hw => exact placed_create h hu hw
  | push hx => exact placed_push h hx
  | begin hx => exact placed_begin h hx
  | take hx hts => exact placed_take h hx hts
  | start hx _ => exact placed_start h hx
  | spawn hx _ | queue hx _ => exact h.goto hx rfl rfl rfl rfl rfl rfl rfl rfl
  | finish hx | incr hx | decr hx => exact h.goto hx rfl rfl rfl rfl rfl rfl rfl rfl
  | found hx _ => exact h.goto hx rfl rfl rfl rfl rfl rfl rfl rfl
  | @total k u b hx =>
    obtain ⟨hhand, harg, hheld⟩ := Pos.nothing_back b
    exact h.goto hx rfl hhand harg hheld rfl rfl rfl rfl
  | call hx hc _ => cases hc <;> exact h.goto hx rfl rfl rfl rfl rfl rfl rfl rfl
  | ret hx hr _ =>
    cases hr with
    | @signal b =>
      obtain ⟨hhand, harg, hheld⟩ := Pos.nothing_back b
      exact h.goto hx rfl hhand harg hheld rfl rfl rfl rfl
    | submit | acquire | wait => exact h.goto hx rfl rfl rfl rfl rfl rfl rfl rfl
  | cv _ _ => exact ⟨h.placement, h.numbered, h.list, h.ran, h.once, h.held⟩

end Places

/-! ## A worker that takes a task finds one -/

/-- Between the test of `taskList` and the `pop`. -/
def Pos.taking : Pos F → Bool
  | .work .decr | .work .take => true
  | _ => false

def Found (s : State K U F) : Prop := ∀ u, (s.pos u).taking = true → s.taskList ≠ []

section Found

variable {s s' : State K U F} {k : K} {u : U}

/-- Who is between the test and the `pop` owns the mutex. -/
theorem Inv.holds_of_taking (hI : Inv s) (h : (s.pos u).taking = true) :
    (s.cv.queue.pc u).holds = true := by
  refine hI.holds_of_own ?_
  have hfits := hI.fits u
  cases hx : s.pos u with
  | work x => cases x <;> simp_all [Pos.taking, Pos.Fits]
  | user | submit => simp [hx, Pos.taking] at h

omit [DecidableEq K] in
/-- `u` moves, and no task is taken. -/
theorem Found.goto (h : Found s) {y : Pos F} (hpos : s'.pos = Function.update s.pos u y)
    (hlist : s.taskList ≠ [] → s'.taskList ≠ [])
    (hy : y.taking = true → s.taskList ≠ []) : Found s' := by
  intro v hv
  rw [hpos] at hv
  by_cases hvu : v = u
  · rw [hvu, Function.update_self] at hv
    exact hlist (hy hv)
  · rw [Function.update_of_ne hvu] at hv
    exact hlist (h v hv)

theorem found_step (hI : Inv s) (h : Found s) {a : Action K U F} (hs : Step s a s') : Found s' := by
  cases hs with
  | execute | spawn | queue => exact h.goto rfl id (by simp [Pos.taking])
  | begin | finish | incr | start => exact h.goto rfl id (by simp [Pos.taking])
  | @create u w b t hu hw =>
    have hcreated : Found ({ s with workers := s.workers ++ [w] }.goto w (.work (.created t))) :=
      h.goto rfl id (by simp [Pos.taking])
    exact hcreated.goto rfl id (by simp [Pos.taking])
  | @total k u b => exact h.goto rfl id (by cases b <;> simp [Pos.taking, Pos.back])
  | push => exact h.goto rfl (fun _ => by simp [State.goto]) (by simp [Pos.taking])
  | found _ hne => exact h.goto rfl id fun _ => hne
  | @decr k u hx => exact h.goto rfl id fun _ => h u (by rw [hx]; rfl)
  | @take k u t ts hx hts =>
    -- Nobody else owns the mutex.
    intro v hv
    have hu : (s.pos u).taking = true := by
      rw [hx]
      rfl
    by_cases hvu : v = u
    · simp [hvu, State.goto, Pos.taking] at hv
    · simp only [State.goto, Function.update_of_ne hvu] at hv
      exact absurd (hI.queue.holds_inj (hI.holds_of_taking hv) (hI.holds_of_taking hu)) hvu
  | call _ hc _ => exact h.goto rfl id (by cases hc <;> simp [Pos.taking])
  | ret _ hr _ =>
    refine h.goto rfl id ?_
    cases hr with
    | @signal b => cases b <;> simp [Pos.taking, Pos.back]
    | submit | acquire | wait => simp [Pos.taking]
  | cv => exact h

end Found

/-! ## The results -/

section Results

variable {s : State K U F}

theorem inv_reachable (h : (machine K U F).Reachable s) : Inv s := by
  refine Machine.Reachable.invariant (I := Inv) ?_
    (fun _ _ _ hI hs => inv_step hI (step_cases hs)) h
  rintro s rfl
  exact ⟨.of_init rfl, fun _ => rfl, List.nodup_nil, by simp [initial, Pos.worker], rfl,
    by simp [initial, Pos.queuing]⟩

theorem found_reachable (h : (machine K U F).Reachable s) : Found s := by
  refine (Machine.Reachable.invariant (I := fun s => Inv s ∧ Found s) ?_ ?_ h).2
  · rintro s rfl
    exact ⟨inv_reachable (.of_init rfl), by simp [Found, initial, Pos.taking]⟩
  · rintro s a s' ⟨hI, hF⟩ hs
    exact ⟨inv_step hI (step_cases hs), found_step hI hF (step_cases hs)⟩

theorem served_reachable (h : (machine K U F).Reachable s) : Served (fun _ => true) s := by
  refine (Machine.Reachable.invariant (I := fun s => Inv s ∧ Served (fun _ => true) s) ?_ ?_ h).2
  · rintro s rfl
    exact ⟨inv_reachable (.of_init rfl), by simp [Served, initial]⟩
  · rintro s a s' ⟨hI, hS⟩ hs
    refine ⟨inv_step hI (step_cases hs), served_step hI hS rfl (fun u hu _ => ?_)
      (fun _ _ _ _ => rfl) (step_cases hs)⟩
    obtain ⟨w, hw⟩ := List.exists_mem_of_ne_nil _ (hI.queuing u hu)
    exact ⟨w, hw, rfl⟩

theorem placed_reachable (h : (machine K U F).Reachable s) : Placed s := by
  refine Machine.Reachable.invariant (I := Placed) ?_
    (fun _ _ _ hP hs => placed_step hP (step_cases hs)) h
  rintro s rfl
  refine ⟨⟨by simp [initial], fun t p hp => ?_⟩, rfl, List.nodup_nil, by simp [initial],
    List.nodup_nil, by simp [initial, Pos.held]⟩
  cases p <;> simp [At, initial, Pos.hand, Pos.argument] at hp

/-- The number of workers between `idleuThreads++` and their next `idleuThreads--`. -/
def State.idleWorkers (s : State K U F) : ℕ := tally Pos.idle s.workers s.pos

/-- The tasks of the pool are run once, and none is stranded. -/
structure TasksServed (s : State K U F) : Prop where
  /-- Each task is in the hands of its submitter, the argument of a worker, in `taskList` or taken
  by one worker. -/
  one_place : ∀ t ∈ s.submitted, ∃! p, At s t p
  /-- Two submissions are two tasks. -/
  numbers : (s.submitted.map Task.number).Nodup
  once : s.ran.Nodup
  /-- What is run has been submitted, and taken by a worker. -/
  ran : ∀ t ∈ s.ran, t ∈ s.submitted ∧ ∃ w, (t, w) ∈ s.taken
  idle : s.idleuThreads.toNat = s.idleWorkers % 2 ^ 32
  /-- `idleuThreads--` does not underflow. -/
  decr : ∀ w, s.pos w = .work .decr → s.idleWorkers < 2 ^ 32 → s.idleuThreads ≠ 0
  /-- `taskList.front()` is not called on an empty list. -/
  found : ∀ w, s.pos w = .work .take → s.taskList ≠ []
  /-- With the mutex unowned and a task queued, some worker is not parked. -/
  served : s.cv.queue.mutex.owner = none → s.taskList ≠ [] → ∃ w ∈ s.workers, w ∉ s.cv.queue.bq

theorem Inv.idle_toNat (h : Inv s) : s.idleuThreads.toNat = s.idleWorkers % 2 ^ 32 := by
  rw [h.idle]
  exact BitVec.toNat_ofNat ..

theorem Inv.idleWorkers_pos (h : Inv s) {w : U} (hw : (s.pos w).idle = true) : 0 < s.idleWorkers :=
  tally.pos_of_mem ((h.workers w).mpr (Pos.worker_of_idle hw)) hw

/-- **The pool runs every task at most once and strands none.** -/
theorem tasks_served (h : (machine K U F).Reachable s) : TasksServed s := by
  have hI := inv_reachable h
  have hP := placed_reachable h
  refine ⟨hP.placement.one, ?_, hP.once, fun t ht => ?_, hI.idle_toNat, fun w hw hlt hz => ?_,
    fun w hw => found_reachable h w (by rw [hw]; rfl), fun ho hne => ?_⟩
  · rw [hP.numbered]
    exact List.nodup_range
  · obtain ⟨w, hw⟩ := hP.ran t ht
    exact ⟨hP.placement.item t (.taken w) hw, w, hw⟩
  · have hpos := hI.idleWorkers_pos (w := w) (by rw [hw]; rfl)
    have htoNat := hI.idle_toNat
    rw [Nat.mod_eq_of_lt hlt, hz] at htoNat
    simp [← htoNat] at hpos
  · rcases served_reachable h hne with ⟨u, hu⟩ | ⟨w, hw, -, hnot⟩
    · exact absurd hu (hI.not_signalling_of_unowned ho)
    · exact ⟨w, hw, fun hmem => hnot (.inr hmem)⟩

/-- uThread `u`, on kThread `u`, takes the mutex. -/
def takes (u : ℕ) : List (Action ℕ ℕ ℕ) :=
  List.replicate 4 (.cv (.queue (.mutex u))) ++ [.cv (.queue (.run u u)), .cv (.run u u)]

/-- uThread `0` submits a task, for which worker `1` is created. It runs the task and waits for
another. -/
def parked : List (Action ℕ ℕ ℕ) :=
  List.flatten [[.execute 0 7, .run 0 0, .create 0 1, .run 0 0],
    List.replicate 4 (.run 1 1), takes 1,
    [.run 1 1, .run 1 1], List.replicate 3 (.cv (.queue (.run 1 1))),
    List.replicate 4 (.cv (.queue (.mutex 1)))]

/-- uThread `0` queues a task, and its signal takes worker `1` off the queue. -/
def queued : List (Action ℕ ℕ ℕ) :=
  List.flatten [[.execute 0 8, .run 0 0, .run 0 0], takes 0, List.replicate 3 (.run 0 0),
    List.replicate 4 (.cv (.queue (.run 0 0))), List.replicate 4 (.cv (.queue (.mutex 0))),
    [.cv (.queue (.run 0 0)), .cv (.queue (.run 0 0)), .cv (.run 0 0), .run 0 0]]

/-- Worker `1` wakes up, takes a task and runs it. -/
def serves : List (Action ℕ ℕ ℕ) :=
  List.flatten [[.cv (.queue (.dispatch 1)), .cv (.run 1 1)], takes 1, List.replicate 5 (.run 1 1),
    [.cv (.queue (.run 1 1))], List.replicate 4 (.cv (.queue (.mutex 1))),
    [.cv (.queue (.run 1 1)), .cv (.run 1 1), .run 1 1]]

theorem tasks_served_twoTasks :
    ∃ s : State ℕ ℕ ℕ, (machine ℕ ℕ ℕ).Reachable s ∧ s.ran = [⟨0, 7⟩, ⟨1, 8⟩] ∧
      s.taken = [(⟨0, 7⟩, 1), (⟨1, 8⟩, 1)] ∧ s.idleuThreads = 0 ∧ TasksServed s := by
  have hinit : (machine ℕ ℕ ℕ).Reachable initial := .of_init rfl
  have hr := hinit.get (parked ++ queued ++ serves) (by decide +kernel)
  exact ⟨_, hr, by decide +kernel, by decide +kernel, by decide +kernel, tasks_served hr⟩

end Results

/-! ## The counter of the idle workers wraps -/

/-- uThread `0` has had workers `1` to `n` created. The first `m` of them have run their task. -/
structure Spawned (n m : ℕ) (s : State ℕ ℕ ℕ) : Prop where
  submitter : s.pos 0 = .user
  workers : s.workers = List.range' 1 n
  waiting : ∀ w, 1 ≤ w → w ≤ m → s.pos w = .work .acquire
  created : ∀ w, m < w → w ≤ n → ∃ t, s.pos w = .work (.created t)
  others : ∀ w, n < w → s.pos w = .user
  idle : m = 0 → s.idleuThreads = 0

theorem Spawned.spawn {n : ℕ} {s : State ℕ ℕ ℕ} (h : Spawned n 0 s) :
    ∃ s', (machine ℕ ℕ ℕ).run s [.execute 0 7, .run 0 0, .create 0 (n + 1), .run 0 0] = some s' ∧
      Spawned (n + 1) 0 s' := by
  have hw := h.others (n + 1) (by omega)
  generalize hr : (machine ℕ ℕ ℕ).run s _ = r
  simp [Machine.run, machine, step, submit, h.submitter, hw, h.idle rfl, State.goto, Pos.back] at hr
  subst hr
  refine ⟨_, rfl, ?_, ?_, ?_, ?_, ?_, ?_⟩
  · simp
  · simp [h.workers, List.range'_concat]
    omega
  · intro w h1 h2
    omega
  · intro w h1 h2
    by_cases hwn : w = n + 1
    · subst hwn
      simp
    · obtain ⟨t, ht⟩ := h.created w h1 (by omega)
      have hw0 : w ≠ 0 := by omega
      exact ⟨t, by simp [hw0, hwn, ht]⟩
  · intro w hwn
    have hw0 : w ≠ 0 := by omega
    have hw1 : w ≠ n + 1 := by omega
    simp [hw0, hw1, h.others w (by omega)]
  · exact fun _ => rfl

theorem Spawned.finish {n m : ℕ} {s : State ℕ ℕ ℕ} (h : Spawned n m s) (hm : m < n) :
    ∃ s', (machine ℕ ℕ ℕ).run s (List.replicate 3 (.run 0 (m + 1))) = some s' ∧
      Spawned n (m + 1) s' := by
  obtain ⟨t, ht⟩ := h.created (m + 1) (by omega) (by omega)
  generalize hr : (machine ℕ ℕ ℕ).run s _ = r
  simp [Machine.run, machine, step, work, ht, State.goto] at hr
  subst hr
  refine ⟨_, rfl, ?_, h.workers, ?_, ?_, ?_, ?_⟩
  · simp [h.submitter]
  · intro w h1 h2
    by_cases hwm : w = m + 1
    · simp [hwm]
    · simp [hwm, h.waiting w h1 (by omega)]
  · intro w h1 h2
    obtain ⟨t, ht⟩ := h.created w (by omega) h2
    have hwm : w ≠ m + 1 := by omega
    exact ⟨t, by simp [hwm, ht]⟩
  · intro w hwn
    have hwm : w ≠ m + 1 := by omega
    simp [hwm, h.others w hwn]
  · simp

theorem spawned_reachable (n m : ℕ) (hm : m ≤ n) :
    ∃ s, (machine ℕ ℕ ℕ).Reachable s ∧ Spawned n m s := by
  induction m with
  | zero =>
    induction n with
    | zero =>
      refine ⟨initial, .of_init rfl, rfl, rfl, ?_, ?_, fun _ _ => rfl, fun _ => rfl⟩
      · intro w h1 h2
        omega
      · intro w h1 h2
        omega
    | succ n ih =>
      obtain ⟨s, hr, hs⟩ := ih (Nat.zero_le n)
      obtain ⟨s', hrun, hs'⟩ := hs.spawn
      exact ⟨s', hr.run hrun, hs'⟩
  | succ m ih =>
    obtain ⟨s, hr, hs⟩ := ih (by omega)
    obtain ⟨s', hrun, hs'⟩ := hs.finish (by omega)
    exact ⟨s', hr.run hrun, hs'⟩

/-- **The counter wraps.** With 2^32 idle workers `idleuThreads` is 0. -/
theorem idle_wraps :
    ∃ s : State ℕ ℕ ℕ, (machine ℕ ℕ ℕ).Reachable s ∧ s.idleWorkers = 2 ^ 32 ∧
    s.idleuThreads = 0 := by
  obtain ⟨s, hr, hs⟩ := spawned_reachable (2 ^ 32) (2 ^ 32) (Nat.le_refl _)
  have hcount : s.idleWorkers = 2 ^ 32 := by
    have hall : ∀ w ∈ s.workers, (s.pos w).idle = true := by
      intro w hw
      rw [hs.workers, List.mem_range'_1] at hw
      rw [hs.waiting w hw.1 (by omega)]
      rfl
    have hlength : s.workers.length = 2 ^ 32 := by rw [hs.workers, List.length_range']
    exact (List.countP_eq_length.mpr hall).trans hlength
  refine ⟨s, hr, hcount, ?_⟩
  have htoNat := (inv_reachable hr).idle_toNat
  rw [hcount, Nat.mod_self] at htoNat
  exact BitVec.eq_of_toNat_eq htoNat

end UThreads.UThreadPool
