import UThreads.Lib.Word
import UThreads.Sync.OwnerLock
import UThreads.Sync.MutexClient
import Mathlib.Algebra.Group.Nat.Defs

/-!
# `OwnerLock`: correctness

The proof forgets the nested calls. What is left are the calls of a plain mutex: **`base_step`** and
`Inv.inner` say that every step is a step of the plain mutex or one that it does not see, so the
state without the nested calls is a reachable state of the plain mutex.

* **`recursive_lock`**: below 2^64 nested acquisitions, the lock is a correct recursive lock.
* **`depth_wraps`**: 2^64 acquisitions deep, the counter comes to 0.
-/

namespace UThreads.OwnerLock

variable {K U : Type*} [DecidableEq K] [DecidableEq U]

/-! ## The outermost calls -/

/-- `u` has counted acquisitions that it has not released. -/
def Holds (s : State K U) (u : U) : Prop := s.decs u < s.incs u

/-- The uThread a kThread runs `internalAcquire` for, up to its return or suspension. -/
def acquirer : Mutex.Act U → Option U
  | .acqLock u | .acqTest u | .acqSet u | .acqUnlock u => some u
  | _ => none

def Rel.caller : Rel U → Option U
  | .idle => none
  | .lock u | .dec u | .unlock u => some u

def Rel.locked : Rel U → Bool
  | .dec _ | .unlock _ => true
  | _ => false

/-- kThread `k` is in a call of `u` that a plain mutex does not see: a nested `acquire`, or a
`release` that has not found the counter at 0. -/
def Nested (s : State K U) (k : K) (u : U) : Prop :=
  (s.rel k).caller = some u ∨ acquirer (s.base.act k) = some u ∧ Holds s u

/-- `m` is the lock without its nested calls. -/
structure Outer (s : State K U) (m : Mutex.State K U) : Prop where
  lock : ∀ k, m.lock = some k ↔ s.base.lock = some k ∧ ∀ u, ¬Nested s k u
  owner : m.owner = s.base.owner
  bq : m.bq = s.base.bq
  act : ∀ k, (∀ u, ¬Nested s k u) → m.act k = s.base.act k
  nested : ∀ k u, Nested s k u → m.act k = .idle
  status : ∀ u, ¬Holds s u → m.status u = s.base.status u
  held : ∀ u, Holds s u → m.status u = .inside
  arrivals : m.arrivals = s.arrivals
  grants : m.grants = s.grants

/-- The statuses of a uThread in a call, given whether it holds the lock. -/
def Pos.Fits (holds : Prop) : Pos → Mutex.Status → Prop
  | .user, .inside => holds
  | .user, .out => ¬holds
  | .acquire, .acquiring | .acquire, .inside => True
  | .acquire, .waiting | .acquire, .ready => ¬holds
  | .release, .releasing => holds
  | .released, .releasing => True
  | .released, .inside => holds
  | .released, .out => ¬holds
  | _, _ => False

/-- What the position of kThread `k` in `release` says. -/
def View (s : State K U) (k : K) : Rel U → Prop
  | .idle => True
  | .lock u | .dec u =>
    s.base.act k = .idle ∧ Holds s u ∧ s.base.status u = .releasing ∧ s.pos u = .release
  | .unlock u =>
    s.base.act k = .idle ∧ Holds s u ∧ s.base.status u = .releasing ∧ s.pos u = .released

structure Inv (s : State K U) (m : Mutex.State K U) : Prop where
  reach : (Mutex.machine K U).Reachable m
  outer : Outer s m
  view : ∀ k, View s k (s.rel k)
  acquiring : ∀ k u, acquirer (s.base.act k) = some u → Holds s u → s.base.status u = .acquiring
  /-- A uThread is in one call at a time. -/
  inj : ∀ k k' u, Nested s k u → Nested s k' u → k = k'
  locked : ∀ k u, Nested s k u →
    (s.base.lock = some k ↔ ((s.rel k).locked || (s.base.act k).locked) = true)
  fits : ∀ u, (s.pos u).Fits (Holds s u) (s.base.status u)
  count : ∀ u, s.decs u + s.depth u + (if s.pos u = .release then 1 else 0) = s.incs u
  counter : ∀ u, s.base.owner = some u → s.counter.toNat + s.decs u = s.incs u
  free : s.base.owner = none → s.counter = 0

section Facts

variable {s s' : State K U} {m m' : Mutex.State K U} {k : K} {u : U}

omit [DecidableEq K] [DecidableEq U] in
theorem View.caller {r : Rel U} (h : View s k r) (hu : r.caller = some u) :
    s.base.act k = .idle ∧ Holds s u ∧ s.base.status u = .releasing := by
  cases r <;> simp only [Rel.caller, Option.some.injEq, reduceCtorEq] at hu <;> subst hu <;>
    exact ⟨h.1, h.2.1, h.2.2.1⟩

theorem Inv.mutex (h : Inv s m) : Mutex.Inv m := Mutex.inv_reachable h.reach

theorem Inv.owner_of_holds (h : Inv s m) (hu : Holds s u) : s.base.owner = some u := by
  rw [← h.outer.owner]
  exact h.mutex.owns u (.inl (h.outer.held u hu))

theorem Inv.holds_of_nested (h : Inv s m) (hk : Nested s k u) : Holds s u := by
  rcases hk with hr | ha
  · exact ((h.view k).caller hr).2.1
  · exact ha.2

theorem Inv.busy_of_nested (h : Inv s m) (hk : Nested s k u) :
    s.base.status u = .acquiring ∨ s.base.status u = .releasing := by
  rcases hk with hr | ha
  · exact .inr ((h.view k).caller hr).2.2
  · exact .inl (h.acquiring k u ha.1 ha.2)

/-- Only the owner has nested calls, so there is at most one. -/
theorem Inv.nested_unique (h : Inv s m) {k' : K} {v : U} (hk : Nested s k u) (hk' : Nested s k' v) :
    k' = k ∧ v = u := by
  have hu := h.owner_of_holds (h.holds_of_nested hk)
  have hv := h.owner_of_holds (h.holds_of_nested hk')
  obtain rfl := Option.some.inj (hu.symm.trans hv)
  exact ⟨h.inj k' k u hk' hk, rfl⟩

theorem Inv.lock_outer (h : Inv s m) (hl : s.base.lock = none) : m.lock = none := by
  rw [Option.eq_none_iff_forall_ne_some]
  intro k hk
  have hb := ((h.outer.lock k).mp hk).1
  simp [hl] at hb

/-- A kThread in no call does not hold the internal lock. -/
theorem Inv.lock_ne (h : Inv s m) (ha : s.base.act k = .idle) (hr : s.rel k = .idle) :
    s.base.lock ≠ some k := by
  intro hl
  have hk : ∀ v, ¬Nested s k v := by simp [Nested, ha, hr, Rel.caller, acquirer]
  have hm : m.lock = some k := (h.outer.lock k).mpr ⟨hl, hk⟩
  have hact : m.act k = .idle := (h.outer.act k hk).trans ha
  exact h.mutex.not_lock_of hact rfl hm

theorem holds_onBase (h : Inv s m) {b : Mutex.State K U} (v : U) :
    Holds (s.onBase k b) v ↔ Holds s v := by
  show (if b.owner = some v ∧ s.base.owner ≠ some v then 0 else s.decs v) <
    (if b.owner = some v ∧ s.base.owner ≠ some v then 0 else s.incs v) ↔ _
  split_ifs with hc
  · refine iff_of_false (Nat.lt_irrefl 0) fun hv => hc.2 (h.owner_of_holds hv)
  · rfl

end Facts

/-! ## A step of the outermost calls -/

/-- A step of kThread `k` takes the inherited mutex to `b`, and the mutex without nested calls to
`m'`. -/
structure BaseStep (s : State K U) (m : Mutex.State K U) (k : K) (b m' : Mutex.State K U) :
    Prop where
  run : Mutex.run false k m = some m'
  act : ∃ c, b.act = Function.update s.base.act k c ∧ m'.act = Function.update m.act k c ∧
    ∀ u, acquirer c = some u → acquirer (s.base.act k) = some u
  lock : b.lock = s.base.lock ∧ m'.lock = m.lock ∨
    b.lock = m'.lock ∧ (∀ k', b.lock = some k' → k' = k) ∧ ∀ k', s.base.lock = some k' → k' = k
  owner : m'.owner = b.owner
  bq : m'.bq = b.bq
  /-- The owner gives the lock up only when it holds it no more, and then to the first waiter. -/
  passes : b.owner = s.base.owner ∨
    ∀ u, s.base.owner = some u → ¬Holds s u ∧ b.owner = s.base.bq.head?
  status : ∀ u, b.status u = s.base.status u ∧ m'.status u = m.status u ∨
    ¬Holds s u ∧ m'.status u = b.status u
  arrivals : m'.arrivals = (s.onBase k b).arrivals
  grants : m'.grants = (s.onBase k b).grants

section Base

variable {s s' : State K U} {m m' b : Mutex.State K U} {k : K} {u : U}

omit [DecidableEq K] in
/-- A step that changes no status but that of `u`. -/
theorem status_update (hu : ¬Holds s u) (x : Mutex.Status) (v : U) :
    Function.update s.base.status u x v = s.base.status v ∧
        Function.update m.status u x v = m.status v ∨
      ¬Holds s v ∧ Function.update m.status u x v = Function.update s.base.status u x v := by
  by_cases hv : v = u
  · subst hv
    simp [hu]
  · simp [hv]

omit [DecidableEq K] in
theorem onBase_arrivals (ha : ∀ u, s.base.act k ≠ .acqLock u) :
    (s.onBase k b).arrivals = s.arrivals := by
  unfold State.onBase
  cases hk : s.base.act k <;> simp_all

/-- A step that leaves the owner and the bookkeeping. -/
theorem BaseStep.keep (h : Inv s m) {c : Mutex.Act U} (run : Mutex.run false k m = some m')
    (hact : b.act = Function.update s.base.act k c) (hact' : m'.act = Function.update m.act k c)
    (hc : ∀ u, acquirer c = some u → acquirer (s.base.act k) = some u)
    (ha : ∀ u, s.base.act k ≠ .acqLock u)
    (lock : b.lock = s.base.lock ∧ m'.lock = m.lock ∨
      b.lock = m'.lock ∧ (∀ k', b.lock = some k' → k' = k) ∧ ∀ k', s.base.lock = some k' → k' = k)
    (hown : b.owner = s.base.owner) (hown' : m'.owner = m.owner) (bq : m'.bq = b.bq)
    (status : ∀ u, b.status u = s.base.status u ∧ m'.status u = m.status u ∨
      ¬Holds s u ∧ m'.status u = b.status u)
    (harr : m'.arrivals = m.arrivals) (hgr : m'.grants = m.grants) : BaseStep s m k b m' where
  run := run
  act := ⟨c, hact, hact', hc⟩
  lock := lock
  owner := by rw [hown, hown', h.outer.owner]
  bq := bq
  passes := .inl hown
  status := status
  arrivals := by rw [harr, onBase_arrivals ha, h.outer.arrivals]
  grants := by
    rw [hgr, h.outer.grants]
    exact (if_pos hown).symm

/-- **The outermost calls are those of a plain mutex.** -/
theorem base_step (h : Inv s m) (hk : ∀ u, ¬Nested s k u) (hb : Mutex.run true k s.base = some b) :
    ∃ m', BaseStep s m k b m' := by
  have hI := h.mutex
  have hact := h.outer.act k hk
  have howner := h.outer.owner
  have hbq := h.outer.bq
  have hview := hI.view k
  have hlock := hI.locked k
  have hfree : ∀ u x, (m.act k).role = some (u, x) → x ≠ .inside → ¬Holds s u := by
    intro u x hr hx hu
    exact hx ((hI.role k u x hr).symm.trans (h.outer.held u hu))
  -- The lock, if kThread `k` has it in `m`.
  have hmine : m.lock = some k → s.base.lock = some k := fun hl => ((h.outer.lock k).mp hl).1
  have hsame : ∀ u, s.base.status u = s.base.status u ∧ m.status u = m.status u ∨
      ¬Holds s u ∧ m.status u = s.base.status u := fun u => .inl ⟨rfl, rfl⟩
  unfold Mutex.run at hb
  cases ha : s.base.act k <;> rw [ha] at hact <;> rw [hact] at hview hlock hfree <;>
    simp only [ha] at hb
  case idle => cases hb
  case acqLock u =>
    split_ifs at hb with hl
    obtain rfl := Option.some.inj hb
    have hne : s.base.owner ≠ some u := by
      rw [← howner]
      exact hI.not_owner (by rw [hact]; rfl) rfl (by simp [hact])
    refine ⟨{ m with lock := some k, arrivals := m.arrivals ++ [u] }.goto k (.acqTest u), ?_⟩
    exact {
      run := by simp [Mutex.run, hact, h.lock_outer hl]
      act := ⟨.acqTest u, rfl, rfl, by simp [acquirer, ha]⟩
      lock := .inr ⟨rfl, by simp [Mutex.State.goto], by simp [hl]⟩
      owner := howner
      bq := hbq
      passes := .inl rfl
      status := hsame
      arrivals := by simp [State.onBase, Mutex.State.goto, ha, hne, h.outer.arrivals]
      grants := by simp [State.onBase, Mutex.State.goto, h.outer.grants] }
  case acqTest u =>
    obtain rfl := Option.some.inj hb
    have hne : s.base.owner ≠ some u := by
      rw [← howner]
      exact hI.not_owner (by rw [hact]; rfl) rfl (by simp [hact])
    have hwait : Mutex.mustWait true s.base.owner u ↔ Mutex.mustWait false m.owner u := by
      simp [Mutex.mustWait, howner, hne]
    refine ⟨m.goto k (if Mutex.mustWait true s.base.owner u then .suspend u else .acqSet u), ?_⟩
    refine .keep h ?_ rfl rfl ?_ (by simp [ha]) (.inl ⟨rfl, rfl⟩) rfl rfl hbq hsame rfl rfl
    · simp [Mutex.run, hact, hwait]
    · split_ifs <;> simp [acquirer, ha]
  case acqSet u =>
    obtain rfl := Option.some.inj hb
    have hnone : s.base.owner = none := by rw [← howner]; exact hview
    refine ⟨(m.grant u).goto k (.acqUnlock u), ?_⟩
    exact {
      run := by simp [Mutex.run, hact]
      act := ⟨.acqUnlock u, rfl, rfl, by simp [acquirer, ha]⟩
      lock := .inl ⟨rfl, rfl⟩
      owner := rfl
      bq := hbq
      passes := .inr (by simp [hnone])
      status := hsame
      arrivals := by
        rw [onBase_arrivals (by simp [ha])]
        exact h.outer.arrivals
      grants := by simp [State.onBase, Mutex.State.goto, Mutex.State.grant, hnone, h.outer.grants] }
  case acqUnlock u =>
    obtain rfl := Option.some.inj hb
    have hl := hmine (hlock.mp rfl)
    refine ⟨({ m with lock := none }.setStatus u .inside).goto k .idle, ?_⟩
    exact .keep h (by simp [Mutex.run, hact]) rfl rfl (by simp [acquirer]) (by simp [ha])
      (.inr ⟨rfl, by simp [Mutex.State.goto, Mutex.State.setStatus], by simp [hl, eq_comm]⟩) rfl rfl
      hbq (status_update (hfree u _ rfl (by simp)) .inside) rfl rfl
  case suspend u =>
    obtain rfl := Option.some.inj hb
    refine ⟨({ m with parks := Function.update m.parks u (m.parks u + 1) }.setStatus u
      .waiting).goto k (.parkPush u), ?_⟩
    exact .keep h (by simp [Mutex.run, hact]) rfl rfl (by simp [acquirer]) (by simp [ha])
      (.inl ⟨rfl, rfl⟩) rfl rfl hbq (status_update (hfree u _ rfl (by simp)) .waiting) rfl rfl
  case parkPush u =>
    obtain rfl := Option.some.inj hb
    refine ⟨{ m with bq := m.bq ++ [u] }.goto k (.parkUnlock u), ?_⟩
    exact .keep h (by simp [Mutex.run, hact]) rfl rfl (by simp [acquirer]) (by simp [ha])
      (.inl ⟨rfl, rfl⟩) rfl rfl (by simp [Mutex.State.goto, hbq]) hsame rfl rfl
  case parkUnlock u =>
    obtain rfl := Option.some.inj hb
    have hl := hmine (hlock.mp rfl)
    refine ⟨{ m with lock := none }.goto k .idle, ?_⟩
    exact .keep h (by simp [Mutex.run, hact]) rfl rfl (by simp [acquirer]) (by simp [ha])
      (.inr ⟨rfl, by simp [Mutex.State.goto], by simp [hl, eq_comm]⟩) rfl rfl hbq hsame rfl rfl
  case relLock u =>
    split_ifs at hb with hl
    obtain rfl := Option.some.inj hb
    refine ⟨{ m with lock := some k }.goto k (.relTest u), ?_⟩
    exact .keep h (by simp [Mutex.run, hact, h.lock_outer hl]) rfl rfl (by simp [acquirer])
      (by simp [ha]) (.inr ⟨rfl, by simp [Mutex.State.goto], by simp [hl]⟩) rfl rfl hbq
        hsame rfl rfl
  case relTest u =>
    obtain rfl := Option.some.inj hb
    refine ⟨m.goto k (if s.base.bq = [] then .relClear u else .relSet u), ?_⟩
    refine .keep h (by simp [Mutex.run, hact, hbq]) rfl rfl ?_ (by simp [ha])
      (.inl ⟨rfl, rfl⟩) rfl rfl hbq hsame rfl rfl
    split_ifs <;> simp [acquirer]
  case relSet u =>
    obtain ⟨w, hw, rfl⟩ := Option.map_eq_some_iff.mp hb
    have hu : s.base.owner = some u := by rw [← howner]; exact hview.1
    -- The first waiter is not the owner.
    have hwu : w ≠ u := by
      rintro rfl
      have hmem : w ∈ m.bq := by rw [hbq]; exact List.mem_of_mem_head? hw
      have hst := hI.role k w .releasing (by rw [hact]; rfl)
      simp [hI.parked w hmem] at hst
    refine ⟨(m.grant w).goto k (.relPop u), ?_⟩
    exact {
      run := by simp [Mutex.run, hact, hbq, hw]
      act := ⟨.relPop u, rfl, rfl, by simp [acquirer]⟩
      lock := .inl ⟨rfl, rfl⟩
      owner := rfl
      bq := hbq
      passes := .inr (by simpa [hu, hw] using ⟨hfree u _ rfl (by simp), rfl⟩)
      status := hsame
      arrivals := by
        rw [onBase_arrivals (by simp [ha])]
        exact h.outer.arrivals
      grants := by
        simp [State.onBase, Mutex.State.goto, Mutex.State.grant, hu, hwu, h.outer.grants] }
  case relPop u =>
    obtain ⟨w, hw, rfl⟩ := Option.map_eq_some_iff.mp hb
    refine ⟨{ m with bq := m.bq.tail }.goto k (.relUnlock u w), ?_⟩
    exact .keep h (by simp [Mutex.run, hact, hbq, hw]) rfl rfl (by simp [acquirer]) (by simp [ha])
      (.inl ⟨rfl, rfl⟩) rfl rfl (by simp [Mutex.State.goto, hbq]) hsame rfl rfl
  case relUnlock u w =>
    obtain rfl := Option.some.inj hb
    have hl := hmine (hlock.mp rfl)
    refine ⟨({ m with lock := none }.setStatus u .out).goto k (.relRead w), ?_⟩
    exact .keep h (by simp [Mutex.run, hact]) rfl rfl (by simp [acquirer]) (by simp [ha])
      (.inr ⟨rfl, by simp [Mutex.State.goto, Mutex.State.setStatus], by simp [hl, eq_comm]⟩) rfl rfl
      hbq (status_update (hfree u _ rfl (by simp)) .out) rfl rfl
  case relRead w =>
    obtain rfl := Option.some.inj hb
    refine ⟨m.goto k (.relResume w s.base.owner), ?_⟩
    exact .keep h (by simp [Mutex.run, hact, howner]) rfl rfl (by simp [acquirer]) (by simp [ha])
      (.inl ⟨rfl, rfl⟩) rfl rfl hbq hsame rfl rfl
  case relResume w r =>
    obtain ⟨v, hv, rfl⟩ := Option.map_eq_some_iff.mp hb
    obtain ⟨rfl, -, hwait, -⟩ := hview
    obtain rfl := Option.some.inj hv
    have hw : ¬Holds s w := fun hh => by simp [h.outer.held w hh] at hwait
    have hwait' : s.base.status w = .waiting := (h.outer.status w hw).symm.trans hwait
    rw [Mutex.State.resume_of_waiting hwait']
    refine ⟨(m.resume w).goto k .idle, ?_⟩
    have hrun : Mutex.run false k m = some ((m.resume w).goto k .idle) := by simp [Mutex.run, hact]
    rw [Mutex.State.resume_of_waiting hwait] at hrun ⊢
    exact .keep h hrun rfl rfl (by simp [acquirer]) (by simp [ha]) (.inl ⟨rfl, rfl⟩) rfl rfl hbq
      (status_update hw .ready) rfl rfl
  case relClear u =>
    obtain rfl := Option.some.inj hb
    have hu : s.base.owner = some u := by rw [← howner]; exact hview.1
    refine ⟨{ m with owner := none }.goto k (.relFree u), ?_⟩
    exact {
      run := by simp [Mutex.run, hact]
      act := ⟨.relFree u, rfl, rfl, by simp [acquirer]⟩
      lock := .inl ⟨rfl, rfl⟩
      owner := rfl
      bq := hbq
      passes := .inr (by
        simpa [hu, ← hbq, hview.2, Mutex.State.goto] using hfree u _ rfl (by simp))
      status := hsame
      arrivals := by
        rw [onBase_arrivals (by simp [ha])]
        exact h.outer.arrivals
      grants := by simp [State.onBase, Mutex.State.goto, hu, h.outer.grants] }
  case relFree u =>
    obtain rfl := Option.some.inj hb
    have hl := hmine (hlock.mp rfl)
    refine ⟨({ m with lock := none }.setStatus u .out).goto k .idle, ?_⟩
    exact .keep h (by simp [Mutex.run, hact]) rfl rfl (by simp [acquirer]) (by simp [ha])
      (.inr ⟨rfl, by simp [Mutex.State.goto, Mutex.State.setStatus], by simp [hl, eq_comm]⟩) rfl rfl
      hbq (status_update (hfree u _ rfl (by simp)) .out) rfl rfl

theorem Pos.Fits.moves {holds : Prop} (hn : ¬holds) {p : Pos} {x y : Mutex.Status}
    (h : p.Fits holds x) (hm : Mutex.Status.Moves x y) : p.Fits holds y := by
  cases hm <;> cases p <;> simp_all [Pos.Fits]

theorem Inv.counter_zero (h : Inv s m) (hp : ∀ v, s.base.owner = some v → ¬Holds s v) :
    s.counter = 0 := by
  cases ho : s.base.owner with
  | none => exact h.free ho
  | some v =>
    have hcount := h.counter v ho
    have hv : ¬s.decs v < s.incs v := hp v ho
    have hz : s.counter.toNat = 0 := by omega
    exact BitVec.eq_of_toNat_eq hz

/-- A step that the plain mutex makes too, from `m` to `m'`: it moves kThreads that are in no nested
call and changes the status of uThreads that do not hold the lock. -/
theorem Inv.visible (h : Inv s m) (reach : (Mutex.machine K U).Reachable m')
    (hact : ∀ k, s'.base.act k = s.base.act k ∧ m'.act k = m.act k ∨
      (∀ v, ¬Nested s k v) ∧ m'.act k = s'.base.act k ∧
        ∀ v, acquirer (s'.base.act k) = some v → ¬Holds s v)
    (hlock : ∀ k, (s'.base.lock = some k ↔ s.base.lock = some k) ∧
        (m'.lock = some k ↔ m.lock = some k) ∨
      (m'.lock = some k ↔ s'.base.lock = some k) ∧ ∀ v, ¬Nested s k v)
    (hst : ∀ v, s'.base.status v = s.base.status v ∧ m'.status v = m.status v ∨
      ¬Holds s v ∧ m'.status v = s'.base.status v)
    (hrel : s'.rel = s.rel) (hholds : ∀ v, Holds s' v ↔ Holds s v)
    (howner : m'.owner = s'.base.owner) (hbq : m'.bq = s'.base.bq)
    (harr : m'.arrivals = s'.arrivals) (hgr : m'.grants = s'.grants)
    (hpos : ∀ v, s.base.status v = .releasing → s'.pos v = s.pos v)
    (hfits : ∀ v, (s'.pos v).Fits (Holds s v) (s'.base.status v))
    (hcount : ∀ v, s'.decs v + s'.depth v + (if s'.pos v = .release then 1 else 0) = s'.incs v)
    (hcounter : ∀ v, s'.base.owner = some v → s'.counter.toNat + s'.decs v = s'.incs v)
    (hfree : s'.base.owner = none → s'.counter = 0) : Inv s' m' := by
  have hkeep : ∀ v, Holds s v → s'.base.status v = s.base.status v := fun v hv =>
    (hst v).elim (·.1) fun hn => absurd hv hn.1
  have hnested : ∀ k v, Nested s' k v ↔ Nested s k v := by
    intro k v
    rcases hact k with ⟨ha, -⟩ | ⟨hn, -, hc⟩
    · unfold Nested
      rw [hrel, ha, hholds v]
    · refine iff_of_false ?_ (hn v)
      rintro (hv | ⟨hv, hh⟩)
      · rw [hrel] at hv
        exact hn v (.inl hv)
      · exact hc v hv ((hholds v).mp hh)
  -- A nested call stays where it is.
  have hstay : ∀ k v, Nested s k v → s'.base.act k = s.base.act k ∧ m'.act k = m.act k :=
    fun k v hv => (hact k).resolve_right fun hn => hn.1 v hv
  refine ⟨reach, ⟨fun k => ?_, howner, hbq, fun k hn => ?_, fun k v hv => ?_, fun v hv => ?_,
    fun v hv => ?_, harr, hgr⟩, fun k => ?_, fun k v hv hh => ?_, fun k k' v hv hv' => ?_,
    fun k v hv => ?_, fun v => ?_, hcount, hcounter, hfree⟩
  · simp only [hnested]
    rcases hlock k with ⟨hl, hl'⟩ | ⟨hl, hn⟩
    · rw [hl', hl]
      exact h.outer.lock k
    · rw [hl]
      exact ⟨fun he => ⟨he, hn⟩, And.left⟩
  · rcases hact k with ⟨ha, ha'⟩ | ⟨-, ha, -⟩
    · rw [ha, ha']
      exact h.outer.act k fun v hv => hn v ((hnested k v).mpr hv)
    · exact ha
  · have hv' := (hnested k v).mp hv
    rw [(hstay k v hv').2]
    exact h.outer.nested k v hv'
  · have hh : ¬Holds s v := fun hh => hv ((hholds v).mpr hh)
    rcases hst v with ⟨he, he'⟩ | ⟨-, he⟩
    · rw [he, he']
      exact h.outer.status v hh
    · exact he
  · have hh := (hholds v).mp hv
    rcases hst v with ⟨-, he⟩ | ⟨hn, -⟩
    · rw [he]
      exact h.outer.held v hh
    · exact absurd hh hn
  · have hv := h.view k
    rw [hrel]
    cases hrk : s.rel k with
    | idle => trivial
    | lock v | dec v | unlock v =>
      rw [hrk] at hv
      obtain ⟨hidle, hh, hrst, hp⟩ := hv
      have ha := (hstay k v (.inl (by rw [hrk]; rfl))).1
      exact ⟨ha.trans hidle, (hholds v).mpr hh, (hkeep v hh).trans hrst, (hpos v hrst).trans hp⟩
  · have hh' := (hholds v).mp hh
    have hn := (hnested k v).mp (.inr ⟨hv, hh⟩)
    rw [(hstay k v hn).1] at hv
    exact (hkeep v hh').trans (h.acquiring k v hv hh')
  · exact h.inj k k' v ((hnested k v).mp hv) ((hnested k' v).mp hv')
  · have hv' := (hnested k v).mp hv
    have hl := h.locked k v hv'
    rw [hrel, (hstay k v hv').1, ← hl]
    exact ((hlock k).resolve_right fun hn => hn.2 v hv').1
  · rw [propext (hholds v)]
    exact hfits v

theorem inv_base (h : Inv s m) (hk : ∀ u, ¬Nested s k u)
    (hb : Mutex.run true k s.base = some b) : ∃ m', Inv (s.onBase k b) m' := by
  obtain ⟨m', hB⟩ := base_step h hk hb
  obtain ⟨c, hact, hact', hc⟩ := hB.act
  have hfree : ∀ v, ¬Holds s v → m'.status v = b.status v := fun v hv =>
    (hB.status v).elim (fun he => by rw [he.1, he.2, h.outer.status v hv]) (·.2)
  refine ⟨m', h.visible (Mutex.reachable_step (a := .run k) h.reach hB.run) (fun k' => ?_)
    (fun k' => ?_)
    hB.status rfl (holds_onBase h) hB.owner hB.bq hB.arrivals hB.grants (fun _ _ => rfl)
      (fun v => ?_)
    (fun v => ?_) (fun v hv => ?_) fun hnone => ?_⟩
  · show b.act k' = _ ∧ _ ∨ _ ∧ _ = b.act k' ∧ ∀ v, acquirer (b.act k') = some v → _
    rw [hact, hact']
    by_cases hne : k' = k
    · subst hne
      rw [Function.update_self, Function.update_self]
      exact .inr ⟨hk, rfl, fun v hv hh => hk v (.inr ⟨hc v hv, hh⟩)⟩
    · rw [Function.update_of_ne hne, Function.update_of_ne hne]
      exact .inl ⟨rfl, rfl⟩
  · show ((b.lock = some k' ↔ _) ∧ _) ∨ (_ ↔ b.lock = some k') ∧ _
    rcases hB.lock with ⟨hl, hl'⟩ | ⟨hl, hmine, hmine'⟩
    · rw [hl, hl']
      exact .inl ⟨Iff.rfl, Iff.rfl⟩
    · by_cases hne : k' = k
      · subst hne
        exact .inr ⟨by rw [hl], hk⟩
      · have hm : m.lock ≠ some k' := fun he => hne (hmine' k' ((h.outer.lock k').mp he).1)
        rw [← hl]
        exact .inl ⟨iff_of_false (fun he => hne (hmine k' he)) fun he => hne (hmine' k' he),
          iff_of_false (fun he => hne (hmine k' he)) hm⟩
  · have hv := h.fits v
    show (s.pos v).Fits (Holds s v) (b.status v)
    by_cases hh : Holds s v
    · rw [(hB.status v).elim (·.1) fun hn => absurd hh hn.1]
      exact hv
    · have hm := Mutex.moves_run h.mutex hB.run v
      rw [h.outer.status v hh, hfree v hh] at hm
      exact hv.moves hh hm
  · have hv := h.count v
    show (if b.owner = some v ∧ s.base.owner ≠ some v then 0 else s.decs v) + s.depth v +
        (if s.pos v = .release then 1 else 0) =
      if b.owner = some v ∧ s.base.owner ≠ some v then 0 else s.incs v
    by_cases hreset : b.owner = some v ∧ s.base.owner ≠ some v
    · have hn : ¬s.decs v < s.incs v := fun hh => hreset.2 (h.owner_of_holds hh)
      rw [if_pos hreset, if_pos hreset]
      omega
    · rw [if_neg hreset, if_neg hreset]
      exact hv
  · replace hv : b.owner = some v := hv
    show s.counter.toNat + (if b.owner = some v ∧ s.base.owner ≠ some v then 0 else s.decs v) =
      if b.owner = some v ∧ s.base.owner ≠ some v then 0 else s.incs v
    split_ifs with hreset
    · have hp := hB.passes.resolve_left fun he => hreset.2 (he ▸ hv)
      simp [h.counter_zero fun v hv => (hp v hv).1]
    · exact h.counter v (not_not.mp fun hn => hreset ⟨hv, hn⟩)
  · replace hnone : b.owner = none := hnone
    rcases hB.passes with he | hp
    · exact h.free (he ▸ hnone)
    · exact h.counter_zero fun v hv => (hp v hv).1

end Base

/-! ## A step of a nested call -/

section Inner

variable {s s' : State K U} {m : Mutex.State K U} {k : K} {u : U}

/-- kThread `k` is in a nested call of `u`, or free to begin one. -/
def Serves (s : State K U) (k : K) (u : U) : Prop :=
  Nested s k u ∨ s.rel k = .idle ∧ s.base.act k = .idle ∧ s.base.status u = .inside

theorem Serves.unique (h : Inv s m) (hu : Holds s u) (hk : Serves s k u) {k' : K} {v : U}
    (hv : Nested s k' v) : k' = k ∧ v = u := by
  rcases hk with hk | ⟨-, -, hst⟩
  · exact h.nested_unique hk hv
  · have ho := h.owner_of_holds (h.holds_of_nested hv)
    obtain rfl := Option.some.inj ((h.owner_of_holds hu).symm.trans ho)
    have hb := h.busy_of_nested hv
    simp [hst] at hb

theorem Serves.outer_idle (h : Inv s m) (hk : Serves s k u) : m.act k = .idle := by
  rcases hk with hk | ⟨hr, ha, -⟩
  · exact h.outer.nested k u hk
  · rw [h.outer.act k (by simp [Nested, hr, ha, Rel.caller, acquirer]), ha]

/-- A step of a nested call of `u`: the plain mutex does not see it. -/
theorem Inv.inner (h : Inv s m) (hu : Holds s u) (hk : Serves s k u)
    {a : Mutex.Act U} {r : Rel U} {x : Mutex.Status} {p : Pos}
    (hact : s'.base.act = Function.update s.base.act k a)
    (hrel : s'.rel = Function.update s.rel k r)
    (hst : s'.base.status = Function.update s.base.status u x)
    (hpos : s'.pos = Function.update s.pos u p) (hholds : ∀ v, Holds s' v ↔ Holds s v)
    (hview : View s' k r) (hr : ∀ v, r.caller = some v → v = u)
    (ha : ∀ v, acquirer a = some v → v = u ∧ x = .acquiring)
    (hend : r.caller = some u ∨ acquirer a = some u ∨ r = .idle ∧ a = .idle)
    (hfits : p.Fits (Holds s u) x)
    (hlock : s'.base.lock = some k ↔ (r.locked || a.locked) = true)
    (hlock' : ∀ k', k' ≠ k → (s'.base.lock = some k' ↔ s.base.lock = some k'))
    (howner : s'.base.owner = s.base.owner) (hbq : s'.base.bq = s.base.bq)
    (harr : s'.arrivals = s.arrivals) (hgr : s'.grants = s.grants)
    (hcount : ∀ v, s'.decs v + s'.depth v + (if s'.pos v = .release then 1 else 0) = s'.incs v)
    (hcounter : s'.counter.toNat + s'.decs u = s'.incs u) : Inv s' m := by
  have hown : s'.base.owner = some u := howner.trans (h.owner_of_holds hu)
  have hidle : m.act k = .idle := hk.outer_idle h
  have hone : ∀ k' v, Nested s' k' v → k' = k ∧ v = u := by
    intro k' v hv
    by_cases hne : k' = k
    · subst hne
      refine ⟨rfl, ?_⟩
      rcases hv with hv | ⟨hv, -⟩
      · rw [hrel, Function.update_self] at hv
        exact hr v hv
      · rw [hact, Function.update_self] at hv
        exact (ha v hv).1
    · refine hk.unique h hu (hv.imp (fun hv => ?_) fun hv => ⟨?_, (hholds v).mp hv.2⟩)
      · rwa [hrel, Function.update_of_ne hne] at hv
      · have hv' := hv.1
        rwa [hact, Function.update_of_ne hne] at hv'
  have hnone : ∀ k', k' ≠ k → ∀ v, ¬Nested s' k' v := fun k' hne v hv => hne (hone k' v hv).1
  have hnone' : ∀ k', k' ≠ k → ∀ v, ¬Nested s k' v := fun k' hne v hv =>
    hne (hk.unique h hu hv).1
  -- Without a nested call after the step, kThread `k` is idle.
  have hfree : (∀ v, ¬Nested s' k v) → r = .idle ∧ a = .idle := by
    intro hn
    rcases hend with he | he | he
    · exact absurd (.inl (by rw [hrel, Function.update_self]; exact he)) (hn u)
    · exact absurd (.inr ⟨by rw [hact, Function.update_self]; exact he, (hholds u).mpr hu⟩) (hn u)
    · exact he
  refine ⟨h.reach, ⟨fun k' => ?_, ?_, ?_, fun k' hn => ?_, fun k' v hv => ?_, fun v hv => ?_,
    fun v hv => ?_, ?_, ?_⟩, fun k' => ?_, fun k' v hv hh => ?_, fun k' k'' v hv hv' => ?_,
    fun k' v hv => ?_, fun v => ?_, hcount, fun v hv => ?_, fun hn => ?_⟩
  · by_cases hne : k' = k
    · subst hne
      refine iff_of_false (fun hm => ?_) fun hb => ?_
      · have hl := (h.mutex.locked k').mpr hm
        rw [hidle] at hl
        cases hl
      · obtain ⟨rfl, rfl⟩ := hfree hb.2
        exact absurd (hlock.mp hb.1) (by simp [Rel.locked, Mutex.Act.locked])
    · rw [h.outer.lock k', hlock' k' hne]
      simp [hnone k' hne, hnone' k' hne]
  · rw [howner]
    exact h.outer.owner
  · rw [hbq]
    exact h.outer.bq
  · by_cases hne : k' = k
    · subst hne
      rw [hact, Function.update_self, (hfree hn).2]
      exact hidle
    · rw [hact, Function.update_of_ne hne]
      exact h.outer.act k' (hnone' k' hne)
  · rw [(hone k' v hv).1]
    exact hidle
  · have hvu : v ≠ u := by
      rintro rfl
      exact hv ((hholds v).mpr hu)
    rw [hst, Function.update_of_ne hvu]
    exact h.outer.status v fun hh => hv ((hholds v).mpr hh)
  · exact h.outer.held v ((hholds v).mp hv)
  · rw [harr]
    exact h.outer.arrivals
  · rw [hgr]
    exact h.outer.grants
  · by_cases hne : k' = k
    · subst hne
      rw [hrel, Function.update_self]
      exact hview
    · have hn := hnone' k' hne
      rw [hrel, Function.update_of_ne hne]
      cases hrk : s.rel k' with
      | idle => trivial
      | lock v | dec v | unlock v => exact absurd (.inl (by rw [hrk]; rfl)) (hn v)
  · obtain ⟨rfl, rfl⟩ := hone k' v (.inr ⟨hv, hh⟩)
    rw [hact, Function.update_self] at hv
    rw [hst, Function.update_self]
    exact (ha v hv).2
  · exact (hone k' v hv).1.trans (hone k'' v hv').1.symm
  · obtain ⟨rfl, rfl⟩ := hone k' v hv
    rw [hrel, hact, Function.update_self, Function.update_self]
    exact hlock
  · rw [hpos, hst, propext (hholds v)]
    by_cases hvu : v = u
    · subst hvu
      rw [Function.update_self, Function.update_self]
      exact hfits
    · rw [Function.update_of_ne hvu, Function.update_of_ne hvu]
      exact h.fits v
  · obtain rfl := Option.some.inj (hown.symm.trans hv)
    exact hcounter
  · rw [hown] at hn
    cases hn

omit [DecidableEq K] in
/-- A step of the inherited code that leaves the owner, in a call that is no arrival. -/
theorem onBase_eq {b : Mutex.State K U} (ho : b.owner = s.base.owner)
    (ha : ∀ v, s.base.act k = .acqLock v → s.base.owner = some v) :
    s.onBase k b = { s with base := b } := by
  unfold State.onBase
  congr 1
  · funext v
    simp [ho]
  · funext v
    simp [ho]
  · split
    next v hv => rw [if_pos (ha v hv)]
    next => rfl
  · rw [if_pos ho]

/-- A step of `internalAcquire<true>` for the owner. -/
theorem Inv.inner_base (h : Inv s m) (hr : s.rel k = .idle) (hk : Nested s k u)
    {b : Mutex.State K U} {a : Mutex.Act U} {x : Mutex.Status} (ho : b.owner = s.base.owner)
    (hbq : b.bq = s.base.bq) (hact : b.act = Function.update s.base.act k a)
    (hst : b.status = Function.update s.base.status u x)
    (hend : a = .idle ∧ x = .inside ∨ acquirer a = some u ∧ x = .acquiring)
    (hlock : b.lock = some k ↔ a.locked = true)
    (hlock' : ∀ k', k' ≠ k → (b.lock = some k' ↔ s.base.lock = some k')) :
    Inv (s.onBase k b) m := by
  have hu := h.holds_of_nested hk
  have hown := h.owner_of_holds hu
  have ha : acquirer (s.base.act k) = some u :=
    (hk.resolve_left (by simp [hr, Rel.caller])).1
  have hpos : s.pos u = .acquire := by
    have hf := h.fits u
    rw [h.acquiring k u ha hu] at hf
    cases hp : s.pos u <;> rw [hp] at hf <;> first | rfl | exact hf.elim
  have hother : ∀ v, s.base.act k = .acqLock v → s.base.owner = some v := by
    intro v hv
    rw [hv] at ha
    rw [hown]
    exact ha.symm
  rw [onBase_eq ho hother]
  refine h.inner (r := .idle) (p := .acquire) hu (.inl hk) hact ?_ hst ?_ (fun _ => Iff.rfl) trivial
    (by simp [Rel.caller]) ?_ ?_ ?_ (by simpa [Rel.locked] using hlock) hlock' ho hbq rfl
      rfl h.count
    (h.counter u hown)
  · rw [← hr, Function.update_eq_self]
  · rw [← hpos, Function.update_eq_self]
  · intro v hv
    rcases hend with ⟨rfl, -⟩ | ⟨he, hx⟩
    · simp [acquirer] at hv
    · exact ⟨Option.some.inj (hv.symm.trans he), hx⟩
  · exact .inr (hend.symm.imp (·.1) fun he => ⟨rfl, he.1⟩)
  · rcases hend with ⟨-, rfl⟩ | ⟨-, rfl⟩ <;> trivial

/-- `internalAcquire<true>` for the owner: it does not wait. -/
theorem inv_nested {b : Mutex.State K U} (h : Inv s m) (hr : s.rel k = .idle) (hk : Nested s k u)
    (hb : Mutex.run true k s.base = some b) :
    Inv (s.onBase k b) m ∧ b.owner = s.base.owner := by
  have hu := h.holds_of_nested hk
  have hown := h.owner_of_holds hu
  have ha : acquirer (s.base.act k) = some u :=
    (hk.resolve_left (by simp [hr, Rel.caller])).1
  have hst : s.base.status = Function.update s.base.status u .acquiring := by
    rw [← h.acquiring k u ha hu, Function.update_eq_self]
  have hlocked : s.base.lock = some k ↔ (s.base.act k).locked = true := by
    have hl := h.locked k u hk
    rwa [hr] at hl
  unfold Mutex.run at hb
  cases hact : s.base.act k <;> simp only [hact, acquirer, Option.some.injEq,
    reduceCtorEq] at ha <;>
    subst ha <;> simp only [hact] at hb hlocked
  case acqLock u =>
    split_ifs at hb with hl
    obtain rfl := Option.some.inj hb
    refine ⟨h.inner_base hr hk rfl rfl rfl hst (.inr ⟨rfl, rfl⟩) ?_ ?_, rfl⟩
    · simp [Mutex.State.goto, Mutex.Act.locked]
    · intro k' hne
      simp [Mutex.State.goto, hl, hne.symm]
  case acqTest u =>
    obtain rfl := Option.some.inj hb
    have hgo : ¬Mutex.mustWait true s.base.owner u := by simp [Mutex.mustWait, hown]
    rw [if_neg hgo]
    exact ⟨h.inner_base hr hk rfl rfl rfl hst (.inr ⟨rfl, rfl⟩) hlocked fun _ _ => Iff.rfl, rfl⟩
  case acqSet u =>
    obtain rfl := Option.some.inj hb
    have ho := hown.symm
    exact ⟨h.inner_base hr hk ho rfl rfl hst (.inr ⟨rfl, rfl⟩) hlocked fun _ _ => Iff.rfl, ho⟩
  case acqUnlock u =>
    obtain rfl := Option.some.inj hb
    refine ⟨h.inner_base hr hk rfl rfl rfl rfl (.inl ⟨rfl, rfl⟩) ?_ ?_, rfl⟩
    · simp [Mutex.State.goto, Mutex.State.setStatus, Mutex.Act.locked]
    · intro k' hne
      simp [Mutex.State.goto, Mutex.State.setStatus, hlocked.mpr rfl, hne.symm]

/-- `release`, up to `internalRelease`: the steps after which `u` still holds the lock. -/
theorem Inv.inner_release (h : Inv s m) (hu : Holds s u) (hk : Serves s k u)
    (hidle : s.base.act k = .idle) {r : Rel U} {x : Mutex.Status} {p : Pos}
    (hact : s'.base.act = s.base.act) (hrel : s'.rel = Function.update s.rel k r)
    (hst : s'.base.status = Function.update s.base.status u x)
    (hpos : s'.pos = Function.update s.pos u p) (hholds : ∀ v, Holds s' v ↔ Holds s v)
    (hview : View s' k r) (hr : r = .idle ∨ r.caller = some u) (hfits : p.Fits (Holds s u) x)
    (hlock : s'.base.lock = some k ↔ r.locked = true)
    (hlock' : ∀ k', k' ≠ k → (s'.base.lock = some k' ↔ s.base.lock = some k'))
    (howner : s'.base.owner = s.base.owner) (hbq : s'.base.bq = s.base.bq)
    (harr : s'.arrivals = s.arrivals) (hgr : s'.grants = s.grants)
    (hcount : ∀ v, s'.decs v + s'.depth v + (if s'.pos v = .release then 1 else 0) = s'.incs v)
    (hcounter : s'.counter.toNat + s'.decs u = s'.incs u) : Inv s' m := by
  refine h.inner (a := .idle) hu hk ?_ hrel hst hpos hholds hview ?_ (by simp [acquirer]) ?_ hfits
    (by simpa [Mutex.Act.locked] using hlock) hlock' howner hbq harr hgr hcount hcounter
  · rw [hact, ← hidle, Function.update_eq_self]
  · intro v hv
    rcases hr with rfl | hr
    · cases hv
    · exact Option.some.inj (hv.symm.trans hr)
  · exact hr.symm.imp id fun he => .inr ⟨he, rfl⟩

/-- The last `release` of `u`: from `--counter` on it is that of a plain mutex. -/
theorem inv_last (h : Inv s m) (hr : s.rel k = .dec u) (hz : s.counter - 1 = 0) :
    ∃ m', Inv ({ (s.decr u).setPos u .released with
      base := s.base.goto k (.relTest u) }.setRel k .idle) m' := by
  have hk : Nested s k u := .inl (by rw [hr]; rfl)
  have hview := h.view k
  rw [hr] at hview
  obtain ⟨hidle, hu, hst, hpos⟩ := hview
  have hown := h.owner_of_holds hu
  have hcounter := h.counter u hown
  have hcount := h.count u
  rw [if_pos hpos] at hcount
  have hsub := Word.toNat_sub_one (a := s.counter) (by unfold Holds at hu; omega)
  rw [hz] at hsub
  have hlast : s.decs u + 1 = s.incs u := by
    have : (0 : BitVec 64).toNat = 0 := rfl
    omega
  have hlock : s.base.lock = some k := (h.locked k u hk).mpr (by rw [hr]; rfl)
  have hactk : m.act k = .idle := h.outer.nested k u hk
  have hfree : m.lock = none := by
    rw [Option.eq_none_iff_forall_ne_some]
    intro k' hm
    obtain ⟨hl, hn⟩ := (h.outer.lock k').mp hm
    obtain rfl := Option.some.inj (hlock.symm.trans hl)
    exact hn u hk
  have hother : ∀ v, v ≠ u → ¬Holds s v := by
    intro v hv hh
    exact hv (Option.some.inj ((h.owner_of_holds hh).symm.trans hown))
  have hnone' : ∀ k', k' ≠ k → ∀ v, ¬Nested s k' v := fun k' hne v hv =>
    hne (h.nested_unique hk hv).1
  generalize hs' : ({ (s.decr u).setPos u .released with
    base := s.base.goto k (.relTest u) }.setRel k .idle) = s'
  have hholds : ∀ v, ¬Holds s' v := by
    intro v hv
    subst hs'
    replace hv : Function.update s.decs u (s.decs u + 1) v < s.incs v := hv
    by_cases hvu : v = u
    · subst hvu
      rw [Function.update_self] at hv
      omega
    · rw [Function.update_of_ne hvu] at hv
      exact hother v hvu hv
  have hrel : ∀ k', s'.rel k' = .idle := by
    intro k'
    subst hs'
    show Function.update s.rel k .idle k' = .idle
    by_cases hne : k' = k
    · rw [hne, Function.update_self]
    · rw [Function.update_of_ne hne]
      cases hrk : s.rel k' with
      | idle => rfl
      | lock v | dec v | unlock v => exact absurd (.inl (by rw [hrk]; rfl)) (hnone' k' hne v)
  have hnone : ∀ k' v, ¬Nested s' k' v := by
    rintro k' v (hv | hv)
    · simp [hrel, Rel.caller] at hv
    · exact hholds v hv.2
  -- The plain mutex makes the call of `release` and its first step.
  have hcall : Mutex.step m (.release k u) =
      some ((m.setStatus u .releasing).goto k (.relLock u)) :=
    if_pos ⟨hactk, h.outer.held u hu⟩
  have hrun : Mutex.run false k ((m.setStatus u .releasing).goto k (.relLock u)) =
      some ({ (m.setStatus u .releasing).goto k (.relLock u) with lock := some k }.goto k
        (.relTest u)) := by
    simp [Mutex.run, Mutex.State.goto, Mutex.State.setStatus, hfree]
  have hreach := Mutex.reachable_step (a := .run k) (Mutex.reachable_step h.reach hcall) hrun
  refine ⟨_, hreach, ?_, ?_, ?_, ?_, ?_, ?_, ?_, ?_, ?_⟩
  · refine ⟨fun k' => ?_, ?_, ?_, fun k' _ => ?_, fun k' v hv => absurd hv (hnone k' v),
      fun v _ => ?_,
      fun v hv => absurd hv (hholds v), ?_, ?_⟩
    · subst hs'
      show some k = some k' ↔ s.base.lock = some k' ∧ _
      rw [hlock]
      exact ⟨fun he => ⟨he, hnone k'⟩, And.left⟩
    · subst hs'
      exact h.outer.owner
    · subst hs'
      exact h.outer.bq
    · subst hs'
      show Function.update (Function.update m.act k _) k (.relTest u) k' =
        Function.update s.base.act k (.relTest u) k'
      by_cases hne : k' = k
      · rw [hne, Function.update_self, Function.update_self]
      · rw [Function.update_of_ne hne, Function.update_of_ne hne, Function.update_of_ne hne]
        exact h.outer.act k' (hnone' k' hne)
    · subst hs'
      show Function.update m.status u .releasing v = s.base.status v
      by_cases hvu : v = u
      · rw [hvu, Function.update_self, hst]
      · rw [Function.update_of_ne hvu]
        exact h.outer.status v (hother v hvu)
    · subst hs'
      exact h.outer.arrivals
    · subst hs'
      exact h.outer.grants
  · intro k'
    rw [hrel k']
    trivial
  · intro k' v _ hv
    exact absurd hv (hholds v)
  · intro k' k'' v hv
    exact absurd hv (hnone k' v)
  · intro k' v hv
    exact absurd hv (hnone k' v)
  · intro v
    have hfits := h.fits v
    have hn := hholds v
    subst hs'
    show (Function.update s.pos u .released v).Fits _ (s.base.status v)
    by_cases hvu : v = u
    · rw [hvu, Function.update_self, hst]
      trivial
    · rw [Function.update_of_ne hvu, propext (iff_of_false hn (hother v hvu))]
      exact hfits
  · intro v
    have hv := h.count v
    subst hs'
    show Function.update s.decs u (s.decs u + 1) v + s.depth v +
      (if Function.update s.pos u .released v = .release then 1 else 0) = s.incs v
    by_cases hvu : v = u
    · rw [hvu, Function.update_self, Function.update_self, if_neg (by simp)]
      omega
    · rw [Function.update_of_ne hvu, Function.update_of_ne hvu]
      exact hv
  · intro v hv
    subst hs'
    obtain rfl := Option.some.inj (hown.symm.trans hv)
    show (s.counter - 1).toNat + Function.update s.decs u (s.decs u + 1) u = s.incs u
    rw [hz, Function.update_self]
    exact (Nat.zero_add _).trans hlast
  · intro hn
    subst hs'
    exact absurd (hown.symm.trans hn) (by simp)

theorem inv_run (h : Inv s m) (hs : run k s = some s') : ∃ m', Inv s' m' := by
  have hview := h.view k
  unfold run at hs
  cases hr : s.rel k <;> rw [hr] at hview <;> simp only [hr] at hs
  case idle =>
    obtain ⟨b, hb, rfl⟩ := Option.map_eq_some_iff.mp hs
    by_cases hk : ∃ u, Nested s k u
    · obtain ⟨u, hk⟩ := hk
      exact ⟨m, (inv_nested h hr hk hb).1⟩
    · exact inv_base h (not_exists.mp hk) hb
  case lock u =>
    obtain ⟨hidle, hu, hst, hpos⟩ := hview
    have hk : Nested s k u := .inl (by rw [hr]; rfl)
    split_ifs at hs with hl
    obtain rfl := Option.some.inj hs
    refine ⟨m, h.inner_release (r := .dec u) (x := .releasing) (p := .release) hu
      (.inl hk) hidle rfl
      rfl ?_ ?_ (fun _ => Iff.rfl) ⟨hidle, hu, hst, hpos⟩
        (.inr rfl) hu ?_ ?_ rfl rfl rfl rfl h.count
      (h.counter u (h.owner_of_holds hu))⟩
    · rw [← hst, Function.update_eq_self]
      rfl
    · rw [← hpos, Function.update_eq_self]
      rfl
    · simp [State.setRel, Rel.locked]
    · intro k' hne
      simp [State.setRel, hl, hne.symm]
  case dec u =>
    split_ifs at hs with hz
    · obtain rfl := Option.some.inj hs
      exact inv_last h hr hz
    · obtain rfl := Option.some.inj hs
      obtain ⟨hidle, hu, hst, hpos⟩ := hview
      have hk : Nested s k u := .inl (by rw [hr]; rfl)
      have hcounter := h.counter u (h.owner_of_holds hu)
      have hsub := Word.toNat_sub_one (a := s.counter) (by unfold Holds at hu; omega)
      have hpos' : 0 < (s.counter - 1).toNat := by
        rw [Nat.pos_iff_ne_zero]
        exact fun he => hz (BitVec.eq_of_toNat_eq he)
      have hstill : s.decs u + 1 < s.incs u := by omega
      have hholds : ∀ v, Function.update s.decs u (s.decs u + 1) v < s.incs v ↔ Holds s v := by
        intro v
        by_cases hvu : v = u
        · rw [hvu, Function.update_self]
          exact iff_of_true hstill hu
        · rw [Function.update_of_ne hvu]
          rfl
      refine ⟨m, h.inner_release (r := .unlock u) (x := .releasing) (p := .released) hu
        (.inl hk) hidle
        rfl rfl ?_ rfl hholds ⟨hidle, (hholds u).mpr hu, hst, ?_⟩ (.inr rfl) trivial ?_
        (fun _ _ => Iff.rfl) rfl rfl rfl rfl (fun v => ?_) ?_⟩
      · rw [← hst, Function.update_eq_self]
        rfl
      · exact Function.update_self ..
      · exact iff_of_true ((h.locked k u hk).mpr (by rw [hr]; rfl)) rfl
      · have hv := h.count v
        show Function.update s.decs u (s.decs u + 1) v + s.depth v +
          (if Function.update s.pos u .released v = .release then 1 else 0) = s.incs v
        by_cases hvu : v = u
        · subst hvu
          rw [if_pos hpos] at hv
          rw [Function.update_self, Function.update_self, if_neg (by simp)]
          omega
        · rw [Function.update_of_ne hvu, Function.update_of_ne hvu]
          exact hv
      · show (s.counter - 1).toNat + Function.update s.decs u (s.decs u + 1) u = s.incs u
        rw [Function.update_self]
        omega
  case unlock u =>
    obtain rfl := Option.some.inj hs
    obtain ⟨hidle, hu, hst, hpos⟩ := hview
    have hk : Nested s k u := .inl (by rw [hr]; rfl)
    have hl : s.base.lock = some k := (h.locked k u hk).mpr (by rw [hr]; rfl)
    refine ⟨m, h.inner_release (r := .idle) (x := .inside) (p := .released) hu (.inl hk) hidle rfl
      rfl rfl ?_ (fun _ => Iff.rfl) trivial (.inl rfl) hu ?_ ?_ rfl rfl rfl rfl h.count
      (h.counter u (h.owner_of_holds hu))⟩
    · rw [← hpos, Function.update_eq_self]
      rfl
    · simp [State.setRel, Mutex.State.setStatus, Rel.locked]
    · intro k' hne
      simp [State.setRel, Mutex.State.setStatus, hl, hne.symm]

end Inner

/-! ## The calls -/

section Calls

variable {s s' : State K U} {m : Mutex.State K U} {k : K} {u : U}

/-- No kThread is in `internalAcquire` for a uThread that is not acquiring. -/
theorem Inv.not_acquirer (h : Inv s m) (hst : s.base.status u ≠ .acquiring) (k : K) :
    acquirer (s.base.act k) ≠ some u := by
  intro ha
  by_cases hu : Holds s u
  · exact hst (h.acquiring k u ha hu)
  have hk : ∀ v, ¬Nested s k v := by
    rintro v (hv | ⟨hv, hh⟩)
    · rw [((h.view k).caller hv).1] at ha
      cases ha
    · obtain rfl := Option.some.inj (ha.symm.trans hv)
      exact hu hh
  have hrole : (m.act k).role = some (u, .acquiring) := by
    rw [h.outer.act k hk]
    cases hb : s.base.act k <;> simp_all [acquirer, Mutex.Act.role]
  exact hst ((h.outer.status u hu).symm.trans (h.mutex.role k u _ hrole))

theorem Inv.status_of_user (h : Inv s m) (hp : s.pos u = .user) :
    s.base.status u = .inside ∧ Holds s u ∨ s.base.status u = .out ∧ ¬Holds s u := by
  have hf := h.fits u
  rw [hp] at hf
  cases hst : s.base.status u <;> rw [hst] at hf <;> simp_all [Pos.Fits]

theorem inv_acquire (h : Inv s m) (ha : s.base.act k = .idle) (hr : s.rel k = .idle)
    (hp : s.pos u = .user) :
    ∃ m', Inv ({ s with
      base := (s.base.setStatus u .acquiring).goto k (.acqLock u) }.setPos u .acquire) m' := by
  have hcount : ∀ v, s.decs v + s.depth v +
      (if Function.update s.pos u .acquire v = .release then 1 else 0) = s.incs v := by
    intro v
    have hv := h.count v
    by_cases hvu : v = u
    · subst hvu
      rw [Function.update_self, if_neg (by simp)]
      rwa [if_neg (by simp [hp])] at hv
    · rwa [Function.update_of_ne hvu]
  rcases h.status_of_user hp with ⟨hst, hu⟩ | ⟨hst, hu⟩
  · refine ⟨m, h.inner (a := .acqLock u) (r := .idle) hu (.inr ⟨hr, ha, hst⟩) rfl ?_ rfl rfl
      (fun _ => Iff.rfl) trivial (by simp [Rel.caller]) (by simp [acquirer])
        (.inr (.inl rfl)) trivial
      ?_ (fun _ _ => Iff.rfl) rfl rfl rfl rfl hcount (h.counter u (h.owner_of_holds hu))⟩
    · rw [← hr, Function.update_eq_self]
      rfl
    · exact iff_of_false (h.lock_ne ha hr) (by simp [Rel.locked, Mutex.Act.locked])
  have hk : ∀ v, ¬Nested s k v := by simp [Nested, ha, hr, Rel.caller, acquirer]
  have hcall : Mutex.step m (.acquire k u) =
      some ((m.setStatus u .acquiring).goto k (.acqLock u)) :=
    if_pos ⟨(h.outer.act k hk).trans ha, (h.outer.status u hu).trans hst⟩
  refine ⟨_, h.visible (Mutex.reachable_step h.reach hcall) (fun k' => ?_)
    (fun _ => .inl ⟨Iff.rfl, Iff.rfl⟩) (status_update hu .acquiring) rfl
      (fun _ => Iff.rfl) h.outer.owner
    h.outer.bq h.outer.arrivals h.outer.grants (fun v hv => ?_)
      (fun v => ?_) hcount h.counter h.free⟩
  · show Function.update s.base.act k (.acqLock u) k' = _ ∧
      Function.update m.act k (.acqLock u) k' = _ ∨
      _ ∧ Function.update m.act k (.acqLock u) k' = Function.update s.base.act k (.acqLock u) k' ∧
        ∀ v, acquirer (Function.update s.base.act k (.acqLock u) k') = some v → _
    by_cases hne : k' = k
    · subst hne
      rw [Function.update_self, Function.update_self]
      refine .inr ⟨hk, rfl, fun v hv => ?_⟩
      rwa [← Option.some.inj hv]
    · rw [Function.update_of_ne hne, Function.update_of_ne hne]
      exact .inl ⟨rfl, rfl⟩
  · refine Function.update_of_ne ?_ ..
    rintro rfl
    simp [hst] at hv
  · have hv := h.fits v
    show (Function.update s.pos u .acquire v).Fits _ (Function.update s.base.status u .acquiring v)
    by_cases hvu : v = u
    · rw [hvu, Function.update_self, Function.update_self]
      trivial
    · rw [Function.update_of_ne hvu, Function.update_of_ne hvu]
      exact hv

theorem inv_release (h : Inv s m) (ha : s.base.act k = .idle) (hr : s.rel k = .idle)
    (hp : s.pos u = .user) (hd : 0 < s.depth u) :
    Inv ({ s with
      base := s.base.setStatus u .releasing
      depth := Function.update s.depth u (s.depth u - 1) }.setPos u .release |>.setRel k (.lock u))
      m := by
  have hcount := h.count u
  rw [if_neg (by simp [hp])] at hcount
  have hu : Holds s u := by
    unfold Holds
    omega
  have hst : s.base.status u = .inside := by
    rcases h.status_of_user hp with hst | hst
    · exact hst.1
    · exact absurd hu hst.2
  refine h.inner_release (r := .lock u) (x := .releasing) hu (.inr ⟨hr, ha, hst⟩) ha rfl rfl rfl rfl
    (fun _ => Iff.rfl) ⟨ha, hu, Function.update_self .., Function.update_self ..⟩ (.inr rfl) hu
    (iff_of_false (h.lock_ne ha hr) (by simp [Rel.locked])) (fun _ _ => Iff.rfl) rfl rfl rfl rfl
    (fun v => ?_) (h.counter u (h.owner_of_holds hu))
  have hv := h.count v
  show s.decs v + Function.update s.depth u (s.depth u - 1) v +
    (if Function.update s.pos u .release v = .release then 1 else 0) = s.incs v
  by_cases hvu : v = u
  · rw [hvu, Function.update_self, Function.update_self, if_pos rfl]
    omega
  · rw [Function.update_of_ne hvu, Function.update_of_ne hvu]
    exact hv

theorem inv_dispatch (h : Inv s m) (hst : s.base.status u = .ready) :
    ∃ m', Inv { s with base := s.base.setStatus u .inside } m' := by
  have hfits := h.fits u
  rw [hst] at hfits
  have hpos : s.pos u = .acquire ∧ ¬Holds s u := by
    cases hp : s.pos u <;> rw [hp] at hfits <;> simp_all [Pos.Fits]
  obtain ⟨hp, hu⟩ := hpos
  have hcall : Mutex.step m (.dispatch u) = some (m.setStatus u .inside) :=
    if_pos ((h.outer.status u hu).trans hst)
  refine ⟨_, h.visible (Mutex.reachable_step h.reach hcall) (fun _ => .inl ⟨rfl, rfl⟩)
    (fun _ => .inl ⟨Iff.rfl, Iff.rfl⟩) (status_update hu .inside) rfl
      (fun _ => Iff.rfl) h.outer.owner
    h.outer.bq h.outer.arrivals h.outer.grants (fun _ _ => rfl)
      (fun v => ?_) h.count h.counter h.free⟩
  have hv := h.fits v
  show (s.pos v).Fits _ (Function.update s.base.status u .inside v)
  by_cases hvu : v = u
  · rw [hvu, Function.update_self, hp]
    trivial
  · rw [Function.update_of_ne hvu]
    exact hv

theorem inv_ret (h : Inv s m) (hp : s.pos u = .released)
    (hst : s.base.status u = .out ∨ s.base.status u = .inside) (r : BitVec 64) :
    Inv ({ s with result := Function.update s.result u r }.setPos u .user) m := by
  refine h.visible h.reach (fun _ => .inl ⟨rfl, rfl⟩) (fun _ => .inl ⟨Iff.rfl, Iff.rfl⟩)
    (fun _ => .inl ⟨rfl, rfl⟩) rfl (fun _ => Iff.rfl) h.outer.owner h.outer.bq h.outer.arrivals
    h.outer.grants (fun v hv => ?_) (fun v => ?_) (fun v => ?_) h.counter h.free
  · refine Function.update_of_ne ?_ ..
    rintro rfl
    simp [hv] at hst
  · have hv := h.fits v
    show (Function.update s.pos u .user v).Fits _ (s.base.status v)
    by_cases hvu : v = u
    · subst hvu
      rw [hp] at hv
      rw [Function.update_self]
      rcases hst with hst | hst <;> rw [hst] at hv ⊢ <;> exact hv
    · rw [Function.update_of_ne hvu]
      exact hv
  · have hv := h.count v
    show s.decs v + s.depth v + (if Function.update s.pos u .user v = .release then 1 else 0) =
      s.incs v
    by_cases hvu : v = u
    · subst hvu
      rw [if_neg (by simp [hp])] at hv
      rw [Function.update_self, if_neg (by simp)]
      exact hv
    · rw [Function.update_of_ne hvu]
      exact hv

/-- Between obtaining the lock and the increment, `u` is the owner. -/
theorem Inv.owner_of_inside (h : Inv s m) (hst : s.base.status u = .inside) :
    s.base.owner = some u := by
  by_cases hu : Holds s u
  · exact h.owner_of_holds hu
  · rw [← h.outer.owner]
    exact h.mutex.owns u (.inl ((h.outer.status u hu).trans hst))

/-- Outside its releases, the counter is the depth of the owner. -/
theorem Inv.counter_eq_depth (h : Inv s m) (ho : s.base.owner = some u) (hp : s.pos u ≠ .release) :
    s.counter.toNat = s.depth u := by
  have hcounter := h.counter u ho
  have hcount := h.count u
  rw [if_neg hp] at hcount
  omega

theorem inv_incr (h : Inv s m) (hp : s.pos u = .acquire) (hst : s.base.status u = .inside)
    (hd : s.depth u + 1 < 2 ^ 64) : Inv ((s.incr u).setPos u .user) m := by
  have hown := h.owner_of_inside hst
  have hcounter := h.counter u hown
  have hadd : (s.counter + 1).toNat = s.counter.toNat + 1 := by
    refine Word.toNat_add_one ?_
    rw [h.counter_eq_depth hown (by simp [hp])]
    exact hd
  have hin : m.status u = .inside := by
    by_cases hu : Holds s u
    · exact h.outer.held u hu
    · exact (h.outer.status u hu).trans hst
  generalize hs' : (s.incr u).setPos u .user = s'
  have hincs : s'.incs = Function.update s.incs u (s.incs u + 1) := by rw [← hs']; rfl
  have hdecs : s'.decs = s.decs := by rw [← hs']; rfl
  have hpos : s'.pos = Function.update s.pos u .user := by rw [← hs']; rfl
  have hbase : s'.base = s.base := by rw [← hs']; rfl
  have hrel : s'.rel = s.rel := by rw [← hs']; rfl
  have hholds : ∀ v, v ≠ u → (Holds s' v ↔ Holds s v) := by
    intro v hv
    unfold Holds
    rw [hincs, hdecs, Function.update_of_ne hv]
  have hu' : Holds s' u := by
    unfold Holds
    rw [hincs, hdecs, Function.update_self]
    omega
  have hcalled : ∀ k, (s.rel k).caller ≠ some u := by
    intro k hk
    have hrst := ((h.view k).caller hk).2.2
    simp [hst] at hrst
  have hacq : ∀ k, acquirer (s.base.act k) ≠ some u := h.not_acquirer (by simp [hst])
  have hne : ∀ k v, Nested s' k v → v ≠ u := by
    rintro k v (hv | ⟨hv, -⟩) rfl
    · rw [hrel] at hv
      exact hcalled k hv
    · rw [hbase] at hv
      exact hacq k hv
  have hnested : ∀ k v, Nested s' k v ↔ Nested s k v := by
    intro k v
    by_cases hvu : v = u
    · subst hvu
      refine iff_of_false (fun hv => hne k v hv rfl) ?_
      rintro (hv | ⟨hv, -⟩)
      · exact hcalled k hv
      · exact hacq k hv
    · unfold Nested
      rw [hrel, hbase, hholds v hvu]
  refine ⟨h.reach, ⟨fun k => ?_, ?_, ?_, fun k hn => ?_, fun k v hv => ?_, fun v hv => ?_,
    fun v hv => ?_, ?_, ?_⟩, fun k => ?_, fun k v hv hh => ?_, fun k k' v hv hv' => ?_,
    fun k v hv => ?_, fun v => ?_, fun v => ?_, fun v hv => ?_, fun hn => ?_⟩
  · simp only [hnested, hbase]
    exact h.outer.lock k
  · rw [hbase]
    exact h.outer.owner
  · rw [hbase]
    exact h.outer.bq
  · rw [hbase]
    exact h.outer.act k fun v hv => hn v ((hnested k v).mpr hv)
  · exact h.outer.nested k v ((hnested k v).mp hv)
  · have hvu : v ≠ u := by
      rintro rfl
      exact hv hu'
    rw [hbase]
    exact h.outer.status v fun hh => hv ((hholds v hvu).mpr hh)
  · by_cases hvu : v = u
    · rw [hvu]
      exact hin
    · exact h.outer.held v ((hholds v hvu).mp hv)
  · rw [← hs']
    exact h.outer.arrivals
  · rw [← hs']
    exact h.outer.grants
  · have hv := h.view k
    rw [hrel]
    cases hrk : s.rel k with
    | idle => trivial
    | lock v | dec v | unlock v =>
      rw [hrk] at hv
      obtain ⟨hidle, hh, hrst, hpv⟩ := hv
      have hvu : v ≠ u := by
        rintro rfl
        simp [hst] at hrst
      refine ⟨by rw [hbase]; exact hidle, (hholds v hvu).mpr hh, by rw [hbase]; exact hrst, ?_⟩
      rw [hpos, Function.update_of_ne hvu]
      exact hpv
  · have hvu := hne k v (.inr ⟨hv, hh⟩)
    rw [hbase] at hv ⊢
    exact h.acquiring k v hv ((hholds v hvu).mp hh)
  · exact h.inj k k' v ((hnested k v).mp hv) ((hnested k' v).mp hv')
  · rw [hrel, hbase]
    exact h.locked k v ((hnested k v).mp hv)
  · rw [hpos, hbase]
    by_cases hvu : v = u
    · rw [hvu, Function.update_self, hst]
      exact hu'
    · rw [Function.update_of_ne hvu, propext (hholds v hvu)]
      exact h.fits v
  · have hv := h.count v
    rw [hpos, hincs, hdecs, show s'.depth = Function.update s.depth u
      (s.depth u + 1) by rw [← hs']; rfl]
    by_cases hvu : v = u
    · subst hvu
      rw [if_neg (by simp [hp])] at hv
      rw [Function.update_self, Function.update_self, Function.update_self, if_neg (by simp)]
      omega
    · rw [Function.update_of_ne hvu, Function.update_of_ne hvu, Function.update_of_ne hvu]
      exact hv
  · rw [hbase] at hv
    obtain rfl := Option.some.inj (hown.symm.trans hv)
    rw [hincs, hdecs, Function.update_self, show s'.counter = s.counter + 1 by rw [← hs']; rfl,
      hadd]
    omega
  · rw [hbase, hown] at hn
    cases hn

/-- No uThread goes 2^64 acquisitions deep. -/
def Shallow (s : State K U) : Action K U → Prop
  | .incr u => s.depth u + 1 < 2 ^ 64
  | _ => True

theorem inv_step (h : Inv s m) {a : Action K U} (hc : Shallow s a) (hs : step s a = some s') :
    ∃ m', Inv s' m' := by
  cases a with
  | acquire k u =>
    simp only [step] at hs
    split_ifs at hs with hg
    obtain rfl := Option.some.inj hs
    exact inv_acquire h hg.1 hg.2.1 hg.2.2
  | release k u =>
    simp only [step] at hs
    split_ifs at hs with hg
    obtain rfl := Option.some.inj hs
    exact ⟨m, inv_release h hg.1 hg.2.1 hg.2.2.1 hg.2.2.2⟩
  | run k => exact inv_run h hs
  | dispatch u =>
    simp only [step] at hs
    split_ifs at hs with hst
    obtain rfl := Option.some.inj hs
    exact inv_dispatch h hst
  | incr u =>
    simp only [step] at hs
    split_ifs at hs with hg
    obtain rfl := Option.some.inj hs
    exact ⟨m, inv_incr h hg.1 hg.2 hc⟩
  | ret u =>
    simp only [step] at hs
    split_ifs at hs with hg
    obtain rfl := Option.some.inj hs
    exact ⟨m, inv_ret h hg.1 hg.2 _⟩

theorem inv_initial : Inv (initial : State K U) Mutex.initial where
  reach := .of_init rfl
  outer := by
    refine ⟨by simp [initial, Mutex.initial], rfl, rfl, fun _ _ => rfl, fun _ _ _ => rfl,
      fun _ _ => rfl, fun _ hu => ?_, rfl, rfl⟩
    exact absurd hu (Nat.lt_irrefl 0)
  view := fun _ => trivial
  acquiring := fun _ _ hu => by cases hu
  inj := fun _ _ _ hk => by
    rcases hk with hk | hk
    · cases hk
    · cases hk.1
  locked := fun _ _ hk => by
    rcases hk with hk | hk
    · cases hk
    · cases hk.1
  fits := fun _ => Nat.lt_irrefl 0
  count := fun _ => rfl
  counter := fun _ hu => by cases hu
  free := fun _ => rfl

theorem inv_reachable (h : (machine K U).ReachableBy Shallow s) : ∃ m, Inv s m := by
  refine Machine.ReachableBy.invariant (I := fun s => ∃ m, Inv s m) ?_ ?_ h
  · rintro s rfl
    exact ⟨_, inv_initial⟩
  · rintro s a s' ⟨m, hI⟩ hc hs
    exact inv_step hI hc hs

/-! ## The recursive lock -/

/-- `internalAcquire` has returned to `u`, and `u` has not begun to give the lock up. -/
def Inside (s : State K U) (u : U) : Prop :=
  s.base.status u = .inside ∨ 0 < s.depth u ∨ s.pos u = .release

theorem Inv.owner_of_within (h : Inv s m) (hu : Inside s u) : s.base.owner = some u := by
  have hcount := h.count u
  rcases hu with hst | hd | hp
  · exact h.owner_of_inside hst
  · refine h.owner_of_holds (?_ : s.decs u < s.incs u)
    omega
  · rw [if_pos hp] at hcount
    refine h.owner_of_holds (?_ : s.decs u < s.incs u)
    omega

/-- **The owner gives the lock up** only when it holds it no more, and to the first waiter. -/
theorem owner_step (h : Inv s m) {a : Action K U} (hs : step s a = some s')
    (ho : s.base.owner = some u) (ho' : s'.base.owner ≠ some u) :
    ¬Holds s u ∧ s'.base.owner = s.base.bq.head? := by
  cases a with
  | run k =>
    have hs : run k s = some s' := hs
    unfold run at hs
    cases hr : s.rel k <;> simp only [hr] at hs
    case idle =>
      obtain ⟨b, hb, rfl⟩ := Option.map_eq_some_iff.mp hs
      by_cases hk : ∃ v, Nested s k v
      · obtain ⟨v, hk⟩ := hk
        exact absurd ((inv_nested h hr hk hb).2.trans ho) ho'
      · obtain ⟨m', hB⟩ := base_step h (not_exists.mp hk) hb
        exact (hB.passes.resolve_left fun he => ho' (he.trans ho)) u ho
    case lock v | dec v =>
      split_ifs at hs <;> obtain rfl := Option.some.inj hs <;> exact absurd ho ho'
    case unlock v =>
      obtain rfl := Option.some.inj hs
      exact absurd ho ho'
  | _ =>
    simp only [step] at hs
    split_ifs at hs
    obtain rfl := Option.some.inj hs
    exact absurd ho ho'

/-- What a state of a correct recursive lock satisfies, for the calls whose depth stays below
2^64. -/
structure RecursiveLock (s : State K U) : Prop where
  /-- At most one uThread is inside. -/
  exclusive : ∀ u v, Inside s u → Inside s v → u = v
  /-- The counter is the owner's own increments less its own decrements. -/
  counted : ∀ u, s.base.owner = some u →
    s.decs u ≤ s.incs u ∧ s.counter.toNat = s.incs u - s.decs u
  unowned : s.base.owner = none → s.counter = 0
  /-- It is 0 between obtaining the lock and the first increment. -/
  obtained : ∀ u, s.base.owner = some u → s.pos u = .acquire → s.depth u = 0 → s.counter = 0
  /-- Only the owner increments it. -/
  increments : ∀ u, s.pos u = .acquire → s.base.status u = .inside → s.base.owner = some u
  /-- Only the owner decrements it, never from 0, and to 0 just when its depth is 0. -/
  decrements : ∀ k u, s.rel k = .dec u →
    s.base.owner = some u ∧ s.counter ≠ 0 ∧ (s.counter - 1 = 0 ↔ s.depth u = 0)
  /-- The owner gives the lock up only at depth 0: to the first waiter, or to nobody. -/
  passes : ∀ a s' u, step s a = some s' → s.base.owner = some u → s'.base.owner ≠ some u →
    s.depth u = 0 ∧ s.incs u = s.decs u ∧ s'.base.owner = s.base.bq.head?
  /-- A uThread back at depth 0 whose release has dropped the internal lock is not the owner. -/
  given : ∀ u, s.depth u = 0 →
    s.pos u = .user ∨ s.pos u = .released ∧ s.base.status u ≠ .releasing → s.base.owner ≠ some u
  /-- The lock is obtained in the order of the arrivals. -/
  fifo : s.grants <+: s.arrivals
  /-- Those who have arrived and not obtained it wait in that order. -/
  waiters : s.base.lock = none → s.arrivals = s.grants ++ s.base.bq
  /-- `acquire` returns the new depth of the caller. -/
  returns : ∀ u s', step s (.incr u) = some s' → s.depth u + 1 < 2 ^ 64 →
    s'.depth u = s.depth u + 1 ∧ (s'.result u).toNat = s'.depth u

theorem Inv.given (h : Inv s m) (hd : s.depth u = 0)
    (hp : s.pos u = .user ∨ s.pos u = .released ∧ s.base.status u ≠ .releasing) :
    s.base.owner ≠ some u := by
  intro ho
  have hcount := h.count u
  have hp' : s.pos u ≠ .release := by
    rcases hp with hp | hp
    · simp [hp]
    · simp [hp.1]
  rw [if_neg hp'] at hcount
  have hu : ¬Holds s u := by
    unfold Holds
    omega
  -- It is `out`, and a plain mutex has no owner that is out.
  have hout : s.base.status u = .out := by
    have hf := h.fits u
    rcases hp with hp | ⟨hp, hst⟩
    · rw [hp] at hf
      cases hst : s.base.status u <;> rw [hst] at hf <;> simp_all [Pos.Fits]
    · rw [hp] at hf
      cases hst' : s.base.status u <;> rw [hst'] at hf hst <;> simp_all [Pos.Fits]
  rw [← h.outer.owner] at ho
  exact (h.mutex.owned u ho).1 ((h.outer.status u hu).trans hout)

theorem Inv.decrements (h : Inv s m) (hr : s.rel k = .dec u) :
    s.base.owner = some u ∧ s.counter ≠ 0 ∧ (s.counter - 1 = 0 ↔ s.depth u = 0) := by
  have hview := h.view k
  rw [hr] at hview
  obtain ⟨-, hu, -, hp⟩ := hview
  have hown := h.owner_of_holds hu
  have hcounter := h.counter u hown
  have hcount := h.count u
  rw [if_pos hp] at hcount
  have hpos : 0 < s.counter.toNat := by omega
  have hsub := Word.toNat_sub_one hpos
  refine ⟨hown, ?_, ?_⟩
  · intro hz
    simp [hz] at hpos
  · rw [← BitVec.toNat_inj]
    show (s.counter - 1).toNat = 0 ↔ _
    omega

/-- **The owner lock is a correct recursive lock** in every run in which no uThread nests 2^64
acquisitions. -/
theorem recursive_lock (h : (machine K U).ReachableBy Shallow s) : RecursiveLock s := by
  obtain ⟨m, hI⟩ := inv_reachable h
  obtain ⟨-, hordered, -⟩ := Mutex.ordered_paired_reachable hI.reach
  have hline : s.arrivals = s.grants ++ m.line := by
    rw [← hI.outer.arrivals, ← hI.outer.grants]
    exact hordered
  refine ⟨?_, ?_, hI.free, ?_, ?_, fun k u hr => hI.decrements hr, ?_,
    fun u hd hp => hI.given hd hp, ⟨m.line, hline.symm⟩, ?_, ?_⟩
  · intro u v hu hv
    exact Option.some.inj ((hI.owner_of_within hu).symm.trans (hI.owner_of_within hv))
  · intro u ho
    have hcounter := hI.counter u ho
    omega
  · intro u ho hp hd
    have hz := hI.counter_eq_depth ho (by simp [hp])
    rw [hd] at hz
    exact BitVec.eq_of_toNat_eq hz
  · intro u _ hst
    exact hI.owner_of_inside hst
  · intro a s' u hs ho ho'
    obtain ⟨hu, hhead⟩ := owner_step hI hs ho ho'
    have hcount := hI.count u
    unfold Holds at hu
    exact ⟨by omega, by omega, hhead⟩
  · intro hl
    rw [hline, Mutex.State.line_of_free (hI.lock_outer hl), hI.outer.bq]
  · intro u s' hs hd
    simp only [step] at hs
    split_ifs at hs with hg
    obtain rfl := Option.some.inj hs
    have hc := hI.counter_eq_depth (hI.owner_of_inside hg.2) (by simp [hg.1])
    have hadd := Word.toNat_add_one (a := s.counter) (by rw [hc]; exact hd)
    refine ⟨Function.update_self .., ?_⟩
    show (Function.update s.result u (s.counter + 1) u).toNat =
      Function.update s.depth u (s.depth u + 1) u
    rw [Function.update_self, Function.update_self, hadd, hc]

instance (s : State K U) : (a : Action K U) → Decidable (Shallow s a)
  | .incr u => inferInstanceAs (Decidable (s.depth u + 1 < 2 ^ 64))
  | .acquire _ _ | .release _ _ | .run _ | .dispatch _ | .ret _ => inferInstanceAs (Decidable True)

/-- One call of `acquire` by uThread `0` that need not wait. -/
def acquireNow : List (Action ℕ ℕ) := .acquire 0 0 :: (List.replicate 4 (.run 0) ++ [.incr 0])

/-- uThread `0` acquires the lock twice. uThread `1` arrives and waits; `0` releases the lock twice,
and `1` goes on. -/
def twoLevels : List (Action ℕ ℕ) :=
  List.flatten [acquireNow, acquireNow, .acquire 1 1 :: List.replicate 5 (.run 1),
    .release 0 0 :: List.replicate 3 (.run 0), [.ret 0], .release 0 0 :: List.replicate 8 (.run 0),
    [.ret 0, .dispatch 1, .incr 1]]

theorem recursive_lock_twoLevels :
    ∃ s : State ℕ ℕ, (machine ℕ ℕ).ReachableBy Shallow s ∧ s.base.owner = some 1 ∧ s.counter = 1 ∧
      s.grants = [0, 1] ∧ RecursiveLock s := by
  have hinit : (machine ℕ ℕ).ReachableBy Shallow initial := .init rfl
  have hr := hinit.get twoLevels (by decide +kernel)
  exact ⟨_, hr, by decide +kernel, by decide +kernel, by decide +kernel, recursive_lock hr⟩

/-- uThread `0` is in no call, `n` acquisitions deep. -/
structure Deep (n : ℕ) (s : State ℕ ℕ) : Prop where
  lock : s.base.lock = none
  owner : s.base.owner = some 0
  act : s.base.act 0 = .idle
  rel : s.rel 0 = .idle
  pos : s.pos 0 = .user
  depth : s.depth 0 = n
  incs : s.incs 0 = n
  decs : s.decs 0 = 0
  counter : s.counter = BitVec.ofNat 64 n

theorem Deep.acquire {n : ℕ} {s : State ℕ ℕ} (h : Deep n s) :
    ∃ s', (machine ℕ ℕ).run s acquireNow = some s' ∧ Deep (n + 1) s' := by
  obtain ⟨hlock, howner, hact, hrel, hpos, hdepth, hincs, hdecs, hcounter⟩ := h
  generalize hr : (machine ℕ ℕ).run s acquireNow = r
  simp [acquireNow, Machine.run, machine, step, run, Mutex.run, Mutex.mustWait, hlock, howner,
    hact, hrel,
    hpos, Mutex.State.goto, Mutex.State.setStatus, Mutex.State.grant, State.setPos, State.onBase,
    State.incr, hdepth, hincs, hcounter] at hr
  subst hr
  refine ⟨_, rfl, rfl, rfl, ?_, hrel, ?_, ?_, ?_, hdecs, ?_⟩
  · simp
  · simp
  · simp
  · simp
  · exact (BitVec.ofNat_add ..).symm

theorem deep_reachable (n : ℕ) : ∃ s, (machine ℕ ℕ).Reachable s ∧ Deep (n + 1) s := by
  induction n with
  | zero =>
    have hinit : (machine ℕ ℕ).Reachable initial := .of_init rfl
    refine ⟨_, hinit.get acquireNow (by decide +kernel), ?_⟩
    constructor <;> decide +kernel
  | succ n ih =>
    obtain ⟨s, hr, hd⟩ := ih
    obtain ⟨s', hrun, hd'⟩ := hd.acquire
    exact ⟨s', hr.run hrun, hd'⟩

/-- **The counter wraps.** 2^64 acquisitions deep, the counter of the owner is 0. -/
theorem depth_wraps :
    ∃ s : State ℕ ℕ, (machine ℕ ℕ).Reachable s ∧ s.base.owner = some 0 ∧ s.depth 0 = 2 ^ 64 ∧
      s.incs 0 - s.decs 0 = 2 ^ 64 ∧ s.counter = 0 := by
  obtain ⟨s, hr, hd⟩ := deep_reachable (2 ^ 64 - 1)
  refine ⟨s, hr, hd.owner, hd.depth, ?_, hd.counter⟩
  rw [hd.incs, hd.decs]
  rfl

end Calls

end UThreads.OwnerLock
