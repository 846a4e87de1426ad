import UThreads.Sync.Join

/-!
# `join` and `terminate`: the rendezvous

`Inv` says where the two parties are with respect to each other. The party that comes first waits on
`joinWait` until the other one takes it off the queue (`Meets`), and the other one is through with
`joinMtx` and `joinWait` before the first goes on. Where the joiner comes first, a count of the
calls on `afterJoin` (`Inv.balance`) tells that the target leaves `P` only with the permit of that
`V`.

Main result: **`rendezvous`**.
-/

namespace UThreads.Join

open BlockingQueue (Waits)

variable {K : Type*} [DecidableEq K]

/-! ## The positions -/

/-- The positions of a party in `joinWait`. -/
def Pc.InWait : Pc → ConditionVariable.Pc → Prop
  | .acquire, x => x = .acquire ∨ x = .own
  | .empty, x => x = .own
  | .wait, x => x = .waitSuspend ∨ x = .waitAcquire ∨ x = .own
  | .release, x => x = .release ∨ x = .out
  | .signal, x => x = .signal ∨ x = .out
  | _, x => x = .out

/-- Not in `P`. -/
def inV : Semaphore.Pc → Bool
  | .idle | .vAcquire | .vSignal | .vAdd | .vRelease => true
  | _ => false

/-- Not in `V`. -/
def inP : Semaphore.Pc → Bool
  | .idle | .pAcquire | .pTest | .pSuspend | .pTake | .pRelease => true
  | _ => false

/-- The positions of a party in `afterJoin`. -/
def Pc.InAfterJoin (p : Party) : Pc → Semaphore.Pc → Prop
  | .mark, x => p = .joiner ∧ x = .idle
  | .afterV, x => p = .joiner ∧ inV x = true
  | .afterP, x => p = .target ∧ inP x = true
  | .refused, _ => False
  | _, x => x = .idle

/-- Before the test of `joinWait`. -/
def Pc.early : Pc → Bool
  | .start | .test | .mark | .acquire | .empty => true
  | _ => false

/-- The positions of the parties, given who came first. -/
def Pc.fits (first : Option Party) (p : Party) (x : Pc) : Bool :=
  match first with
  | none => x.early
  | some q =>
    if p = q then x = .wait || x = .release || x = .afterV || x = .done
    else x.early || x = .signal || x = .afterP || x = .done

/-- The party that comes second has not taken the first one off the queue. -/
def unsignalled : Pc → BlockingQueue.Pc Party → Bool
  | .signal, .sigTest | .signal, .sigFront | .signal, .sigPop _ => true
  | .signal, _ | .afterP, _ | .done, _ => false
  | _, _ => true

/-- This party has called `P` or `V` in this life. -/
def Pc.called (first : Option Party) : Pc → Bool
  | .afterV | .afterP => true
  | .done => first = some .joiner
  | _ => false

/-- Party `p`, which came first, waits until the other one, at `y`, takes it off the queue; then the
other one is about to resume it, or has. -/
def Meets (c : ConditionVariable.State K Party) (p : Party) (y : Pc) : Prop :=
  (unsignalled y (c.queue.pc p.other) = true → c.pc p = .waitSuspend ∧ Waits c.queue p) ∧
    (unsignalled y (c.queue.pc p.other) = false → ¬Waits c.queue p ∧
      ((c.queue.pc p.other).handing = some p ∨ c.queue.pc p.other = .out))

/-- The calls on `afterJoin` over all lives. -/
structure Calls (s : State K) : Prop where
  p : s.afterJoin.pCalls .joiner = 0
  v : s.afterJoin.vCalls .target = 0
  both : s.afterJoin.vCalls .joiner + ((s.pc .target).called s.first).toNat =
    s.afterJoin.pCalls .target + ((s.pc .joiner).called s.first).toNat

structure Inv (s : State K) : Prop where
  joinWait : (ConditionVariable.machine K Party).Reachable s.joinWait
  afterJoin : (Semaphore.machine K Party 0).Reachable s.afterJoin
  inWait : ∀ p, (s.pc p).InWait (s.joinWait.pc p)
  inAfterJoin : ∀ p, (s.pc p).InAfterJoin p (s.afterJoin.pc p)
  attached : s.jState ≠ .detached
  joinable : s.pc .joiner = .start ∨ s.pc .joiner = .test → s.jState = .joinable
  fits : ∀ p, (s.pc p).fits s.first p = true
  waits : ∀ p, Waits s.joinWait.queue p → s.first = some p
  meets : ∀ p, s.first = some p → Meets s.joinWait p (s.pc p.other)
  calls : Calls s

/-! ## What a step does -/

/-- The steps of party `p` that change nothing but its position. -/
inductive Local (s : State K) : Party → Pc → Pc → Prop
  | start {p : Party} : Local s p .start .test
  | joinable : s.jState = .joinable → Local s .joiner .test .mark
  | refused : s.jState ≠ .joinable → Local s .joiner .test .refused
  | detached : s.jState = .detached → Local s .target .test .done
  | acquired {p : Party} : s.joinWait.pc p = .own → Local s p .acquire .empty
  | waited : s.joinWait.pc .target = .out → Local s .target .release .done
  | signalled : s.joinWait.pc .joiner = .out → Local s .joiner .signal .done
  | afterV {p : Party} : s.afterJoin.pc p = .idle → Local s p .afterV .done
  | afterP {p : Party} : s.afterJoin.pc p = .idle → Local s p .afterP .done

/-- The calls on `joinMtx` and `joinWait` but `wait`. -/
inductive CallsWait (s : State K) (k : K) (p : Party) :
    Pc → Pc → ConditionVariable.Action K Party → JState → Prop
  | test : p = .target → CallsWait s k p .test .acquire (.acquire k p) s.jState
  | mark : CallsWait s k p .mark .acquire (.acquire k p) .joining
  | signal : s.joinWait.queue.bq ≠ [] → CallsWait s k p .empty .signal (.signal p) s.jState
  | release : CallsWait s k p .wait .release (.release p) s.jState

/-- The calls on `afterJoin`. -/
inductive CallsAfterJoin (k : K) : Party → Pc → Pc → Semaphore.Action K Party → Prop
  | v : CallsAfterJoin k .joiner .release .afterV (.v k .joiner)
  | p : CallsAfterJoin k .target .signal .afterP (.p k .target)

inductive Step (s : State K) : Action K → State K → Prop
  | goto {a : Action K} {p : Party} {x y : Pc} : s.pc p = x → Local s p x y → Step s a (s.goto p y)
  | joinWait {k : K} {p : Party} {x y : Pc} {a : ConditionVariable.Action K Party} {j : JState}
      {c : ConditionVariable.State K Party} : s.pc p = x → CallsWait s k p x y a j →
      ConditionVariable.step s.joinWait a = some c →
      Step s (.run k p) ({ s with joinWait := c, jState := j }.goto p y)
  | wait {k : K} {p : Party} {c : ConditionVariable.State K Party} : s.pc p = .empty →
      s.joinWait.queue.bq = [] → ConditionVariable.step s.joinWait (.wait p) = some c →
      Step s (.run k p) ({ s with joinWait := c, first := some p }.goto p .wait)
  | afterJoin {k : K} {p : Party} {x y : Pc} {a : Semaphore.Action K Party}
      {c : Semaphore.State K Party} : s.pc p = x → CallsAfterJoin k p x y a →
      (s.joinWait.pc p = .out) → Semaphore.step s.afterJoin a = some c →
      Step s (.run k p) ({ s with afterJoin := c }.goto p y)
  | inJoinWait {a : ConditionVariable.Action K Party} {c : ConditionVariable.State K Party} :
      a.internal = true → ConditionVariable.step s.joinWait a = some c →
      Step s (.joinWait a) { s with joinWait := c }
  | inAfterJoin {a : Semaphore.Action K Party} {c : Semaphore.State K Party} :
      a.internal = true → Semaphore.step s.afterJoin a = some c →
      Step s (.afterJoin a) { s with afterJoin := c }
  | recycle {k : K} : s.pc .target = .done → Step s (.recycle k) s.recycle

section Steps

variable {s s' : State K} {p q : Party}

theorem State.onJoinWait_step {k : K} {x y : Pc} {a : ConditionVariable.Action K Party} {j : JState}
    (hx : s.pc p = x) (hc : CallsWait s k p x y a j)
    (hs : { s with jState := j }.onJoinWait a p y = some s') : Step s (.run k p) s' := by
  obtain ⟨c, hc', rfl⟩ := Option.map_eq_some_iff.mp hs
  exact .joinWait hx hc hc'

theorem run_step {k : K} (hs : run k p s = some s') : Step s (.run k p) s' := by
  unfold run at hs
  cases hx : s.pc p with
  | start | done | refused => simp [hx] at hs
  | test =>
    simp only [hx] at hs
    cases p with
    | joiner =>
      cases hs
      split_ifs with hj
      · exact .goto hx (.joinable hj)
      · exact .goto hx (.refused hj)
    | target =>
      dsimp only at hs
      split_ifs at hs with hj
      · cases hs
        exact .goto hx (.detached hj)
      · exact State.onJoinWait_step hx (.test rfl) hs
  | mark =>
    simp only [hx] at hs
    exact State.onJoinWait_step hx .mark hs
  | acquire =>
    simp only [hx] at hs
    split_ifs at hs with hown
    cases hs
    exact .goto hx (.acquired hown)
  | empty =>
    simp only [hx] at hs
    split_ifs at hs with hempty
    · obtain ⟨c, hc, rfl⟩ := Option.map_eq_some_iff.mp hs
      exact .wait hx (List.isEmpty_iff.mp hempty) hc
    · exact State.onJoinWait_step hx (.signal fun hnil => hempty (List.isEmpty_iff.mpr hnil)) hs
  | wait =>
    simp only [hx] at hs
    exact State.onJoinWait_step hx .release hs
  | release =>
    simp only [hx] at hs
    split_ifs at hs with hout hcaller
    · obtain ⟨c, hc, rfl⟩ := Option.map_eq_some_iff.mp hs
      cases p with
      | joiner => exact .afterJoin hx .v hout hc
      | target => cases hcaller
    · cases hs
      cases p with
      | joiner => exact absurd rfl hcaller
      | target => exact .goto hx (.waited hout)
  | signal =>
    simp only [hx] at hs
    split_ifs at hs with hout hcaller
    · cases hs
      cases p with
      | joiner => exact .goto hx (.signalled hout)
      | target => cases hcaller
    · obtain ⟨c, hc, rfl⟩ := Option.map_eq_some_iff.mp hs
      cases p with
      | joiner => exact absurd rfl hcaller
      | target => exact .afterJoin hx .p hout hc
  | afterV =>
    simp only [hx] at hs
    split_ifs at hs with hidle
    cases hs
    exact .goto hx (.afterV hidle)
  | afterP =>
    simp only [hx] at hs
    split_ifs at hs with hidle
    cases hs
    exact .goto hx (.afterP hidle)

theorem step_cases {a : Action K} (hs : step s a = some s') : Step s a s' := by
  cases a with
  | start p =>
    simp only [step] at hs
    split_ifs at hs with hx
    cases hs
    exact .goto hx .start
  | run k p => exact run_step hs
  | joinWait a =>
    simp only [step] at hs
    split_ifs at hs with ha
    obtain ⟨c, hc, rfl⟩ := Option.map_eq_some_iff.mp hs
    exact .inJoinWait ha hc
  | afterJoin a =>
    simp only [step] at hs
    split_ifs at hs with ha
    obtain ⟨c, hc, rfl⟩ := Option.map_eq_some_iff.mp hs
    exact .inAfterJoin ha hc
  | recycle k =>
    simp only [step] at hs
    split_ifs at hs with hx
    cases hs
    exact .recycle hx

/-! ## The invariant -/

theorem Party.other_ne : p.other ≠ p := by cases p <;> exact nofun

theorem Party.other_other : p.other.other = p := by cases p <;> rfl

theorem Party.eq_or (q p : Party) : q = p ∨ q = p.other := by
  cases q <;> cases p <;> first | exact .inl rfl | exact .inr rfl

theorem Pc.first_of_wait {first : Option Party} {x : Pc} (h : x.fits first p = true)
    (hx : x = .wait ∨ x = .release ∨ x = .afterV) : first = some p := by
  rcases first with _ | q
  · rcases hx with rfl | rfl | rfl <;> cases h
  · cases q <;> cases p <;> rcases hx with rfl | rfl | rfl <;> first | rfl | cases h

theorem Pc.first_of_signal {first : Option Party} {x : Pc} (h : x.fits first p = true)
    (hx : x = .signal ∨ x = .afterP) : first = some p.other := by
  rcases first with _ | q
  · rcases hx with rfl | rfl <;> cases h
  · cases q <;> cases p <;> rcases hx with rfl | rfl <;> first | rfl | cases h

theorem Pc.not_first_of_early {first : Option Party} {x : Pc} (h : x.fits first p = true)
    (hx : x.early = true) : first ≠ some p := by
  rintro rfl
  cases p <;> cases x <;> cases hx <;> cases h

theorem unsignalled_of_early {x : Pc} {y : BlockingQueue.Pc Party} (hx : x.early = true) :
    unsignalled x y = true := by
  cases x <;> first | rfl | cases hx

theorem Pc.called_of_early {first : Option Party} {x : Pc} (hx : x.early = true) :
    x.called first = false := by
  cases x <;> first | rfl | cases hx

/-- The party that waits is the first one, -/
theorem Inv.first_of_wait (h : Inv s) {x : Pc} (hx : s.pc p = x)
    (hw : x = .wait ∨ x = .release ∨ x = .afterV) : s.first = some p :=
  Pc.first_of_wait (hx ▸ h.fits p) hw

/-- and the party that signals is the second one. -/
theorem Inv.first_of_signal (h : Inv s) {x : Pc} (hx : s.pc p = x)
    (hw : x = .signal ∨ x = .afterP) : s.first = some p.other :=
  Pc.first_of_signal (hx ▸ h.fits p) hw

/-- An early party is not the first one. -/
theorem Inv.not_first_of_early (h : Inv s) {x : Pc} (hx : s.pc p = x) (he : x.early = true) :
    s.first ≠ some p :=
  Pc.not_first_of_early (hx ▸ h.fits p) he

omit [DecidableEq K] in
/-- The first party moves. -/
theorem Meets.first {c c' : ConditionVariable.State K Party} {y : Pc} (h : Meets c p y)
    (hq : c'.queue.pc p.other = c.queue.pc p.other) (hw : Waits c'.queue p ↔ Waits c.queue p)
    (hpc : c.pc p = .waitSuspend → Waits c.queue p → c'.pc p = .waitSuspend) : Meets c' p y := by
  unfold Meets
  rw [hq, hw]
  refine ⟨fun hun => ?_, h.2⟩
  obtain ⟨hc, hwaits⟩ := h.1 hun
  exact ⟨hpc hc hwaits, hwaits⟩

omit [DecidableEq K] in
/-- The second party moves. -/
theorem Meets.second {c c' : ConditionVariable.State K Party} {x y : Pc} (h : Meets c p x)
    (hpc : c'.pc p = c.pc p) (hw : Waits c'.queue p ↔ Waits c.queue p)
    (hun : unsignalled y (c'.queue.pc p.other) = unsignalled x (c.queue.pc p.other))
    (hq : unsignalled y (c'.queue.pc p.other) = false →
      c'.queue.pc p.other = c.queue.pc p.other) : Meets c' p y := by
  refine ⟨fun hy => ?_, fun hy => ?_⟩
  · rw [hpc, hw]
    exact h.1 (hun ▸ hy)
  · rw [hw, hq hy]
    exact h.2 (hun ▸ hy)

/-- **Party `p` moves**, and nobody comes to wait. -/
theorem Inv.move (h : Inv s) {y : Pc} (hpc : s'.pc = Function.update s.pc p y)
    (hfirst : s'.first = s.first)
    (hjoinWait : (ConditionVariable.machine K Party).Reachable s'.joinWait)
    (hafterJoin : (Semaphore.machine K Party 0).Reachable s'.afterJoin)
    (hwpc : ∀ q, q ≠ p → s'.joinWait.pc q = s.joinWait.pc q)
    (hapc : ∀ q, q ≠ p → s'.afterJoin.pc q = s.afterJoin.pc q)
    (hinWait : y.InWait (s'.joinWait.pc p))
    (hinAfterJoin : y.InAfterJoin p (s'.afterJoin.pc p)) (hattached : s'.jState ≠ .detached)
    (hjoinable : s'.pc .joiner = .start ∨ s'.pc .joiner = .test → s'.jState = .joinable)
    (hfits : y.fits s.first p = true)
    (hwaits : ∀ q, Waits s'.joinWait.queue q ↔ Waits s.joinWait.queue q)
    (hself : s.first = some p → Meets s'.joinWait p (s.pc p.other))
    (hother : s.first = some p.other → Meets s'.joinWait p.other y) (hcalls : Calls s') :
    Inv s' := by
  have hyp : s'.pc p = y := by rw [hpc, Function.update_self]
  have hyq : ∀ q, q ≠ p → s'.pc q = s.pc q := by
    intro q hq
    rw [hpc, Function.update_of_ne hq]
  refine ⟨hjoinWait, hafterJoin, ?_, ?_, hattached, hjoinable, ?_, ?_, ?_, hcalls⟩
  · intro q
    by_cases hq : q = p
    · rw [hq, hyp]
      exact hinWait
    · rw [hyq q hq, hwpc q hq]
      exact h.inWait q
  · intro q
    by_cases hq : q = p
    · rw [hq, hyp]
      exact hinAfterJoin
    · rw [hyq q hq, hapc q hq]
      exact h.inAfterJoin q
  · intro q
    rw [hfirst]
    by_cases hq : q = p
    · rw [hq, hyp]
      exact hfits
    · rw [hyq q hq]
      exact h.fits q
  · intro q hq
    rw [hfirst]
    exact h.waits q ((hwaits q).mp hq)
  · intro q hq
    rw [hfirst] at hq
    rcases Party.eq_or q p with rfl | rfl
    · rw [hyq q.other Party.other_ne]
      exact hself hq
    · rw [Party.other_other, hyp]
      exact hother hq

omit [DecidableEq K] in
theorem Calls.goto (h : Calls s) {y : Pc} (hpc : s'.pc = Function.update s.pc p y)
    (hfirst : s'.first = s.first) (hp : s'.afterJoin.pCalls = s.afterJoin.pCalls)
    (hv : s'.afterJoin.vCalls = s.afterJoin.vCalls)
    (hy : y.called s.first = (s.pc p).called s.first) : Calls s' := by
  have hcalled : ∀ q, (s'.pc q).called s.first = (s.pc q).called s.first := by
    intro q
    rw [hpc]
    by_cases hq : q = p
    · rw [hq, Function.update_self, hy]
    · rw [Function.update_of_ne hq]
  refine ⟨?_, ?_, ?_⟩
  · rw [hp]
    exact h.p
  · rw [hv]
    exact h.v
  · rw [hfirst, hp, hv, hcalled, hcalled]
    exact h.both

/-- A party outside the calls on `joinWait` is outside those of its queue. -/
theorem Inv.queue_out (h : Inv s) (hout : s.joinWait.pc p = .out) : s.joinWait.queue.pc p = .out :=
  (ConditionVariable.inv_reachable h.joinWait).returned hout (.inl rfl)

/-- Party `p` moves, and nothing else changes. -/
theorem Inv.goto (h : Inv s) {x y : Pc} (hx : s.pc p = x) (hinWait : y.InWait (s.joinWait.pc p))
    (hinAfterJoin : y.InAfterJoin p (s.afterJoin.pc p))
    (hjoinable : p = .joiner → y = .start ∨ y = .test → s.jState = .joinable)
    (hfits : y.fits s.first p = true) (hun : s.first = some p.other →
      unsignalled y (s.joinWait.queue.pc p) = unsignalled x (s.joinWait.queue.pc p))
    (hcalled : y.called s.first = x.called s.first) : Inv (s.goto p y) := by
  refine h.move (y := y) rfl rfl h.joinWait h.afterJoin (fun _ _ => rfl) (fun _ _ => rfl) hinWait
    hinAfterJoin h.attached (fun hz => ?_) hfits (fun _ => Iff.rfl) (h.meets p) (fun hf => ?_)
    (h.calls.goto rfl rfl rfl rfl (by rw [hx]; exact hcalled))
  · replace hz : Function.update s.pc p y .joiner = .start ∨
      Function.update s.pc p y .joiner = .test := hz
    by_cases hp : Party.joiner = p
    · rw [hp, Function.update_self] at hz
      exact hjoinable hp.symm hz
    · rw [Function.update_of_ne hp] at hz
      exact h.joinable hz
  · have hmeets := h.meets _ hf
    rw [Party.other_other, hx] at hmeets
    refine hmeets.second rfl Iff.rfl ?_ fun _ => rfl
    rw [Party.other_other]
    exact hun hf

theorem inv_goto (h : Inv s) {x y : Pc} (hx : s.pc p = x) (hl : Local s p x y) :
    Inv (s.goto p y) := by
  have hw := h.inWait p
  have ha := h.inAfterJoin p
  have hfits := h.fits p
  rw [hx] at hw ha hfits
  have hpast : ∀ {z : Pc}, z ≠ .start → z ≠ .test →
    (z = .start ∨ z = .test → s.jState = .joinable) :=
    fun hstart htest hz => hz.elim (absurd · hstart) (absurd · htest)
  cases hl with
  | start =>
    refine h.goto hx hw ha (fun hp _ => ?_) hfits (fun _ => rfl) rfl
    exact h.joinable (.inl (hp ▸ hx))
  | joinable hj =>
    exact h.goto hx hw ⟨rfl, ha⟩ (fun _ => hpast nofun nofun) hfits (fun _ => rfl) rfl
  | refused hj => exact absurd (h.joinable (.inr hx)) hj
  | detached hj => exact absurd hj h.attached
  | acquired hown => exact h.goto hx hown ha (fun _ => hpast nofun nofun) hfits (fun _ => rfl) rfl
  | waited hout =>
    have hf := h.first_of_wait hx (.inr (.inl rfl))
    refine h.goto hx hout ha (fun _ => hpast nofun nofun) ?_ (fun hf' => ?_) ?_
    · rw [hf]
      rfl
    · rw [hf] at hf'
      cases hf'
    · rw [hf]
      rfl
  | signalled hout =>
    have hf := h.first_of_signal hx (.inl rfl)
    refine h.goto hx hout ha (fun _ => hpast nofun nofun) ?_ (fun _ => ?_) ?_
    · rw [hf]
      rfl
    · rw [h.queue_out hout]
      rfl
    · rw [hf]
      rfl
  | afterV hidle =>
    have hf := h.first_of_wait hx (.inr (.inr rfl))
    obtain ⟨rfl, -⟩ := ha
    refine h.goto hx hw hidle (fun _ => hpast nofun nofun) ?_ (fun hf' => ?_) ?_
    · rw [hf]
      rfl
    · rw [hf] at hf'
      cases hf'
    · rw [hf]
      rfl
  | afterP hidle =>
    have hf := h.first_of_signal hx (.inr rfl)
    obtain ⟨rfl, -⟩ := ha
    refine h.goto hx hw hidle (fun _ => hpast nofun nofun) ?_ (fun _ => rfl) ?_
    · rw [hf]
      rfl
    · rw [hf]
      rfl

/-- Party `p` makes a call on `joinMtx` or `joinWait` that does not bring it to wait. -/
theorem Inv.call (h : Inv s) {x y : Pc} {v : ConditionVariable.Pc} {w : BlockingQueue.Pc Party}
    (hx : s.pc p = x) (hpc : s'.pc = Function.update s.pc p y) (hfirst : s'.first = s.first)
    (hafterJoin : s'.afterJoin = s.afterJoin)
    (hreach : (ConditionVariable.machine K Party).Reachable s'.joinWait)
    (hwpc : s'.joinWait.pc = Function.update s.joinWait.pc p v)
    (hqpc : s'.joinWait.queue.pc = Function.update s.joinWait.queue.pc p w)
    (hbq : s'.joinWait.queue.bq = s.joinWait.queue.bq) (hv : y.InWait v)
    (hinAfterJoin : y.InAfterJoin p (s.afterJoin.pc p)) (hattached : s'.jState ≠ .detached)
    (hjoinable : s'.pc .joiner = .start ∨ s'.pc .joiner = .test → s'.jState = .joinable)
    (hfits : y.fits s.first p = true) (hw : ¬w.Joining) (hq : ¬(s.joinWait.queue.pc p).Joining)
    (hself : s.first = some p → s.joinWait.pc p = .waitSuspend → ¬Waits s.joinWait.queue p)
    (hother : s.first = some p.other →
      unsignalled y w = true ∧ unsignalled x (s.joinWait.queue.pc p) = true)
    (hcalled : y.called s.first = x.called s.first) : Inv s' := by
  have hwaits := BlockingQueue.waits_iff hqpc hbq (iff_of_false hw hq)
  refine h.move hpc hfirst hreach (hafterJoin ▸ h.afterJoin) (fun q hq => ?_) (fun q _ => ?_) ?_ ?_
    hattached hjoinable hfits hwaits (fun hf => ?_) (fun hf => ?_) ?_
  · rw [hwpc, Function.update_of_ne hq]
  · rw [hafterJoin]
  · rw [hwpc, Function.update_self]
    exact hv
  · rw [hafterJoin]
    exact hinAfterJoin
  · refine (h.meets p hf).first ?_ (hwaits p) fun hc hwait => absurd hwait (hself hf hc)
    rw [hqpc, Function.update_of_ne Party.other_ne]
  · obtain ⟨hy, hxq⟩ := hother hf
    have hmeets := h.meets _ hf
    rw [Party.other_other, hx] at hmeets
    refine hmeets.second ?_ (hwaits _) ?_ ?_
    · rw [hwpc, Function.update_of_ne Party.other_ne]
    · rw [Party.other_other, hqpc, Function.update_self, hy, hxq]
    · rw [Party.other_other, hqpc, Function.update_self, hy]
      exact nofun
  · refine h.calls.goto hpc hfirst ?_ ?_ (by rw [hx]; exact hcalled)
    · rw [hafterJoin]
    · rw [hafterJoin]

omit [DecidableEq K] in
theorem joining_out {x : BlockingQueue.Pc Party} (hx : x = .out ∨ x = .inside) : ¬x.Joining := by
  rintro (hj | hj) <;> rcases hx with rfl | rfl <;> cases hj

theorem inv_joinWait (h : Inv s) {k : K} {x y : Pc} {a : ConditionVariable.Action K Party}
    {j : JState}
    {c : ConditionVariable.State K Party} (hx : s.pc p = x) (hc : CallsWait s k p x y a j)
    (hs : ConditionVariable.step s.joinWait a = some c) :
    Inv ({ s with joinWait := c, jState := j }.goto p y) := by
  have hW := ConditionVariable.inv_reachable h.joinWait
  have hI := BlockingQueue.inv_reachable hW.queue
  have hreach := ConditionVariable.reachable_step h.joinWait hs
  have hw := h.inWait p
  have ha := h.inAfterJoin p
  have hfits := h.fits p
  rw [hx] at hw ha hfits
  -- `jState` is only needed while the joiner has not come to its second step.
  have hjoinable : j = s.jState ∨ p = .joiner → y ≠ .start → y ≠ .test →
      (Function.update s.pc p y .joiner = .start ∨ Function.update s.pc p y .joiner = .test →
        j = .joinable) := by
    intro hj hstart htest hz
    by_cases hp : Party.joiner = p
    · rw [hp, Function.update_self] at hz
      exact hz.elim (absurd · hstart) (absurd · htest)
    · rw [Function.update_of_ne hp] at hz
      rw [hj.resolve_right (Ne.symm hp)]
      exact h.joinable hz
  cases hc with
  | test hp =>
    have hout := hW.returned hw (.inl rfl)
    cases ConditionVariable.step_cases hs with
    | call hcall hu hq =>
      cases hcall with
      | acquire =>
        obtain ⟨hqpc, hbq⟩ := ConditionVariable.Calls.queue (.acquire (k := k)) hI hq
        exact h.call hx rfl rfl rfl hreach rfl hqpc hbq (.inl rfl) ha h.attached
          (hjoinable (.inl rfl) nofun nofun) hfits nofun (joining_out (.inl hout))
          (fun hf => absurd hf (h.not_first_of_early hx rfl)) (fun _ => ⟨rfl, rfl⟩) rfl
  | mark =>
    have hout := hW.returned hw (.inl rfl)
    cases ConditionVariable.step_cases hs with
    | call hcall hu hq =>
      cases hcall with
      | acquire =>
        obtain ⟨hqpc, hbq⟩ := ConditionVariable.Calls.queue (.acquire (k := k)) hI hq
        exact h.call hx rfl rfl rfl hreach rfl hqpc hbq (.inl rfl) ha.2 nofun
          (hjoinable (.inr ha.1) nofun nofun) hfits nofun (joining_out (.inl hout))
          (fun hf => absurd hf (h.not_first_of_early hx rfl)) (fun _ => ⟨rfl, rfl⟩) rfl
  | signal hne =>
    have hin := hW.returned hw (.inr rfl)
    -- The first on the queue is the other party.
    have hf : s.first = some p.other := by
      obtain ⟨w, hmem⟩ := List.exists_mem_of_ne_nil _ hne
      have hf := h.waits w (.inr hmem)
      rcases Party.eq_or w p with rfl | rfl
      · exact absurd hf (h.not_first_of_early hx rfl)
      · exact hf
    cases ConditionVariable.step_cases hs with
    | call hcall hu hq =>
      cases hcall with
      | signal =>
        obtain ⟨hqpc, hbq⟩ := ConditionVariable.Calls.queue (.signal (K := K)) hI hq
        refine h.call hx rfl rfl rfl hreach rfl hqpc hbq (.inl rfl) ha h.attached
          (hjoinable (.inl rfl) nofun nofun) ?_ nofun (joining_out (.inr hin))
          (fun hf => absurd hf (h.not_first_of_early hx rfl)) (fun _ => ⟨rfl, rfl⟩) rfl
        rw [hf]
        cases p <;> rfl
  | release =>
    have hf := h.first_of_wait hx (.inl rfl)
    cases ConditionVariable.step_cases hs with
    | call hcall hu hq =>
      cases hcall with
      | release =>
        have hin := hW.returned hu (.inr rfl)
        obtain ⟨hqpc, hbq⟩ := ConditionVariable.Calls.queue (.release (K := K)) hI hq
        refine h.call hx rfl rfl rfl hreach rfl hqpc hbq (.inl rfl) ha h.attached
          (hjoinable (.inl rfl) nofun nofun) ?_ nofun (joining_out (.inr hin)) (fun _ hwait => ?_)
          (fun hf' => ?_) rfl
        · rw [hf]
          cases p <;> rfl
        · rw [hu] at hwait
          cases hwait
        · rw [hf] at hf'
          exact absurd (Option.some.inj hf').symm Party.other_ne

/-- A party that tests `joinWait` finds the other one, if it came first. -/
theorem Inv.waits_of_own (h : Inv s) (hx : s.pc p = .empty) (hf : s.first = some p.other) :
    p.other ∈ s.joinWait.queue.bq := by
  have hW := ConditionVariable.inv_reachable h.joinWait
  have hI := BlockingQueue.inv_reachable hW.queue
  have hown := h.inWait p
  have hmeets := h.meets _ hf
  rw [hx] at hown
  rw [Party.other_other, hx] at hmeets
  have hholds : (s.joinWait.queue.pc p).holds = true := by
    rw [hW.returned hown (.inr rfl)]
    rfl
  refine (hmeets.1 rfl).2.resolve_left fun hj => ?_
  have hnot := hI.not_holds hholds Party.other_ne
  rcases hj with hj | hj <;> rw [hj] at hnot <;> cases hnot

theorem inv_wait (h : Inv s) {c : ConditionVariable.State K Party} (hx : s.pc p = .empty)
    (hbq : s.joinWait.queue.bq = []) (hs : ConditionVariable.step s.joinWait (.wait p) = some c) :
    Inv ({ s with joinWait := c, first := some p }.goto p .wait) := by
  have hW := ConditionVariable.inv_reachable h.joinWait
  have hI := BlockingQueue.inv_reachable hW.queue
  have hreach := ConditionVariable.reachable_step h.joinWait hs
  have ha := h.inAfterJoin p
  rw [hx] at ha
  have hf : s.first = none := by
    cases hf : s.first with
    | none => rfl
    | some q =>
      rcases Party.eq_or q p with rfl | rfl
      · exact absurd hf (h.not_first_of_early hx rfl)
      · have hmem := h.waits_of_own hx hf
        rw [hbq] at hmem
        cases hmem
  have hearly : (s.pc p.other).early = true := by
    have hfits := h.fits p.other
    rw [hf] at hfits
    exact hfits
  cases ConditionVariable.step_cases hs with
  | @call _ _ _ _ _ _ q hcall hu hq =>
    cases hcall with
    | wait =>
      obtain ⟨hqpc, hqbq⟩ := ConditionVariable.Calls.queue (.wait (K := K)) hI hq
      have hpc : Function.update s.pc p .wait p = .wait := Function.update_self ..
      have hpc' : Function.update s.pc p .wait p.other = s.pc p.other :=
        Function.update_of_ne Party.other_ne ..
      -- Only `p` waits.
      have hwait : ∀ v, Waits q v → v = p := by
        intro v hv
        by_contra hne
        rw [Waits, hqpc, Function.update_of_ne hne, hqbq] at hv
        rw [h.waits v hv] at hf
        cases hf
      have hcalled : ∀ r, (Function.update s.pc p .wait r).called (some p) =
          (s.pc r).called s.first := by
        intro r
        rcases Party.eq_or r p with rfl | rfl
        · rw [hpc, hx]
          rfl
        · rw [hpc', Pc.called_of_early hearly, Pc.called_of_early hearly]
      refine ⟨hreach, h.afterJoin, ?_, ?_, h.attached, ?_, ?_, ?_, ?_, ?_⟩
      · intro r
        rcases Party.eq_or r p with rfl | rfl
        · show Pc.InWait (Function.update s.pc r .wait r)
            (Function.update s.joinWait.pc r .waitSuspend r)
          rw [hpc, Function.update_self]
          exact .inl rfl
        · show Pc.InWait (Function.update s.pc p .wait p.other)
            (Function.update s.joinWait.pc p .waitSuspend p.other)
          rw [hpc', Function.update_of_ne Party.other_ne]
          exact h.inWait p.other
      · intro r
        rcases Party.eq_or r p with rfl | rfl
        · show Pc.InAfterJoin r (Function.update s.pc r .wait r) _
          rw [hpc]
          exact ha
        · show Pc.InAfterJoin p.other (Function.update s.pc p .wait p.other) _
          rw [hpc']
          exact h.inAfterJoin p.other
      · intro hz
        replace hz : Function.update s.pc p .wait .joiner = .start ∨
          Function.update s.pc p .wait .joiner = .test := hz
        rcases Party.eq_or .joiner p with rfl | hp
        · rw [hpc] at hz
          rcases hz with hz | hz <;> cases hz
        · rw [hp, hpc', ← hp] at hz
          exact h.joinable hz
      · intro r
        rcases Party.eq_or r p with rfl | rfl
        · show (Function.update s.pc r .wait r).fits (some r) r = true
          rw [hpc]
          cases r <;> rfl
        · show (Function.update s.pc p .wait p.other).fits (some p) p.other = true
          rw [hpc', Pc.fits, if_neg Party.other_ne, hearly]
          rfl
      · intro r hr
        rw [hwait r hr]
        rfl
      · rintro r ⟨⟩
        show Meets _ p (Function.update s.pc p .wait p.other)
        rw [hpc']
        refine ⟨fun _ => ⟨Function.update_self .., .inl ?_⟩, fun hun => ?_⟩
        · show (q.pc p).Joining
          rw [hqpc, Function.update_self]
          exact .inl rfl
        · rw [unsignalled_of_early hearly] at hun
          cases hun
      · refine ⟨h.calls.p, h.calls.v, ?_⟩
        show s.afterJoin.vCalls .joiner +
          ((Function.update s.pc p .wait .target).called (some p)).toNat =
          s.afterJoin.pCalls .target +
          ((Function.update s.pc p .wait .joiner).called (some p)).toNat
        rw [hcalled, hcalled]
        exact h.calls.both

theorem inv_afterJoin (h : Inv s) {k : K} {x y : Pc} {a : Semaphore.Action K Party}
    {c : Semaphore.State K Party} (hx : s.pc p = x) (hc : CallsAfterJoin k p x y a)
    (hout : s.joinWait.pc p = .out) (hs : Semaphore.step s.afterJoin a = some c) :
    Inv ({ s with afterJoin := c }.goto p y) := by
  have hreach := Semaphore.reachable_step h.afterJoin hs
  have hqout := h.queue_out hout
  have hboth := h.calls.both
  have htj : Party.target ≠ .joiner := nofun
  have hjoinable : ∀ {z}, z ≠ .start → z ≠ .test →
      (Function.update s.pc p z .joiner = .start ∨ Function.update s.pc p z .joiner = .test →
        s.jState = .joinable) := by
    intro z hstart htest hz
    by_cases hp : Party.joiner = p
    · rw [hp, Function.update_self] at hz
      exact hz.elim (absurd · hstart) (absurd · htest)
    · rw [Function.update_of_ne hp] at hz
      exact h.joinable hz
  cases hc with
  | v =>
    have hf := h.first_of_wait hx (.inr (.inl rfl))
    cases Semaphore.step_cases hs with
    | v hu hq =>
      refine h.move rfl rfl h.joinWait hreach (fun _ _ => rfl)
        (fun q hq => Function.update_of_ne hq ..)
        hout ⟨rfl, ?_⟩ h.attached (hjoinable (z := .afterV) nofun nofun) ?_ (fun _ => Iff.rfl)
          (h.meets _)
        (fun hf' => ?_) ⟨h.calls.p, ?_, ?_⟩
      · show inV (Function.update s.afterJoin.pc .joiner .vAcquire .joiner) = true
        rw [Function.update_self]
        rfl
      · rw [hf]
        rfl
      · rw [hf] at hf'
        cases hf'
      · show Function.update s.afterJoin.vCalls .joiner (s.afterJoin.vCalls .joiner + 1) .target = 0
        rw [Function.update_of_ne htj]
        exact h.calls.v
      · show Function.update s.afterJoin.vCalls .joiner (s.afterJoin.vCalls .joiner + 1) .joiner +
          ((Function.update s.pc .joiner .afterV .target).called s.first).toNat =
            s.afterJoin.pCalls .target +
              ((Function.update s.pc .joiner .afterV .joiner).called s.first).toNat
        rw [Function.update_self, Function.update_self, Function.update_of_ne htj]
        rw [hx] at hboth
        show s.afterJoin.vCalls .joiner + 1 + _ = s.afterJoin.pCalls .target + 1
        replace hboth : s.afterJoin.vCalls .joiner + ((s.pc .target).called s.first).toNat =
          s.afterJoin.pCalls .target := hboth
        omega
  | p =>
    have hf := h.first_of_signal hx (.inl rfl)
    cases Semaphore.step_cases hs with
    | p hu hq =>
      refine h.move rfl rfl h.joinWait hreach (fun _ _ => rfl)
        (fun q hq => Function.update_of_ne hq ..)
        hout ⟨rfl, ?_⟩ h.attached (hjoinable (z := .afterP) nofun nofun) ?_ (fun _ => Iff.rfl)
          (h.meets _)
        (fun hf' => ?_) ⟨?_, h.calls.v, ?_⟩
      · show inP (Function.update s.afterJoin.pc .target .pAcquire .target) = true
        rw [Function.update_self]
        rfl
      · rw [hf]
        rfl
      · have hmeets := h.meets _ hf'
        refine hmeets.second rfl Iff.rfl ?_ fun _ => rfl
        show unsignalled .afterP (s.joinWait.queue.pc .target) = unsignalled (s.pc .target)
          (s.joinWait.queue.pc .target)
        rw [hx, hqout]
        rfl
      · show Function.update s.afterJoin.pCalls .target (s.afterJoin.pCalls .target + 1) .joiner = 0
        rw [Function.update_of_ne htj.symm]
        exact h.calls.p
      · show s.afterJoin.vCalls .joiner +
          ((Function.update s.pc .target .afterP .target).called s.first).toNat =
          Function.update s.afterJoin.pCalls .target (s.afterJoin.pCalls .target + 1) .target +
            ((Function.update s.pc .target .afterP .joiner).called s.first).toNat
        rw [Function.update_self, Function.update_self, Function.update_of_ne htj.symm]
        rw [hx] at hboth
        show s.afterJoin.vCalls .joiner + 1 = s.afterJoin.pCalls .target + 1 + _
        replace hboth : s.afterJoin.vCalls .joiner =
          s.afterJoin.pCalls .target + ((s.pc .joiner).called s.first).toNat := hboth
        omega

/-- Only `signal` takes a party off the queue. -/
theorem Pc.signal_of_takes {x : Pc} {v : ConditionVariable.Pc} {w : Party}
    {y z : BlockingQueue.Pc Party} (hv : x.InWait v) (hy : v.agrees y = true) (ht : y.Takes w z) :
    x = .signal ∧ y = .sigPop w ∧ z = .sigRelease w := by
  cases ht with
  | pop =>
    refine ⟨?_, rfl, rfl⟩
    cases v <;> cases hy
    cases x <;> first | rfl | (simp [Pc.InWait] at hv)
  | remove =>
    cases v <;> cases hy
    cases x <;> simp [Pc.InWait] at hv

/-- A step of the second party leaves `unsignalled` as it is, or it is one of these two. -/
theorem unsignalled_next {x : Pc} {v : ConditionVariable.Pc} {y z : BlockingQueue.Pc Party}
    (hv : x.InWait v) (hy : v.agrees y = true) (hn : y.Next z) :
    unsignalled x z = unsignalled x y ∨
      unsignalled x y = true ∧ (x = .signal ∧ z = .sigFalse ∨ ∃ w, y.Takes w z) := by
  cases x with
  | signal =>
    rcases hv with rfl | rfl
    · cases hn with
      | quiet hq =>
        cases hq with
        | empty => exact .inr ⟨rfl, .inl ⟨rfl, rfl⟩⟩
        | nonempty | front | released => exact .inl rfl
        | release hr => cases hr <;> exact .inl rfl
        | resume hr => cases hr <;> exact .inl rfl
        | _ => cases hy
      | push => cases hy
      | take ht =>
        obtain ⟨-, rfl, rfl⟩ := Pc.signal_of_takes (x := .signal) (.inl rfl) hy ht
        exact .inr ⟨rfl, .inr ⟨_, ht⟩⟩
    · cases y <;> cases hy
      cases hn with
      | quiet hq =>
        cases hq with
        | release hr => cases hr
        | resume hr => cases hr
      | take ht => cases ht
  | _ => exact .inl rfl

/-- A waker keeps the party it has taken off the queue until it resumes it. -/
theorem handing_next {v : ConditionVariable.Pc} {w : Party} {y z : BlockingQueue.Pc Party}
    (hv : v ≠ .signalAll) (hy : v.agrees y = true) (hh : y.handing = some w ∨ y = .out)
    (hn : y.Next z) : z.handing = some w ∨ z = .out := by
  cases hn with
  | quiet hq =>
    cases hq with
    | released => exact hh.imp id nofun
    | release hr =>
      cases hr with
      | signal => exact hh.imp id nofun
      | hook | call => rcases hh with hh | hh <;> cases hh
    | resume hr =>
      cases hr with
      | signal => exact .inr rfl
      | signalAll =>
        cases v <;> cases hy
        exact absurd rfl hv
    | _ => rcases hh with hh | hh <;> cases hh
  | push => rcases hh with hh | hh <;> cases hh
  | take ht => cases ht <;> rcases hh with hh | hh <;> cases hh

/-- A step inside `joinWait`. -/
theorem Meets.queue {c : ConditionVariable.State K Party} {q : BlockingQueue.State K Party} {y : Pc}
    (h : Meets c p y) (hW : ConditionVariable.Inv c) (hI' : BlockingQueue.Inv q)
    (hint : BlockingQueue.Internal c.queue q) (hy : y.InWait (c.pc p.other))
    (hwaits : ∀ v, Waits c.queue v → v = p) : Meets { c with queue := q } p y := by
  have hI := BlockingQueue.inv_reachable hW.queue
  have hag := hW.agrees p.other
  have hall : c.pc p.other ≠ .signalAll := by
    intro he
    rw [he] at hy
    cases y <;> simp [Pc.InWait] at hy
  -- While the first party waits, only the other one can take it off the queue.
  have hstay : c.pc p = .waitSuspend → Waits c.queue p →
      Waits q p ∨ y = .signal ∧ q.pc p.other = .sigRelease p := by
    intro hc hw
    refine (hint.waits hw).imp id ?_
    rintro ⟨v, z, ht, hz⟩
    rcases Party.eq_or v p with rfl | rfl
    · have hagp := hW.agrees v
      rw [hc] at hagp
      generalize c.queue.pc v = x at ht hagp
      cases ht <;> cases hagp
    · obtain ⟨hsig, -, rfl⟩ := Pc.signal_of_takes hy hag ht
      exact ⟨hsig, hz⟩
  show (unsignalled y (q.pc p.other) = true → _) ∧ (unsignalled y (q.pc p.other) = false → _)
  refine ⟨fun hun => ?_, fun hun => ?_⟩
  · have hbefore : unsignalled y (c.queue.pc p.other) = true := by
      rcases hint.next p.other with hsame | hnext
      · rw [← hsame]
        exact hun
      · rcases unsignalled_next hy hag hnext with heq | ⟨hbefore, -⟩
        · rw [← heq]
          exact hun
        · exact hbefore
    obtain ⟨hc, hw⟩ := h.1 hbefore
    refine ⟨hc, (hstay hc hw).resolve_right ?_⟩
    rintro ⟨rfl, hz⟩
    rw [hz] at hun
    cases hun
  · rcases hint.next p.other with hsame | hnext
    · rw [hsame] at hun
      obtain ⟨hw, hh⟩ := h.2 hun
      refine ⟨fun hw' => hw (hint.waits_of hw'), ?_⟩
      show (q.pc p.other).handing = some p ∨ q.pc p.other = .out
      rw [hsame]
      exact hh
    · rcases unsignalled_next hy hag hnext with heq | ⟨hbefore, hz⟩
      · rw [heq] at hun
        obtain ⟨hw, hh⟩ := h.2 hun
        refine ⟨fun hw' => hw (hint.waits_of hw'), ?_⟩
        exact handing_next hall hag hh hnext
      · obtain ⟨hc, hw⟩ := h.1 hbefore
        rcases hz with ⟨rfl, hz⟩ | ⟨w, ht⟩
        · -- The queue is not empty, as `signal` would have it.
          exfalso
          rcases hstay hc hw with hw' | ⟨-, hz'⟩
          · rcases hw' with hj | hmem
            · have hholds : (q.pc p.other).holds = true := by
                rw [hz]
                rfl
              have hnot := hI'.not_holds hholds Party.other_ne.symm
              rcases hj with hj | hj <;> rw [hj] at hnot <;> cases hnot
            · have hview := hI'.view p.other
              rw [hz] at hview
              rw [show q.bq = [] from hview] at hmem
              cases hmem
          · rw [hz] at hz'
            cases hz'
        · -- The one taken off the queue is the first party.
          obtain ⟨-, hpop, hz⟩ := Pc.signal_of_takes hy hag ht
          have hview := hI.view p.other
          rw [hpop] at hview
          obtain rfl := hwaits w (.inr (List.mem_of_mem_head? hview))
          have hh : (q.pc w.other).handing = some w := by
            rw [hz]
            rfl
          obtain ⟨hpark, -, hnot⟩ := hI'.handed _ _ hh
          refine ⟨?_, .inl hh⟩
          rintro (hj | hmem)
          · replace hj : (q.pc w).Joining := hj
            rw [hpark] at hj
            rcases hj with hj | hj <;> cases hj
          · exact hnot hmem

theorem inv_inJoinWait (h : Inv s) {a : ConditionVariable.Action K Party}
    {c : ConditionVariable.State K Party} (ha : a.internal = true)
    (hs : ConditionVariable.step s.joinWait a = some c) : Inv { s with joinWait := c } := by
  have hW := ConditionVariable.inv_reachable h.joinWait
  have hI := BlockingQueue.inv_reachable hW.queue
  have hreach := ConditionVariable.reachable_step h.joinWait hs
  cases ConditionVariable.step_cases hs with
  | @call _ p _ _ _ _ q hcall hu hq =>
    cases hcall with
    | acquire | wait | signal | signalAll | release => cases ha
    | @reacquire k =>
      -- `wait` has come to acquire `joinMtx` again.
      obtain ⟨hqpc, hbq⟩ := ConditionVariable.Calls.queue (.reacquire (k := k)) hI hq
      have hout : s.joinWait.queue.pc p = .out := by
        cases BlockingQueue.step_cases hI hq with
        | acquire hout => exact hout
      have hx : s.pc p = .wait := by
        have hw := h.inWait p
        rw [hu] at hw
        cases hx : s.pc p <;> rw [hx] at hw <;> first | rfl | simp [Pc.InWait] at hw
      have hf := h.first_of_wait hx (.inl rfl)
      have hnot : ¬Waits s.joinWait.queue p := by
        rintro (hj | hmem)
        · exact joining_out (.inl hout) hj
        · exact hI.not_mem hout rfl hmem
      refine h.call (y := .wait) hx ?_ rfl rfl hreach rfl hqpc hbq (.inr (.inl rfl)) ?_ h.attached
        h.joinable ?_ nofun (joining_out (.inl hout)) (fun _ _ => hnot) (fun hf' => ?_) rfl
      · rw [← hx]
        exact (Function.update_eq_self ..).symm
      · exact hx ▸ h.inAfterJoin p
      · exact hx ▸ h.fits p
      · rw [hf] at hf'
        exact absurd (Option.some.inj hf').symm Party.other_ne
    | nobody =>
      -- `signal` finds the first party.
      have hsig : s.joinWait.queue.pc p = .sigFalse := by
        have hag := hW.agrees p
        rw [hu] at hag
        cases BlockingQueue.step_cases hI hq with
        | release hin =>
          refine hin.resolve_left fun hin => ?_
          rw [hin] at hag
          cases hag
      have hx : s.pc p = .signal := by
        have hw := h.inWait p
        rw [hu] at hw
        cases hx : s.pc p <;> rw [hx] at hw <;> first | rfl | simp [Pc.InWait] at hw
      have hmeets := h.meets _ (h.first_of_signal hx (.inl rfl))
      rw [Meets, Party.other_other, hx, hsig] at hmeets
      rcases (hmeets.2 rfl).2 with hh | hh <;> cases hh
  | @ret k p u v x hr hu hq =>
    have hw := h.inWait p
    rw [hu] at hw
    have hne : u ≠ .waitSuspend := by
      rintro rfl
      cases hr
    refine h.move (y := s.pc p) (Function.update_eq_self ..).symm rfl hreach h.afterJoin
      (fun q hq => Function.update_of_ne hq ..) (fun _ _ => rfl) ?_ (h.inAfterJoin p) h.attached
      h.joinable (h.fits p) (fun _ => Iff.rfl) (fun hf => ?_) (fun hf => ?_)
      { h.calls with }
    · show Pc.InWait (s.pc p) (Function.update s.joinWait.pc p v p)
      rw [Function.update_self]
      cases hx : s.pc p <;> rw [hx] at hw <;> cases hr <;> simp [Pc.InWait] at hw ⊢
    · refine (h.meets p hf).first rfl Iff.rfl fun hc => ?_
      exact absurd (hu.symm.trans hc) hne
    · have hmeets := h.meets _ hf
      rw [Party.other_other] at hmeets
      refine hmeets.second ?_ Iff.rfl rfl fun _ => rfl
      exact Function.update_of_ne Party.other_ne ..
  | @queue b q hb hq =>
    have hint := (BlockingQueue.internal_cases hb (BlockingQueue.step_cases hI hq)).1
    have hI' := BlockingQueue.inv_step hI hq
    refine { h with
      joinWait := hreach
      waits := fun v hv => h.waits v (hint.waits_of hv)
      meets := fun v hf => ?_
      calls := { h.calls with } }
    refine (h.meets v hf).queue hW hI' hint (h.inWait v.other) fun w hw => ?_
    exact Option.some.inj ((h.waits w hw).symm.trans hf)

/-- The steps of a party inside `P` and `V`. -/
theorem Pc.InAfterJoin.run {x : Pc} {y z : Semaphore.Pc} (h : x.InAfterJoin p y)
    (hp : inP y = true → inP z = true) (hv : inV y = true → inV z = true) (hy : y ≠ .idle) :
    x.InAfterJoin p z := by
  cases x with
  | afterV => exact ⟨h.1, hv h.2⟩
  | afterP => exact ⟨h.1, hp h.2⟩
  | mark => exact absurd h.2 hy
  | refused => exact h
  | _ => exact absurd h hy

theorem inv_inAfterJoin (h : Inv s) {a : Semaphore.Action K Party} {c : Semaphore.State K Party}
    (ha : a.internal = true) (hs : Semaphore.step s.afterJoin a = some c) :
    Inv { s with afterJoin := c } := by
  have hreach := Semaphore.reachable_step h.afterJoin hs
  -- A step of `u` inside `P` or `V`.
  have hmove : ∀ {u : Party} {y z : Semaphore.Pc}, s.afterJoin.pc u = y →
      c.pc = Function.update s.afterJoin.pc u z → c.pCalls = s.afterJoin.pCalls →
      c.vCalls = s.afterJoin.vCalls → (inP y = true → inP z = true) →
      (inV y = true → inV z = true) → y ≠ .idle → Inv { s with afterJoin := c } := by
    intro u y z hy hpc hpCalls hvCalls hp hv hne
    refine { h with afterJoin := hreach, inAfterJoin := ?_, calls := ?_ }
    · intro r
      show (s.pc r).InAfterJoin r (c.pc r)
      rw [hpc]
      by_cases hr : r = u
      · rw [hr, Function.update_self]
        exact (h.inAfterJoin u).run (hy ▸ hp) (hy ▸ hv) (hy ▸ hne)
      · rw [Function.update_of_ne hr]
        exact h.inAfterJoin r
    · refine ⟨?_, ?_, ?_⟩
      · exact (congrFun hpCalls _).trans h.calls.p
      · exact (congrFun hvCalls _).trans h.calls.v
      · show c.vCalls .joiner + _ = c.pCalls .target + _
        rw [hpCalls, hvCalls]
        exact h.calls.both
  cases Semaphore.step_cases hs with
  | p | v => cases ha
  | acquired hu | permit hu | nobody hu => exact hmove hu rfl rfl rfl id id nofun
  | suspend hu _ hq | take hu hq | signal hu hq | add hu hq =>
    exact hmove hu rfl rfl rfl id id nofun
  | done hu =>
    rcases hu with hu | hu | hu | hu <;> exact hmove hu rfl rfl rfl (fun _ => rfl)
      (fun _ => rfl) nofun
  | queue =>
    exact { h with afterJoin := hreach, calls := { h.calls with } }

/-! ## The end of a life -/

theorem length_eq_count (l : List Party) : l.length = l.count .joiner + l.count .target := by
  induction l with
  | nil => rfl
  | cons q l ih =>
    have hne : Party.joiner ≠ .target := nofun
    rw [List.length_cons, ih]
    cases q with
    | joiner =>
      rw [List.count_cons_self, List.count_cons_of_ne hne]
      omega
    | target =>
      rw [List.count_cons_self, List.count_cons_of_ne hne.symm]
      omega

/-- **The permits of `afterJoin`**, in this life: one for a `V` that has taken effect, less one for
a `P` that has been granted it. -/
theorem Inv.balance (h : Inv s) :
    s.afterJoin.counter.toNat + 2 ^ 64 * s.afterJoin.overflows +
        (Semaphore.offering (s.afterJoin.pc .joiner) (s.afterJoin.queue.pc .joiner)).toNat +
        ((s.pc .target).called s.first).toNat =
      ((s.pc .joiner).called s.first).toNat +
        (Semaphore.asking (decide (.target ∈ s.afterJoin.queue.bq)) (s.afterJoin.pc .target)
          (s.afterJoin.queue.pc .target)).toNat := by
  have hcount := (Semaphore.inv_reachable h.afterJoin).count
  have hp := fun q => (Semaphore.tallied_reachable h.afterJoin q).p
  have hv := fun q => (Semaphore.tallied_reachable h.afterJoin q).v
  have hpj := hp .joiner
  have hpt := hp .target
  have hvj := hv .joiner
  have hvt := hv .target
  rw [h.calls.p] at hpj
  rw [h.calls.v] at hvt
  have hboth := h.calls.both
  have htakes := length_eq_count s.afterJoin.takes
  have hadds := length_eq_count s.afterJoin.adds
  have hwoken := length_eq_count (s.afterJoin.queue.wakes.map Prod.snd)
  have hwakes := length_eq_count (s.afterJoin.queue.wakes.map Prod.fst)
  rw [List.length_map] at hwoken hwakes
  rw [show (0 : BitVec 64).toNat = 0 from rfl] at hcount
  generalize 2 ^ 64 * s.afterJoin.overflows = m at hcount ⊢
  omega

/-- Where the joiner is when the target is `TERMINATED`. -/
structure Over (s : State K) : Prop where
  pc : s.pc .joiner = .signal ∨ s.pc .joiner = .afterV ∨ s.pc .joiner = .done
  joinWait : s.joinWait.pc .joiner = .signal ∨ s.joinWait.pc .joiner = .out
  queue : s.joinWait.queue.pc .joiner = .out
  afterJoin : s.afterJoin.queue.pc .joiner = .out ∨ s.afterJoin.queue.pc .joiner = .releasing
  status : s.afterJoin.queue.mutex.status .joiner = .out
  counter : s.afterJoin.counter = 0
  called : (s.pc .joiner).called s.first = (s.pc .target).called s.first

/-- Once the `V` of this life has taken effect and the target is in none of the calls, the joiner
has left `afterJoin`. -/
theorem Inv.left_afterJoin (h : Inv s) (ht : s.afterJoin.queue.pc .target = .out)
    (hV : inV (s.afterJoin.pc .joiner) = true)
    (hoff : Semaphore.offering (s.afterJoin.pc .joiner) (s.afterJoin.queue.pc .joiner) = false)
    (hcounter : s.afterJoin.counter = 0) (hoverflows : s.afterJoin.overflows = 0) :
    (s.afterJoin.queue.pc .joiner = .out ∨ s.afterJoin.queue.pc .joiner = .releasing) ∧
      s.afterJoin.queue.mutex.status .joiner = .out := by
  have hS := Semaphore.inv_reachable h.afterJoin
  have hI := BlockingQueue.inv_reachable hS.queue
  have hag := hS.agrees .joiner
  have hst := hI.agrees .joiner
  -- It has nobody in its hands: the target is not parked.
  have hhand : ∀ w, (s.afterJoin.queue.pc .joiner).handing ≠ some w := by
    intro w hw
    have hpark := (hI.handed _ w hw).1
    cases w with
    | joiner =>
      rw [hpark] at hw
      cases hw
    | target =>
      rw [ht] at hpark
      cases hpark
  cases hx : s.afterJoin.pc .joiner <;> rw [hx] at hag hoff hV <;> cases hV
  case vAcquire | vAdd => cases hoff
  case idle =>
    have hout := hS.idle hx
    rw [hout] at hst
    exact ⟨.inl hout, hst⟩
  case vSignal =>
    cases hq : s.afterJoin.queue.pc .joiner <;> rw [hq] at hag hoff hhand hst <;> cases hag
    case out => exact ⟨.inl rfl, hst⟩
    case sigRelease w | sigReleasing w | sigResume w => exact absurd rfl (hhand w)
    all_goals cases hoff
  case vRelease =>
    have hout : s.afterJoin.queue.mutex.status .joiner = .out := by
      by_contra hne
      rcases Semaphore.added_reachable h.afterJoin .joiner hx hne with hc | ho
      · exact hc hcounter
      · exact ho hoverflows
    refine ⟨?_, hout⟩
    cases hq : s.afterJoin.queue.pc .joiner <;> rw [hq] at hag hst <;> cases hag
    case out => exact .inl rfl
    case releasing => exact .inr rfl
    case release =>
      rw [hout] at hst
      cases hst

theorem Inv.over (h : Inv s) (hx : s.pc .target = .done) : Over s := by
  have hW := ConditionVariable.inv_reachable h.joinWait
  have hI := BlockingQueue.inv_reachable hW.queue
  have hS := Semaphore.inv_reachable h.afterJoin
  have hbalance := h.balance
  have hw := h.inWait .target
  have ha := h.inAfterJoin .target
  have hft := h.fits .target
  have hfj := h.fits .joiner
  have hwj := h.inWait .joiner
  have haj := h.inAfterJoin .joiner
  rw [hx] at hw ha hft
  have hqt := h.queue_out hw
  have hat := hS.idle ha
  rw [ha, hx] at hbalance
  cases hf : s.first with
  | none =>
    rw [hf] at hft
    cases hft
  | some q =>
    rw [hf] at hbalance hfj
    cases q with
    | joiner =>
      -- The target has been granted the permit of the joiner.
      replace hbalance : s.afterJoin.counter.toNat + 2 ^ 64 * s.afterJoin.overflows +
          (Semaphore.offering (s.afterJoin.pc .joiner) (s.afterJoin.queue.pc .joiner)).toNat + 1 =
          ((s.pc .joiner).called (some .joiner)).toNat + 0 := hbalance
      have hle := Bool.toNat_le ((s.pc .joiner).called (some .joiner))
      have hcalled : (s.pc .joiner).called (some .joiner) = true := by
        rw [← Bool.toNat_eq_one]
        omega
      have hoff : Semaphore.offering (s.afterJoin.pc .joiner) (s.afterJoin.queue.pc .joiner) =
          false := by
        rw [← Bool.toNat_eq_zero]
        omega
      have hcounter : s.afterJoin.counter = 0 := by
        refine BitVec.eq_of_toNat_eq ?_
        show s.afterJoin.counter.toNat = 0
        omega
      have hoverflows : s.afterJoin.overflows = 0 := by omega
      have hpc : (s.pc .joiner = .afterV ∨ s.pc .joiner = .done) ∧
          inV (s.afterJoin.pc .joiner) = true := by
        cases hj : s.pc .joiner <;> rw [hj] at hcalled haj <;> cases hcalled
        case afterV => exact ⟨.inl rfl, haj.2⟩
        case afterP => cases haj.1
        case done =>
          rw [show s.afterJoin.pc .joiner = .idle from haj]
          exact ⟨.inr rfl, rfl⟩
      have hout : s.joinWait.pc .joiner = .out := by
        rcases hpc.1 with hj | hj <;> rw [hj] at hwj <;> exact hwj
      obtain ⟨hleft, hstatus⟩ := h.left_afterJoin hat hpc.2 hoff hcounter hoverflows
      refine ⟨.inr hpc.1, .inr hout, h.queue_out hout, hleft, hstatus, hcounter, ?_⟩
      rw [hf, hcalled, hx]
      rfl
    | target =>
      -- The joiner has resumed the target.
      have hmeets := h.meets _ hf
      have hun : unsignalled (s.pc .joiner) (s.joinWait.queue.pc .joiner) = false := by
        rw [← Bool.not_eq_true]
        intro hun
        have hc := (hmeets.1 hun).1
        rw [hw] at hc
        cases hc
      have hqj : s.joinWait.queue.pc .joiner = .out := by
        refine (hmeets.2 hun).2.resolve_left fun hh => ?_
        have hpark := (hI.handed _ _ hh).1
        rw [hqt] at hpark
        cases hpark
      have hpc : s.pc .joiner = .signal ∨ s.pc .joiner = .done := by
        cases hj : s.pc .joiner <;> rw [hj] at hun haj hfj <;>
          first | exact .inl rfl | exact .inr rfl | cases hun
        case afterP => cases haj.1
      have hidle : s.afterJoin.pc .joiner = .idle := by
        rcases hpc with hj | hj <;> rw [hj] at haj <;> exact haj
      have hcalled : (s.pc .joiner).called (some .target) = false := by
        rcases hpc with hj | hj <;> rw [hj] <;> rfl
      have haout := hS.idle hidle
      have hst := (BlockingQueue.inv_reachable hS.queue).agrees .joiner
      rw [haout] at hst
      rw [hcalled, hidle] at hbalance
      refine ⟨?_, ?_, hqj, .inl haout, hst, ?_, ?_⟩
      · exact hpc.imp id .inr
      · rcases hpc with hj | hj <;> rw [hj] at hwj
        · exact hwj
        · exact .inr hwj
      · refine BitVec.eq_of_toNat_eq ?_
        replace hbalance : s.afterJoin.counter.toNat + 2 ^ 64 * s.afterJoin.overflows + 0 + 0 =
          0 + 0 := hbalance
        show s.afterJoin.counter.toNat = 0
        omega
      · rw [hf, hcalled, hx]
        rfl

theorem const_eq_update {α : Type*} {f : Party → α} {x : α} (hf : f .target = x) :
    (fun _ => x) = Function.update f .joiner x := by
  funext q
  cases q with
  | joiner => rw [Function.update_self]
  | target =>
    have hne : Party.target ≠ .joiner := nofun
    rw [Function.update_of_ne hne, hf]

/-- The joiner returns from `signal`, -/
theorem Inv.joinWait_recycle (h : Inv s) (k : K) (hx : s.pc .target = .done) :
    (ConditionVariable.machine K Party).Reachable s.recycle.joinWait := by
  have hO := h.over hx
  have hw := h.inWait .target
  rw [hx] at hw
  have heq : s.recycle.joinWait = s.joinWait.goto .joiner .out := by
    have hqueue : (fun _ => BlockingQueue.Pc.out) = s.joinWait.queue.pc := by
      rw [const_eq_update (h.queue_out hw), ← hO.queue, Function.update_eq_self]
    unfold State.recycle ConditionVariable.State.goto
    rw [hqueue, const_eq_update hw]
  rw [heq]
  rcases hO.joinWait with hsig | hout
  · refine ConditionVariable.reachable_step h.joinWait (a := .run k .joiner) ?_
    simp [ConditionVariable.step, ConditionVariable.run, ConditionVariable.State.await,
      hsig, hO.queue]
  · rw [ConditionVariable.State.goto, ← hout, Function.update_eq_self]
    exact h.joinWait

/-- or from the release of the mutex in `V`, and from `V`. -/
theorem Inv.afterJoin_recycle (h : Inv s) (k : K) (hx : s.pc .target = .done) :
    (Semaphore.machine K Party 0).Reachable s.recycle.afterJoin := by
  have hO := h.over hx
  have hS := Semaphore.inv_reachable h.afterJoin
  have ha := h.inAfterJoin .target
  rw [hx] at ha
  obtain ⟨m, hm⟩ : ∃ m : Semaphore.State K Party,
      m = { s.afterJoin with queue := s.afterJoin.queue.goto .joiner .out } := ⟨_, rfl⟩
  have hreach : (Semaphore.machine K Party 0).Reachable m := by
    rw [hm]
    rcases hO.afterJoin with hout | hrel
    · rw [BlockingQueue.State.goto, ← hout, Function.update_eq_self]
      exact h.afterJoin
    · refine Semaphore.reachable_step h.afterJoin (a := .queue (.run k .joiner)) ?_
      simp [Semaphore.step, Semaphore.State.onQueue, BlockingQueue.Action.internal,
        BlockingQueue.step, BlockingQueue.run, hrel, hO.status]
  have heq : s.recycle.afterJoin = m.goto .joiner .idle := by
    rw [hm]
    unfold State.recycle Semaphore.State.goto BlockingQueue.State.goto
    rw [const_eq_update ha, const_eq_update (hS.idle ha)]
  have hout : m.queue.pc .joiner = .out := by
    rw [hm]
    show Function.update s.afterJoin.queue.pc .joiner .out .joiner = .out
    rw [Function.update_self]
  rw [heq]
  rcases (Semaphore.inv_reachable hreach).returns hout with hidle | hrun
  · rw [Semaphore.State.goto, ← hidle, Function.update_eq_self]
    exact hreach
  · exact Semaphore.reachable_step hreach hrun

/-- `joinWait` is empty when the target is `TERMINATED`. -/
theorem Inv.joinWait_nil (h : Inv s) (hx : s.pc .target = .done) : s.joinWait.queue.bq = [] := by
  have hI := BlockingQueue.inv_reachable (ConditionVariable.inv_reachable h.joinWait).queue
  have hw := h.inWait .target
  rw [hx] at hw
  refine List.eq_nil_iff_forall_not_mem.mpr fun q => ?_
  cases q with
  | joiner => exact hI.not_mem (h.over hx).queue rfl
  | target => exact hI.not_mem (h.queue_out hw) rfl

/-- **The next life** starts as the first one did, though nothing but `jState` is written. -/
theorem inv_recycle (h : Inv s) (k : K) (hx : s.pc .target = .done) : Inv s.recycle := by
  have hboth := h.calls.both
  rw [(h.over hx).called] at hboth
  refine ⟨h.joinWait_recycle k hx, h.afterJoin_recycle k hx, fun _ => rfl, fun _ => rfl, nofun,
    fun _ => rfl, fun _ => rfl, ?_, nofun, h.calls.p, h.calls.v, Nat.add_right_cancel hboth⟩
  rintro q (hj | hmem)
  · exact absurd hj (joining_out (.inl rfl))
  · replace hmem : q ∈ s.joinWait.queue.bq := hmem
    rw [h.joinWait_nil hx] at hmem
    cases hmem

theorem inv_step (h : Inv s) {a : Action K} (hs : step s a = some s') : Inv s' := by
  cases step_cases hs with
  | goto hx hl => exact inv_goto h hx hl
  | joinWait hx hc hw => exact inv_joinWait h hx hc hw
  | wait hx hbq hw => exact inv_wait h hx hbq hw
  | afterJoin hx hc hout ha => exact inv_afterJoin h hx hc hout ha
  | inJoinWait hi hw => exact inv_inJoinWait h hi hw
  | inAfterJoin hi ha => exact inv_inAfterJoin h hi ha
  | @recycle k hx => exact inv_recycle h k hx

theorem inv_reachable (h : (machine K).Reachable s) : Inv s := by
  refine Machine.Reachable.invariant (I := Inv) ?_ (fun _ _ _ hI hs => inv_step hI hs) h
  rintro s rfl
  refine ⟨.of_init rfl, .of_init rfl, fun _ => rfl, fun _ => rfl, nofun, fun _ => rfl,
    fun _ => rfl, ?_, nofun, rfl, rfl, rfl⟩
  rintro q (hj | hmem)
  · exact absurd hj (joining_out (.inl rfl))
  · cases hmem

/-! ## The rendezvous -/

/-- The joiner has an access to `joinMtx`, `joinWait` or `afterJoin` still to make. -/
def Accessing (s : State K) : Prop :=
  match s.pc .joiner with
  | .done | .refused => False
  | .signal => s.joinWait.queue.pc .joiner ≠ .out
  | .afterV => s.afterJoin.queue.pc .joiner ≠ .out ∧
      ¬(s.afterJoin.queue.pc .joiner = .releasing ∧ s.afterJoin.queue.mutex.status .joiner = .out)
  | _ => True

/-- Party `p` is on one of the four queues, and has been switched out. -/
def Parked (s : State K) (p : Party) : Prop :=
  (p ∈ s.joinWait.queue.bq ∧ s.joinWait.queue.mutex.status p = .out) ∨
    p ∈ s.joinWait.queue.mutex.bq ∨
    (p ∈ s.afterJoin.queue.bq ∧ s.afterJoin.queue.mutex.status p = .out) ∨
    p ∈ s.afterJoin.queue.mutex.bq

/-- A kThread is about to resume the next owner of a mutex. -/
def ResumePending (s : State K) : Prop :=
  ∃ k, (s.joinWait.queue.mutex.act k).passing = true ∨
  (s.afterJoin.queue.mutex.act k).passing = true

/-- A party that is parked in `afterJoin` has left `joinMtx`, -/
theorem Inv.out_of_joinWait (h : Inv s) (hp : s.afterJoin.pc p ≠ .idle) :
    s.joinWait.queue.mutex.status p = .out := by
  have hI := BlockingQueue.inv_reachable (ConditionVariable.inv_reachable h.joinWait).queue
  have hw := h.inWait p
  have ha := h.inAfterJoin p
  have hout : s.joinWait.pc p = .out := by
    cases hx : s.pc p <;> rw [hx] at hw ha <;> first | exact hw | exact absurd ha hp
  have hst := hI.agrees p
  rw [h.queue_out hout] at hst
  exact hst

/-- and one that is parked in `joinWait` has not come to `afterJoin`. -/
theorem Inv.out_of_afterJoin (h : Inv s) (hp : s.joinWait.pc p ≠ .out) :
    s.afterJoin.queue.mutex.status p = .out := by
  have hS := Semaphore.inv_reachable h.afterJoin
  have hw := h.inWait p
  have ha := h.inAfterJoin p
  have hidle : s.afterJoin.pc p = .idle := by
    cases hx : s.pc p <;> rw [hx] at hw ha <;> first | exact ha | exact absurd hw hp
  have hst := (BlockingQueue.inv_reachable hS.queue).agrees p
  rw [hS.idle hidle] at hst
  exact hst

/-- A party with a status in `joinMtx` is in a call on it. -/
theorem Inv.not_out (h : Inv s) (hp : s.joinWait.queue.pc p ≠ .out) : s.joinWait.pc p ≠ .out :=
  fun hout => hp (h.queue_out hout)

theorem Inv.not_idle (h : Inv s) (hp : s.afterJoin.queue.pc p ≠ .out) : s.afterJoin.pc p ≠ .idle :=
  fun hidle => hp ((Semaphore.inv_reachable h.afterJoin).idle hidle)

/-- Nobody waits for a mutex that all the others have left, but for the moment when it is passed. -/
theorem passing_of_queued {m : Mutex.State K Party} (hm : (Mutex.machine K Party).Reachable m)
    (hp : p ∈ m.bq) (hother : p.other ∈ m.bq ∨ m.status p.other = .out) :
    ∃ k, (m.act k).passing = true := by
  have hI := Mutex.inv_reachable hm
  cases ho : m.owner with
  | none =>
    rw [hI.empty ho] at hp
    cases hp
  | some v =>
    refine Mutex.passing_of_waiting hm ho ?_
    rcases Party.eq_or v p with rfl | rfl
    · exact hI.parked v hp
    · exact hI.parked _ (hother.resolve_right (hI.owned _ ho).1)

/-- A party parked elsewhere has a position in the calls there. -/
theorem Inv.parked_joinMtx (h : Inv s) (hp : Parked s p) :
    p ∈ s.joinWait.queue.mutex.bq ∨ s.joinWait.queue.mutex.status p = .out := by
  have hS := BlockingQueue.inv_reachable (Semaphore.inv_reachable h.afterJoin).queue
  rcases hp with ⟨-, hout⟩ | hmem | ⟨hmem, -⟩ | hmem
  · exact .inr hout
  · exact .inl hmem
  · refine .inr (h.out_of_joinWait (h.not_idle fun hout => ?_))
    exact hS.not_mem hout rfl hmem
  · refine .inr (h.out_of_joinWait (h.not_idle fun hout => ?_))
    have hst := hS.agrees p
    rw [hout, (Mutex.inv_reachable hS.mutex).parked p hmem] at hst
    cases hst

theorem Inv.parked_afterJoin (h : Inv s) (hp : Parked s p) :
    p ∈ s.afterJoin.queue.mutex.bq ∨ s.afterJoin.queue.mutex.status p = .out := by
  have hI := BlockingQueue.inv_reachable (ConditionVariable.inv_reachable h.joinWait).queue
  rcases hp with ⟨hmem, -⟩ | hmem | ⟨-, hout⟩ | hmem
  · refine .inr (h.out_of_afterJoin (h.not_out fun hout => ?_))
    exact hI.not_mem hout rfl hmem
  · refine .inr (h.out_of_afterJoin (h.not_out fun hout => ?_))
    have hst := hI.agrees p
    rw [hout, (Mutex.inv_reachable hI.mutex).parked p hmem] at hst
    cases hst
  · exact .inr hout
  · exact .inl hmem

/-- The joiner never waits for a permit. -/
theorem Inv.joiner_not_waiting (h : Inv s) : .joiner ∉ s.afterJoin.queue.bq := by
  intro hmem
  have hS := Semaphore.inv_reachable h.afterJoin
  have hI := BlockingQueue.inv_reachable hS.queue
  have hq := hI.queued _ hmem
  have hag := hS.agrees .joiner
  have ha := h.inAfterJoin .joiner
  have hpc : s.afterJoin.pc .joiner = .pSuspend := by
    generalize s.afterJoin.queue.pc .joiner = x at hq hag
    cases x <;> cases hq <;> cases hx : s.afterJoin.pc .joiner <;> rw [hx] at hag <;>
      first | rfl | cases hag
  rw [hpc] at ha
  cases hx : s.pc .joiner <;> rw [hx] at ha
  case mark | afterV => cases ha.2
  case afterP => cases ha.1
  all_goals cases ha

/-- **The parties are never both parked** with nobody about to wake one of them. -/
theorem Inv.awake (h : Inv s) (hp : ∀ p, Parked s p) : ResumePending s := by
  have hW := BlockingQueue.inv_reachable (ConditionVariable.inv_reachable h.joinWait).queue
  have hA := BlockingQueue.inv_reachable (Semaphore.inv_reachable h.afterJoin).queue
  by_cases hmtx : ∃ p, p ∈ s.joinWait.queue.mutex.bq
  · obtain ⟨p, hmem⟩ := hmtx
    obtain ⟨k, hk⟩ := passing_of_queued hW.mutex hmem (h.parked_joinMtx (hp p.other))
    exact ⟨k, .inl hk⟩
  by_cases hsem : ∃ p, p ∈ s.afterJoin.queue.mutex.bq
  · obtain ⟨p, hmem⟩ := hsem
    obtain ⟨k, hk⟩ := passing_of_queued hA.mutex hmem (h.parked_afterJoin (hp p.other))
    exact ⟨k, .inr hk⟩
  -- Both are on the queue of `joinWait` or of `afterJoin`.
  have hqueued : ∀ p, p ∈ s.joinWait.queue.bq ∨ p ∈ s.afterJoin.queue.bq := by
    intro p
    rcases hp p with ⟨hmem, -⟩ | hmem | ⟨hmem, -⟩ | hmem
    · exact .inl hmem
    · exact absurd ⟨p, hmem⟩ hmtx
    · exact .inr hmem
    · exact absurd ⟨p, hmem⟩ hsem
  exfalso
  have hj := (hqueued .joiner).resolve_right h.joiner_not_waiting
  have hf := h.waits _ (.inr hj)
  rcases hqueued .target with ht | ht
  · have hf' := h.waits _ (.inr ht)
    rw [hf] at hf'
    cases hf'
  · -- The target waits for its permit, so it has taken the joiner off the queue.
    have hidle := h.not_idle fun hout => hA.not_mem hout rfl ht
    have ha := h.inAfterJoin .target
    have hx : s.pc .target = .afterP := by
      cases hx : s.pc .target <;> rw [hx] at ha
      case mark => exact absurd ha.2 hidle
      case afterV => cases ha.1
      case refused => cases ha
      all_goals exact absurd ha hidle
    have hmeets := (h.meets _ hf).2
    rw [show s.pc Party.joiner.other = .afterP from hx] at hmeets
    exact (hmeets rfl).1 (.inr hj)

/-- What holds of `join` and `terminate`, in each life of a uThread. -/
structure Rendezvous (s : State K) : Prop where
  /-- `join` returns true only after the function has finished, -/
  joined : s.pc .joiner = .done → s.pc .target ≠ .start
  /-- and it does not return false. -/
  accepted : s.pc .joiner ≠ .refused
  /-- When the target is `TERMINATED`, the joiner has made its last access to `joinMtx`, `joinWait`
  and `afterJoin`, and no kThread is in their code; -/
  last : s.pc .target = .done → ¬Accessing s ∧
    ∀ k, s.joinWait.queue.mutex.act k = .idle ∧ s.afterJoin.queue.mutex.act k = .idle
  awake : (∀ p, Parked s p) → ResumePending s
  /-- and they are as they were at the start. -/
  clean : s.pc .target = .done →
    (s.joinWait.queue.mutex.owner = none ∧ s.joinWait.queue.mutex.bq = []) ∧
      s.joinWait.queue.bq = [] ∧ s.afterJoin.counter = 0 ∧ s.afterJoin.queue.bq = [] ∧
      s.afterJoin.queue.mutex.owner = none ∧ s.afterJoin.queue.mutex.bq = []

theorem Inv.joined (h : Inv s) (hx : s.pc .joiner = .done) : s.pc .target ≠ .start := by
  intro ht
  have hw := h.inWait .joiner
  have hfits := h.fits .joiner
  rw [hx] at hw hfits
  have hf : s.first = some .joiner := by
    rcases hf : s.first with _ | q
    · rw [hf] at hfits
      cases hfits
    · cases q with
      | joiner => rfl
      | target => exact absurd hf (h.not_first_of_early ht rfl)
  have hmeets := (h.meets _ hf).1
  rw [show s.pc Party.joiner.other = .start from ht,
    show s.joinWait.pc .joiner = .out from hw] at hmeets
  exact absurd (hmeets rfl).1 nofun

/-- The mutexes are free when the target is `TERMINATED`. -/
theorem Inv.statuses (h : Inv s) (hx : s.pc .target = .done) (q : Party) :
    s.joinWait.queue.mutex.status q = .out ∧ s.afterJoin.queue.mutex.status q = .out := by
  have hO := h.over hx
  have hI := BlockingQueue.inv_reachable (ConditionVariable.inv_reachable h.joinWait).queue
  have hS := Semaphore.inv_reachable h.afterJoin
  have hA := BlockingQueue.inv_reachable hS.queue
  have hw := h.inWait .target
  have ha := h.inAfterJoin .target
  rw [hx] at hw ha
  have hstw := hI.agrees q
  have hsta := hA.agrees q
  cases q with
  | joiner =>
    rw [hO.queue] at hstw
    exact ⟨hstw, hO.status⟩
  | target =>
    rw [h.queue_out hw] at hstw
    rw [hS.idle ha] at hsta
    exact ⟨hstw, hsta⟩

theorem Inv.not_accessing (h : Inv s) (hx : s.pc .target = .done) : ¬Accessing s := by
  have hO := h.over hx
  unfold Accessing
  rcases hO.pc with hj | hj | hj <;> rw [hj]
  · exact fun hne => hne hO.queue
  · rintro ⟨hne, hnot⟩
    exact hnot ⟨hO.afterJoin.resolve_left hne, hO.status⟩
  · exact id

/-- **The rendezvous of `join` and `terminate`** is safe in every reachable state, over any number
of lives. -/
theorem rendezvous (h : (machine K).Reachable s) : Rendezvous s := by
  have hI := inv_reachable h
  have hW := BlockingQueue.inv_reachable (ConditionVariable.inv_reachable hI.joinWait).queue
  have hS := Semaphore.inv_reachable hI.afterJoin
  have hA := BlockingQueue.inv_reachable hS.queue
  have hfree := fun hx => Mutex.idle_of_out hW.mutex fun q => (hI.statuses hx q).1
  have hfree' := fun hx => Mutex.idle_of_out hA.mutex fun q => (hI.statuses hx q).2
  refine ⟨hI.joined, fun hx => ?_, fun hx => ⟨hI.not_accessing hx, fun k => ?_⟩, hI.awake,
    fun hx => ?_⟩
  · have ha := hI.inAfterJoin .joiner
    rw [hx] at ha
    exact ha
  · exact ⟨(hfree hx).2.2 k, (hfree' hx).2.2 k⟩
  · have hO := hI.over hx
    have ha := hI.inAfterJoin .target
    rw [hx] at ha
    refine ⟨⟨(hfree hx).1, (hfree hx).2.1⟩, hI.joinWait_nil hx, hO.counter, ?_, (hfree' hx).1,
      (hfree' hx).2.1⟩
    refine List.eq_nil_iff_forall_not_mem.mpr fun q => ?_
    cases q with
    | joiner => exact hI.joiner_not_waiting
    | target => exact hA.not_mem (hS.idle ha) rfl

/-- In the first life the joiner comes first, and the target is recycled before `join` has returned;
in the second one the target comes first. -/
def twoLives : List (Action ℕ) :=
  let mtx (n : ℕ) : List (Action ℕ) := List.replicate n (.joinWait (.queue (.mutex 0)))
  let wait (n : ℕ) (p : Party) : List (Action ℕ) := List.replicate n (.joinWait (.queue (.run 0 p)))
  let sem (n : ℕ) : List (Action ℕ) := List.replicate n (.afterJoin (.queue (.mutex 0)))
  let after (n : ℕ) (p : Party) : List (Action ℕ) :=
    List.replicate n (.afterJoin (.queue (.run 0 p)))
  let enter (p : Party) : List (Action ℕ) :=
    List.flatten [mtx 4, wait 1 p, [.joinWait (.run 0 p), .run 0 p, .run 0 p]]
  let park (p : Party) : List (Action ℕ) := List.flatten [wait 3 p, mtx 4]
  let signal (p : Party) : List (Action ℕ) :=
    List.flatten [wait 4 p, mtx 4, wait 2 p, [.joinWait (.run 0 p), .run 0 p]]
  let leave (p : Party) : List (Action ℕ) :=
    List.flatten [[.joinWait (.queue (.dispatch p)), .joinWait (.run 0 p)], mtx 4, wait 1 p,
      [.joinWait (.run 0 p), .run 0 p], wait 1 p, mtx 4, wait 1 p, [.joinWait (.run 0 p), .run 0 p]]
  let p : List (Action ℕ) := List.flatten [sem 4, after 1 .target,
    [.afterJoin (.run .target), .afterJoin (.run .target)], after 3 .target, sem 4]
  let v : List (Action ℕ) := List.flatten [sem 4, after 1 .joiner, [.afterJoin (.run .joiner)],
    after 4 .joiner, sem 4, after 2 .joiner]
  let join : List (Action ℕ) := [.start .joiner, .run 0 .joiner, .run 0 .joiner]
  let terminate : List (Action ℕ) := [.start .target, .run 0 .target]
  List.flatten [join, enter .joiner, park .joiner, terminate, enter .target, signal .target, p,
    leave .joiner, v, [.afterJoin (.queue (.dispatch .target)), .afterJoin (.run .target),
      .run 0 .target, .recycle 0],
    terminate, enter .target, park .target, join, enter .joiner, signal .joiner, leave .target]

theorem rendezvous_twoLives :
    ∃ s : State ℕ, (machine ℕ).Reachable s ∧ s.lives = 1 ∧ s.pc .joiner = .done ∧
    s.pc .target = .done ∧
      Rendezvous s := by
  have hinit : (machine ℕ).Reachable initial := .of_init rfl
  have hr := hinit.get twoLives (by decide +kernel)
  exact ⟨_, hr, by decide +kernel, by decide +kernel, by decide +kernel, rendezvous hr⟩

end Steps

end UThreads.Join
