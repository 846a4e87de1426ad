import UThreads.Lib.Word
import UThreads.Sync.BlockingQueueProof
import Mathlib.Algebra.Group.Nat.Defs

/-!
# `Semaphore`

A counter of permits with a `Mutex` and a `BlockingQueue`. `P` takes a permit from the counter or
suspends; `V` passes its permit to the first uThread on the queue, without touching the counter, or
adds it to the counter.

**The agents.** `pc u` is the position of uThread `u` in `P` or `V`; the steps inside `bq.suspend`,
`bq.signal` and the mutex are those of the machine `queue`, interleaved with everything else.

**Bookkeeping.** `takes` and `adds` list the uThreads whose `P` took a permit from the counter and
whose `V` added one to it. `pCalls` and `vCalls` count the calls. `counter` is an `mword`:
`overflows` counts the times it went from its largest value to 0.

* **`permits_lost`**: at its largest value, the counter loses permits.
* **`permits_conserved`**: but for that, permits are conserved.
-/

namespace UThreads.Semaphore

/-- The position of a uThread. -/
inductive Pc
  | idle
  /-- `P`: `mutex.acquire()` -/
  | pAcquire
  /-- `P`: `if (counter < 1)` -/
  | pTest
  /-- `P`: `return bq.suspend(mutex)` -/
  | pSuspend
  /-- `P`: `counter -= 1` -/
  | pTake
  /-- `P`: `mutex.release(); return true` -/
  | pRelease
  /-- `V`: `mutex.acquire()` -/
  | vAcquire
  /-- `V`: `if (bq.signal(mutex)) return` -/
  | vSignal
  /-- `V`: `counter += 1` -/
  | vAdd
  /-- `V`: `mutex.release()` -/
  | vRelease
  deriving DecidableEq

structure State (K U : Type*) where
  /-- `mutex` and `bq` -/
  queue : BlockingQueue.State K U
  counter : BitVec 64
  pc : U → Pc
  takes : List U
  adds : List U
  overflows : ℕ
  pCalls : U → ℕ
  vCalls : U → ℕ

variable {K U : Type*} [DecidableEq K] [DecidableEq U]

/-- `Semaphore(c)` -/
def initial (c : BitVec 64) : State K U where
  queue := BlockingQueue.initial
  counter := c
  pc := fun _ => .idle
  takes := []
  adds := []
  overflows := 0
  pCalls := fun _ => 0
  vCalls := fun _ => 0

namespace State

variable (s : State K U)

/-- uThread `u` comes to `x`. -/
def goto (u : U) (x : Pc) : State K U := { s with pc := Function.update s.pc u x }

/-- A step of the queue or its mutex. -/
def onQueue (a : BlockingQueue.Action K U) : Option (State K U) :=
  (BlockingQueue.step s.queue a).map fun q => { s with queue := q }

/-- `counter -= 1` -/
def take (u : U) : State K U := { s with counter := s.counter - 1, takes := s.takes ++ [u] }

/-- `counter += 1` -/
def add (u : U) : State K U :=
  { s with
    counter := s.counter + 1
    adds := s.adds ++ [u]
    overflows := if s.counter = BitVec.allOnes 64 then s.overflows + 1 else s.overflows }

/-- The calls of `P` that were granted a permit. -/
def granted : ℕ := s.takes.length + s.queue.wakes.length

/-- The calls of `V` that have taken effect. -/
def effective : ℕ := s.adds.length + s.queue.wakes.length

end State

/-- The next step of uThread `u`. -/
def run (u : U) (s : State K U) : Option (State K U) :=
  match s.pc u with
  | .idle => none
  | .pAcquire => if s.queue.pc u = .inside then some (s.goto u .pTest) else none
  | .pTest =>
    if s.counter < 1 then (s.onQueue (.suspend u)).map fun s => s.goto u .pSuspend
    else some (s.goto u .pTake)
  | .pTake => ((s.take u).onQueue (.release u)).map fun s => s.goto u .pRelease
  | .vAcquire =>
    if s.queue.pc u = .inside then (s.onQueue (.signal u)).map fun s => s.goto u .vSignal else none
  | .vSignal =>
    if s.queue.pc u = .sigFalse then some (s.goto u .vAdd)
    else if s.queue.pc u = .out then some (s.goto u .idle)
    else none
  | .vAdd => ((s.add u).onQueue (.release u)).map fun s => s.goto u .vRelease
  | .pSuspend | .pRelease | .vRelease =>
    if s.queue.pc u = .out then some (s.goto u .idle) else none

inductive Action (K U : Type*)
  /-- uThread `u` calls `P` on kThread `k`. -/
  | p (k : K) (u : U)
  /-- uThread `u` calls `V` on kThread `k`. -/
  | v (k : K) (u : U)
  /-- A step of `u`. -/
  | run (u : U)
  /-- A step inside `queue`. -/
  | queue (a : BlockingQueue.Action K U)

/-- The steps that are not calls. -/
def Action.internal {K U : Type*} : Action K U → Bool
  | .run _ | .queue _ => true
  | _ => false

def step (s : State K U) : Action K U → Option (State K U)
  | .p k u =>
    if s.pc u = .idle then
      (s.onQueue (.acquire k u)).map fun s =>
        { s with pCalls := Function.update s.pCalls u (s.pCalls u + 1) }.goto u .pAcquire
    else none
  | .v k u =>
    if s.pc u = .idle then
      (s.onQueue (.acquire k u)).map fun s =>
        { s with vCalls := Function.update s.vCalls u (s.vCalls u + 1) }.goto u .vAcquire
    else none
  | .run u => run u s
  | .queue a => if a.internal then s.onQueue a else none

def machine (K U : Type*) [DecidableEq K] [DecidableEq U] (c : BitVec 64) :
    Machine (State K U) (Action K U) where
  init := fun s => s = initial c
  step := step

/-- One call of `V`. -/
def oneV : List (Action ℕ ℕ) :=
  List.flatten [[.v 0 0], List.replicate 4 (.queue (.mutex 0)),
    [.queue (.run 0 0), .run 0, .queue (.run 0 0), .run 0, .run 0, .queue (.run 0 0)],
    List.replicate 4 (.queue (.mutex 0)), [.queue (.run 0 0), .run 0]]

/-- **At its largest value, the counter loses permits.** -/
theorem permits_lost :
    ∃ s : State ℕ ℕ, (machine ℕ ℕ (BitVec.allOnes 64)).Reachable s ∧
      s.queue.mutex.owner = none ∧ s.pc 0 = .idle ∧ s.counter = 0 ∧ s.granted = 0 ∧
      s.effective = 1 ∧ s.counter.toNat + s.granted ≠ (BitVec.allOnes 64).toNat + s.effective := by
  have hinit : (machine ℕ ℕ (BitVec.allOnes 64)).Reachable (initial (BitVec.allOnes 64)) :=
    .of_init rfl
  have hr := hinit.get oneV (by decide +kernel)
  exact ⟨_, hr, by decide +kernel, by decide +kernel, by decide +kernel, by decide +kernel,
    by decide +kernel, by decide +kernel⟩

/-! ## What a step does -/

/-- What a step does. -/
inductive Step (s : State K U) : Action K U → State K U → Prop
  | p {k : K} {u : U} {q : BlockingQueue.State K U} : s.pc u = .idle →
      BlockingQueue.step s.queue (.acquire k u) = some q → Step s (.p k u) ({ s with
        queue := q
        pCalls := Function.update s.pCalls u (s.pCalls u + 1) }.goto u .pAcquire)
  | v {k : K} {u : U} {q : BlockingQueue.State K U} : s.pc u = .idle →
      BlockingQueue.step s.queue (.acquire k u) = some q → Step s (.v k u) ({ s with
        queue := q
        vCalls := Function.update s.vCalls u (s.vCalls u + 1) }.goto u .vAcquire)
  | acquired {u : U} : s.pc u = .pAcquire → s.queue.pc u = .inside →
      Step s (.run u) (s.goto u .pTest)
  | suspend {u : U} {q : BlockingQueue.State K U} : s.pc u = .pTest → s.counter = 0 →
      BlockingQueue.step s.queue (.suspend u) = some q →
      Step s (.run u) ({ s with queue := q }.goto u .pSuspend)
  | permit {u : U} : s.pc u = .pTest → s.counter ≠ 0 → Step s (.run u) (s.goto u .pTake)
  | take {u : U} {q : BlockingQueue.State K U} : s.pc u = .pTake →
      BlockingQueue.step s.queue (.release u) = some q →
      Step s (.run u) ({ s.take u with queue := q }.goto u .pRelease)
  | signal {u : U} {q : BlockingQueue.State K U} : s.pc u = .vAcquire →
      BlockingQueue.step s.queue (.signal u) = some q →
      Step s (.run u) ({ s with queue := q }.goto u .vSignal)
  | nobody {u : U} : s.pc u = .vSignal → s.queue.pc u = .sigFalse →
      Step s (.run u) (s.goto u .vAdd)
  | add {u : U} {q : BlockingQueue.State K U} : s.pc u = .vAdd →
      BlockingQueue.step s.queue (.release u) = some q →
      Step s (.run u) ({ s.add u with queue := q }.goto u .vRelease)
  | done {u : U} :
      s.pc u = .pSuspend ∨ s.pc u = .pRelease ∨ s.pc u = .vSignal ∨ s.pc u = .vRelease →
      s.queue.pc u = .out → Step s (.run u) (s.goto u .idle)
  | queue {a : BlockingQueue.Action K U} {q : BlockingQueue.State K U} : a.internal = true →
      BlockingQueue.step s.queue a = some q → Step s (.queue a) { s with queue := q }

section Steps

variable {c : BitVec 64} {s s' : State K U} {u : U}

omit [DecidableEq K] [DecidableEq U] in
theorem lt_one_iff (x : BitVec 64) : x < 1 ↔ x = 0 := by
  rw [BitVec.lt_def, BitVec.toNat_eq]
  simp

theorem run_step (hs : run u s = some s') : Step s (.run u) s' := by
  unfold run at hs
  cases hu : s.pc u with
  | idle => simp [hu] at hs
  | pAcquire =>
    simp only [hu] at hs
    split_ifs at hs with hin
    cases hs
    exact .acquired hu hin
  | pTest =>
    simp only [hu, lt_one_iff] at hs
    split_ifs at hs with hc
    · obtain ⟨_, ht, rfl⟩ := Option.map_eq_some_iff.mp hs
      obtain ⟨q, hq, rfl⟩ := Option.map_eq_some_iff.mp ht
      exact .suspend hu hc hq
    · cases hs
      exact .permit hu hc
  | pTake =>
    simp only [hu] at hs
    obtain ⟨_, ht, rfl⟩ := Option.map_eq_some_iff.mp hs
    obtain ⟨q, hq, rfl⟩ := Option.map_eq_some_iff.mp ht
    exact .take hu hq
  | vAcquire =>
    simp only [hu] at hs
    split_ifs at hs
    obtain ⟨_, ht, rfl⟩ := Option.map_eq_some_iff.mp hs
    obtain ⟨q, hq, rfl⟩ := Option.map_eq_some_iff.mp ht
    exact .signal hu hq
  | vSignal =>
    simp only [hu] at hs
    split_ifs at hs with hf hout
    · cases hs
      exact .nobody hu hf
    · cases hs
      exact .done (.inr (.inr (.inl hu))) hout
  | vAdd =>
    simp only [hu] at hs
    obtain ⟨_, ht, rfl⟩ := Option.map_eq_some_iff.mp hs
    obtain ⟨q, hq, rfl⟩ := Option.map_eq_some_iff.mp ht
    exact .add hu hq
  | pSuspend | pRelease | vRelease =>
    simp only [hu] at hs
    split_ifs at hs with hout
    cases hs
    exact .done (by simp [hu]) hout

theorem step_cases {a : Action K U} (hs : step s a = some s') : Step s a s' := by
  cases a with
  | p k u =>
    simp only [step] at hs
    split_ifs at hs with hu
    obtain ⟨_, ht, rfl⟩ := Option.map_eq_some_iff.mp hs
    obtain ⟨q, hq, rfl⟩ := Option.map_eq_some_iff.mp ht
    exact .p hu hq
  | v k u =>
    simp only [step] at hs
    split_ifs at hs with hu
    obtain ⟨_, ht, rfl⟩ := Option.map_eq_some_iff.mp hs
    obtain ⟨q, hq, rfl⟩ := Option.map_eq_some_iff.mp ht
    exact .v hu hq
  | run u => exact run_step hs
  | queue a =>
    simp only [step] at hs
    split_ifs at hs with ha
    obtain ⟨q, hq, rfl⟩ := Option.map_eq_some_iff.mp hs
    exact .queue ha hq

/-! ## The counter and the queue -/

/-- What a uThread in `P` or `V` does with the queue. -/
def Pc.use : Pc → BlockingQueue.Use
  | .idle => .none
  | .pAcquire | .vAcquire => .acquire
  | .pTest | .pTake => .hold
  | .pSuspend => .suspend
  | .vSignal => .signal
  | .vAdd => .failed
  | .pRelease | .vRelease => .release

def Pc.agrees (p : Pc) (x : BlockingQueue.Pc U) : Bool := p.use.covers x

omit [DecidableEq U] in
theorem Pc.inside_of_agrees {p : Pc} {x : BlockingQueue.Pc U} (hp : p = .pTest ∨ p = .pTake)
    (h : p.agrees x = true) : x = .inside := by
  rcases hp with rfl | rfl <;> cases x <;> first | rfl | cases h

omit [DecidableEq U] in
theorem Pc.sigFalse_of_agrees {x : BlockingQueue.Pc U} (h : Pc.vAdd.agrees x = true) :
    x = .sigFalse := by
  cases x <;> first | rfl | cases h

structure Inv (c : BitVec 64) (s : State K U) : Prop where
  queue : (BlockingQueue.machine K U).Reachable s.queue
  agrees : ∀ u, (s.pc u).agrees (s.queue.pc u) = true
  zero : ∀ u, (s.queue.pc u).Joining → s.counter = 0
  positive : ∀ u, s.pc u = .pTake → s.counter ≠ 0
  empty : s.counter ≠ 0 → s.queue.bq = []
  count : s.counter.toNat + s.takes.length + 2 ^ 64 * s.overflows = c.toNat + s.adds.length

/-- `u` moves, and nothing else changes. -/
theorem Inv.goto (h : Inv c s) {y : Pc} (hy : y.agrees (s.queue.pc u) = true)
    (hpos : y = .pTake → s.counter ≠ 0) : Inv c (s.goto u y) := by
  refine { h with agrees := ?_, positive := ?_ }
  · intro v
    by_cases hv : v = u
    · rw [hv]
      show (Function.update s.pc u y u).agrees _ = true
      rw [Function.update_self]
      exact hy
    · show (Function.update s.pc u y v).agrees _ = true
      rw [Function.update_of_ne hv]
      exact h.agrees v
  · intro v hv
    replace hv : Function.update s.pc u y v = .pTake := hv
    by_cases hvu : v = u
    · rw [hvu, Function.update_self] at hv
      exact hpos hv
    · rw [Function.update_of_ne hvu] at hv
      exact h.positive v hv

/-- `u` makes a call on the queue. -/
theorem Inv.call (h : Inv c s) {q : BlockingQueue.State K U} {x : BlockingQueue.Pc U} {y : Pc}
    (hq : (BlockingQueue.machine K U).Reachable q) (hpc : q.pc = Function.update s.queue.pc u x)
    (hbq : q.bq = s.queue.bq) (hy : y.agrees x = true) (hzero : x.Joining → s.counter = 0)
    (hpos : y ≠ .pTake) : Inv c ({ s with queue := q }.goto u y) := by
  refine { h with queue := hq, agrees := ?_, zero := ?_, positive := ?_, empty := ?_ }
  · intro v
    show (Function.update s.pc u y v).agrees (q.pc v) = true
    rw [hpc]
    by_cases hv : v = u
    · rw [hv, Function.update_self, Function.update_self]
      exact hy
    · rw [Function.update_of_ne hv, Function.update_of_ne hv]
      exact h.agrees v
  · intro v hv
    replace hv : (q.pc v).Joining := hv
    rw [hpc] at hv
    by_cases hvu : v = u
    · rw [hvu, Function.update_self] at hv
      exact hzero hv
    · rw [Function.update_of_ne hvu] at hv
      exact h.zero v hv
  · intro v hv
    replace hv : Function.update s.pc u y v = .pTake := hv
    by_cases hvu : v = u
    · rw [hvu, Function.update_self] at hv
      exact absurd hv hpos
    · rw [Function.update_of_ne hvu] at hv
      exact h.positive v hv
  · intro hc
    show q.bq = []
    rw [hbq]
    exact h.empty hc

/-- While `u` has the mutex, nobody else is about to be queued or to take a permit. -/
theorem Inv.alone (h : Inv c s) (hu : (s.queue.pc u).holds = true) {v : U} (hv : v ≠ u) :
    ¬(s.queue.pc v).Joining ∧ s.pc v ≠ .pTake := by
  have hnot := (BlockingQueue.inv_reachable h.queue).not_holds hu hv
  refine ⟨?_, ?_⟩
  · rintro (hj | hj) <;> rw [hj] at hnot <;> cases hnot
  · intro ht
    rw [Pc.inside_of_agrees (.inr ht) (h.agrees v)] at hnot
    cases hnot

/-- `u`, which has the mutex, changes the counter and is to release the mutex. -/
theorem Inv.store (h : Inv c s) {n : BitVec 64} {takes adds : List U} {overflows : ℕ} {y : Pc}
    {pCalls vCalls : U → ℕ}
    (hu : (s.queue.pc u).holds = true) (hy : y = .pRelease ∨ y = .vRelease)
    (hq : (BlockingQueue.machine K U).Reachable (s.queue.goto u .release))
    (hempty : s.queue.bq = [])
    (hcount : n.toNat + takes.length + 2 ^ 64 * overflows = c.toNat + adds.length) :
    Inv c (State.goto ⟨s.queue.goto u .release, n, s.pc, takes, adds, overflows, pCalls, vCalls⟩
    u y) := by
  refine ⟨hq, ?_, ?_, ?_, fun _ => hempty, hcount⟩
  · intro v
    show (Function.update s.pc u y v).agrees (Function.update s.queue.pc u .release v) = true
    by_cases hv : v = u
    · rw [hv, Function.update_self, Function.update_self]
      rcases hy with rfl | rfl <;> rfl
    · rw [Function.update_of_ne hv, Function.update_of_ne hv]
      exact h.agrees v
  · intro v hv
    replace hv : BlockingQueue.Pc.Joining (Function.update s.queue.pc u .release v) := hv
    by_cases hvu : v = u
    · rw [hvu, Function.update_self] at hv
      rcases hv with hv | hv <;> cases hv
    · rw [Function.update_of_ne hvu] at hv
      exact absurd hv (h.alone hu hvu).1
  · intro v hv
    replace hv : Function.update s.pc u y v = .pTake := hv
    by_cases hvu : v = u
    · rw [hvu, Function.update_self] at hv
      rcases hy with rfl | rfl <;> cases hv
    · rw [Function.update_of_ne hvu] at hv
      exact absurd hv (h.alone hu hvu).2

/-- `counter += 1` wraps when the counter is at its maximum. -/
theorem toNat_incr (x : BitVec 64) :
    (x + 1).toNat + (if x = BitVec.allOnes 64 then 2 ^ 64 else 0) = x.toNat + 1 := by
  split_ifs with hx
  · rw [hx]
    decide
  · have hlt := x.isLt
    have hne : x.toNat ≠ 2 ^ 64 - 1 := fun he => hx (BitVec.eq_of_toNat_eq (by rw [he]; rfl))
    exact Word.toNat_add_one (by omega)

/-- A step inside the queue. -/
theorem Inv.queueStep (h : Inv c s) {a : BlockingQueue.Action K U} {q : BlockingQueue.State K U}
    (ha : a.internal = true) (hq : BlockingQueue.step s.queue a = some q) :
    Inv c { s with queue := q } := by
  have hstep := BlockingQueue.step_cases (BlockingQueue.inv_reachable h.queue) hq
  have hint := (BlockingQueue.internal_cases ha hstep).1
  refine { h with
    queue := BlockingQueue.reachable_step h.queue hq, agrees := ?_, zero := ?_, empty := ?_ }
  · intro v
    show (s.pc v).agrees (q.pc v) = true
    rcases hint.next v with hv | hv
    · rw [hv]
      exact h.agrees v
    · exact BlockingQueue.Use.covers_next (h.agrees v) hv
  · intro v hv
    replace hv : (q.pc v).Joining := hv
    refine h.zero v ?_
    rcases hint.next v with hp | hp
    · rw [← hp]
      exact hv
    · generalize s.queue.pc v = x at hp
      generalize q.pc v = y at hp hv
      exact hv.of_next hp
  · intro hc
    have hnil := h.empty hc
    show q.bq = []
    cases hint with
    | quiet hbq =>
      rw [hbq]
      exact hnil
    | push hu => exact absurd (h.zero _ (.inr hu)) hc
    | take _ _ hl =>
      rw [hl] at hnil
      cases hnil

theorem inv_step (h : Inv c s) {a : Action K U} (hs : step s a = some s') : Inv c s' := by
  have hI := BlockingQueue.inv_reachable h.queue
  cases step_cases hs with
  | @p k u q hu hq =>
    have hreach := BlockingQueue.reachable_step h.queue hq
    cases BlockingQueue.step_cases hI hq
    exact { h.call (u := u) (y := .pAcquire) hreach rfl rfl rfl nofun nofun with }
  | @v k u q hu hq =>
    have hreach := BlockingQueue.reachable_step h.queue hq
    cases BlockingQueue.step_cases hI hq
    exact { h.call (u := u) (y := .vAcquire) hreach rfl rfl rfl nofun nofun with }
  | acquired hu hin => exact h.goto (by rw [hin]; rfl) nofun
  | @suspend u q hu hc hq =>
    have hreach := BlockingQueue.reachable_step h.queue hq
    cases BlockingQueue.step_cases hI hq
    exact h.call hreach rfl rfl rfl (fun _ => hc) nofun
  | @permit u hu hc =>
    refine h.goto ?_ fun _ => hc
    rw [Pc.inside_of_agrees (.inl hu) (h.agrees u)]
    rfl
  | @take u q hu hq =>
    have hpos := h.positive u hu
    have hin := Pc.inside_of_agrees (.inr hu) (h.agrees u)
    have hreach := BlockingQueue.reachable_step h.queue hq
    cases BlockingQueue.step_cases hI hq
    refine h.store (by rw [hin]; rfl) (.inl rfl) hreach (h.empty hpos) ?_
    have hsub := Word.toNat_sub_one (Word.toNat_pos hpos)
    have hcount := h.count
    show (s.counter - 1).toNat + (s.takes ++ [u]).length + 2 ^ 64 * s.overflows =
      c.toNat + s.adds.length
    rw [List.length_append, List.length_singleton]
    omega
  | @signal u q hu hq =>
    have hreach := BlockingQueue.reachable_step h.queue hq
    cases BlockingQueue.step_cases hI hq
    exact h.call hreach rfl rfl rfl nofun nofun
  | nobody hu hf => exact h.goto (by rw [hf]; rfl) nofun
  | @add u q hu hq =>
    have hag := h.agrees u
    rw [hu] at hag
    have hf := Pc.sigFalse_of_agrees hag
    have hview := hI.view u
    rw [hf] at hview
    have hreach := BlockingQueue.reachable_step h.queue hq
    cases BlockingQueue.step_cases hI hq
    refine h.store (by rw [hf]; rfl) (.inr rfl) hreach hview ?_
    have hadd := toNat_incr s.counter
    have hcount := h.count
    show (s.counter + 1).toNat + s.takes.length +
      2 ^ 64 * (if s.counter = BitVec.allOnes 64 then s.overflows + 1 else s.overflows) =
        c.toNat + (s.adds ++ [u]).length
    rw [List.length_append, List.length_singleton]
    generalize 2 ^ 64 = m at hadd hcount ⊢
    split_ifs at hadd ⊢
    · rw [Nat.mul_succ]
      omega
    · omega
  | done hu hout => exact h.goto (by rw [hout]; rfl) nofun
  | queue ha hq => exact h.queueStep ha hq

theorem inv_reachable (h : (machine K U c).Reachable s) : Inv c s := by
  refine Machine.Reachable.invariant (I := Inv c) ?_ (fun _ _ _ hI hs => inv_step hI hs) h
  rintro s rfl
  refine ⟨.of_init rfl, fun _ => rfl, fun u hu => ?_, nofun, fun _ => rfl, rfl⟩
  rcases hu with hu | hu <;> cases hu

/-- A uThread in neither `P` nor `V` has nothing to do with the queue. -/
theorem Inv.idle (h : Inv c s) (hu : s.pc u = .idle) : s.queue.pc u = .out := by
  have hag := h.agrees u
  rw [hu] at hag
  cases hx : s.queue.pc u <;> rw [hx] at hag <;> first | rfl | cases hag

/-- A uThread that is through with the queue returns from `P` or `V`. -/
theorem Inv.returns (h : Inv c s) (hu : s.queue.pc u = .out) :
    s.pc u = .idle ∨ step s (.run u) = some (s.goto u .idle) := by
  have hag := h.agrees u
  rw [hu] at hag
  cases hx : s.pc u <;> rw [hx] at hag <;> first | exact .inl rfl | cases hag
  all_goals
    refine .inr ?_
    simp [step, run, hx, hu]

theorem reachable_step (h : (machine K U c).Reachable s) {a : Action K U}
    (hs : step s a = some s') : (machine K U c).Reachable s' :=
  h.next (a := a) hs

/-! ## The permit of a `V` -/

/-- Until a `V` that added its permit to the counter has left the mutex, nobody takes that
permit. -/
def Added (s : State K U) : Prop :=
  ∀ u, s.pc u = .vRelease → s.queue.mutex.status u ≠ .out → s.counter ≠ 0 ∨ s.overflows ≠ 0

omit [DecidableEq K] in
/-- `u` moves, and the counter stays. -/
theorem Added.goto (h : Added s) {y : Pc} (hpc : s'.pc = Function.update s.pc u y)
    (hy : y ≠ .vRelease)
    (hcounter : s'.counter = s.counter) (hoverflows : s'.overflows = s.overflows)
    (hst : ∀ v, v ≠ u → s'.queue.mutex.status v = s.queue.mutex.status v) : Added s' := by
  intro v hv hne
  rw [hpc] at hv
  rw [hcounter, hoverflows]
  by_cases hvu : v = u
  · rw [hvu, Function.update_self] at hv
    exact absurd hv hy
  · rw [Function.update_of_ne hvu] at hv
    rw [hst v hvu] at hne
    exact h v hv hne

/-- While `u` has the mutex, every other `V` has left it. -/
theorem Inv.released (h : Inv c s) (hu : (s.queue.pc u).holds = true) {v : U} (hvu : v ≠ u)
    (hv : s.pc v = .vRelease) : s.queue.mutex.status v = .out := by
  have hI := BlockingQueue.inv_reachable h.queue
  have hin := (hI.agrees u).inside hu
  have hnot := hI.not_holds hu hvu
  have hag := h.agrees v
  have hst := hI.agrees v
  rw [hv] at hag
  cases hx : s.queue.pc v <;> rw [hx] at hag hst hnot <;> cases hag
  case release => cases hnot
  case releasing =>
    exact hst.resolve_left fun hrel => Mutex.not_inside_of_releasing hI.mutex hrel hin
  case out => exact hst

theorem added_step (hI : Inv c s) (h : Added s) {a : Action K U} (hs : step s a = some s') :
    Added s' := by
  have hQ := BlockingQueue.inv_reachable hI.queue
  cases step_cases hs with
  | @p k u q hu hq | @v k u q hu hq =>
    cases BlockingQueue.step_cases hQ hq with
    | @acquire _ _ m _ hm =>
      refine h.goto (u := u) rfl nofun rfl rfl fun v hv => ?_
      show m.status v = _
      rw [(Mutex.status_acquire hm).2, Function.update_of_ne hv]
  | acquired | permit | nobody | done => exact h.goto rfl nofun rfl rfl fun v _ => rfl
  | suspend _ _ hq | signal _ hq =>
    cases BlockingQueue.step_cases hQ hq
    exact h.goto rfl nofun rfl rfl fun v _ => rfl
  | @take u q hu hq =>
    have hin := Pc.inside_of_agrees (.inr hu) (hI.agrees u)
    cases BlockingQueue.step_cases hQ hq
    intro v hv hne
    replace hv : Function.update s.pc u .pRelease v = .vRelease := hv
    by_cases hvu : v = u
    · rw [hvu, Function.update_self] at hv
      cases hv
    · rw [Function.update_of_ne hvu] at hv
      exact absurd (hI.released (by rw [hin]; rfl) hvu hv) hne
  | @add u q hu hq =>
    intro v hv hne
    show s.counter + 1 ≠ 0 ∨ (if s.counter = BitVec.allOnes 64 then s.overflows + 1
      else s.overflows) ≠ 0
    by_cases hmax : s.counter = BitVec.allOnes 64
    · rw [if_pos hmax]
      exact .inr (Nat.succ_ne_zero _)
    · refine .inl fun hzero => ?_
      have hadd := toNat_incr s.counter
      rw [hzero, if_neg hmax] at hadd
      exact absurd hadd (Nat.succ_ne_zero _).symm
  | queue ha hq =>
    intro v hv hne
    refine h v hv fun hout => hne ?_
    exact BlockingQueue.internal_out hQ ha (BlockingQueue.step_cases hQ hq) hout

theorem added_reachable (h : (machine K U c).Reachable s) : Added s := by
  have hI : Inv c s ∧ Added s := by
    refine Machine.Reachable.invariant (I := fun s => Inv c s ∧ Added s) ?_ ?_ h
    · rintro s rfl
      exact ⟨inv_reachable (.of_init rfl), nofun⟩
    · intro s a s' hI hs
      exact ⟨inv_step hI.1 hs, added_step hI.1 hI.2 hs⟩
  exact hI.2

/-! ## The calls -/

/-- A call of `P` without a permit so far; `queued` says that it is on the queue. -/
def asking (queued : Bool) : Pc → BlockingQueue.Pc U → Bool
  | .pAcquire, _ | .pTest, _ | .pTake, _ => true
  | .pSuspend, .suspend | .pSuspend, .hookPush => true
  | .pSuspend, _ => queued
  | _, _ => false

/-- A call of `V` that has not taken effect. -/
def offering : Pc → BlockingQueue.Pc U → Bool
  | .vAcquire, _ | .vAdd, _ => true
  | .vSignal, .sigTest | .vSignal, .sigFront | .vSignal, .sigPop _ | .vSignal, .sigFalse => true
  | _, _ => false

omit [DecidableEq U] in
theorem asking_quiet {p : Pc} {x y : BlockingQueue.Pc U} {b : Bool} (hq : x.Quiet y) :
    asking b p y = asking b p x := by
  cases hq with
  | release hr => cases hr <;> cases p <;> rfl
  | resume hr => cases hr <;> cases p <;> rfl
  | _ => cases p <;> rfl

omit [DecidableEq U] in
theorem offering_quiet {p : Pc} {x y : BlockingQueue.Pc U} (hq : x.Quiet y) :
    offering p y = offering p x := by
  cases hq with
  | release hr => cases hr <;> cases p <;> rfl
  | resume hr => cases hr <;> cases p <;> rfl
  | _ => cases p <;> rfl

omit [DecidableEq U] in
/-- Only `P` queues a uThread. -/
theorem Pc.pSuspend_of_agrees {p : Pc} {x : BlockingQueue.Pc U} (hx : x = .hookPush ∨ x = .parked)
    (h : p.agrees x = true) : p = .pSuspend := by
  rcases hx with rfl | rfl <;> cases p <;> first | rfl | cases h

omit [DecidableEq U] in
/-- Only `V` takes a uThread off the queue. -/
theorem Pc.vSignal_of_agrees {p : Pc} {w : U} {x y : BlockingQueue.Pc U} (h : p.agrees x = true)
    (ht : x.Takes w y) : p = .vSignal ∧ x = .sigPop w ∧ y = .sigRelease w := by
  cases ht <;> cases p <;> first | exact ⟨rfl, rfl, rfl⟩ | cases h

/-- The calls of a uThread: each `P` takes a permit or is woken with one, each `V` adds a permit or
wakes somebody, and each of them acquires the mutex once. -/
structure Tally (pCalls vCalls acquires takes adds woken wakes : ℕ) (queued : Bool) (pc : Pc)
    (x : BlockingQueue.Pc U) : Prop where
  p : pCalls = takes + woken + (asking queued pc x).toNat
  v : vCalls = adds + wakes + (offering pc x).toNat
  acquires : pCalls + vCalls = acquires

def Tallied (s : State K U) (u : U) : Prop :=
  Tally (s.pCalls u) (s.vCalls u) (s.queue.acquires u) (s.takes.count u) (s.adds.count u)
    ((s.queue.wakes.map Prod.snd).count u) ((s.queue.wakes.map Prod.fst).count u)
    (decide (u ∈ s.queue.bq)) (s.pc u) (s.queue.pc u)

/-- A step inside the queue. -/
theorem tallied_queue (hI : Inv c s) (h : ∀ u, Tallied s u) {q : BlockingQueue.State K U}
    (hint : BlockingQueue.Internal s.queue q) (hacq : q.acquires = s.queue.acquires) (v : U) :
    Tallied { s with queue := q } v := by
  have hQ := BlockingQueue.inv_reachable hI.queue
  obtain ⟨hp, hv, ha⟩ := h v
  unfold Tallied
  dsimp only
  rw [hacq]
  cases hint with
  | quiet hbq hwakes hpc =>
    rw [hbq, hwakes]
    rcases hpc v with hsame | hquiet
    · rw [hsame]
      exact ⟨hp, hv, ha⟩
    · exact ⟨asking_quiet hquiet ▸ hp, offering_quiet hquiet ▸ hv, ha⟩
  | @push u hu hbq hwakes hpc =>
    rw [hbq, hwakes, hpc]
    by_cases hvu : v = u
    · subst hvu
      have hps : s.pc v = .pSuspend := Pc.pSuspend_of_agrees (.inl hu) (hI.agrees v)
      have hmem : v ∈ s.queue.bq ++ [v] := List.mem_append_right _ (List.mem_singleton_self v)
      rw [hps, hu] at hp hv
      rw [hps, Function.update_self, decide_eq_true hmem]
      exact ⟨hp, hv, ha⟩
    · have hmem : v ∈ s.queue.bq ++ [u] ↔ v ∈ s.queue.bq := by
        rw [List.mem_append, List.mem_singleton]
        exact or_iff_left hvu
      rw [Function.update_of_ne hvu, decide_eq_decide.mpr hmem]
      exact ⟨hp, hv, ha⟩
  | @take u w x y l hx ht hl hbq hwakes hpc =>
    have hagu := hI.agrees u
    rw [hx] at hagu
    obtain ⟨hpu, rfl, rfl⟩ := Pc.vSignal_of_agrees hagu ht
    have hwq : w ∈ s.queue.bq := by
      rw [hl]
      exact List.mem_cons_self
    have hwu : w ≠ u := fun he => hQ.not_mem hx rfl (he ▸ hwq)
    have hwl : w ∉ l := (List.nodup_cons.mp (hl ▸ hQ.nodup)).1
    have hpark := (hQ.out_of_queued (by rw [hx]; rfl) hwu hwq).1
    rw [hbq, hwakes, hpc, List.map_append, List.map_append, List.count_append, List.count_append]
    by_cases hvu : v = u
    · -- The waker: its `V` has taken effect.
      subst hvu
      rw [hpu, hx] at hp hv
      rw [hpu, Function.update_self]
      refine ⟨?_, ?_, ha⟩
      · simpa [asking, hwu] using hp
      · simpa [offering, Nat.add_assoc] using hv
    · rw [Function.update_of_ne hvu]
      by_cases hvw : v = w
      · -- The uThread that was first on the queue: its `P` is granted a permit.
        subst hvw
        have hps : s.pc v = .pSuspend := Pc.pSuspend_of_agrees (.inr hpark) (hI.agrees v)
        rw [hps, hpark, decide_eq_true hwq] at hp
        rw [hps, hpark] at hv ⊢
        refine ⟨?_, ?_, ha⟩
        · simpa [asking, hwl, Nat.add_assoc] using hp
        · simpa [offering, Ne.symm hvu] using hv
      · have hmem : v ∈ l ↔ v ∈ s.queue.bq := by
          rw [hl, List.mem_cons]
          exact (or_iff_right hvw).symm
        rw [decide_eq_decide.mpr hmem]
        refine ⟨?_, ?_, ha⟩
        · simpa [Ne.symm hvw] using hp
        · simpa [Ne.symm hvu] using hv

omit [DecidableEq K] in
/-- Only `u` moves, with its calls and permits. -/
theorem Tallied.move (h : ∀ v, Tallied s v) {y : Pc} {x : BlockingQueue.Pc U}
    (hpc : s'.pc = Function.update s.pc u y) (hqpc : s'.queue.pc = Function.update s.queue.pc u x)
    (hbq : s'.queue.bq = s.queue.bq) (hwakes : s'.queue.wakes = s.queue.wakes)
    (hp : ∀ v, v ≠ u → s'.pCalls v = s.pCalls v) (hv : ∀ v, v ≠ u → s'.vCalls v = s.vCalls v)
    (ht : ∀ v, v ≠ u → s'.takes.count v = s.takes.count v)
    (ha : ∀ v, v ≠ u → s'.adds.count v = s.adds.count v)
    (hacq : ∀ v, v ≠ u → s'.queue.acquires v = s.queue.acquires v)
    (hu : Tally (s'.pCalls u) (s'.vCalls u) (s'.queue.acquires u) (s'.takes.count u)
      (s'.adds.count u)
      ((s.queue.wakes.map Prod.snd).count u) ((s.queue.wakes.map Prod.fst).count u)
      (decide (u ∈ s.queue.bq)) y x) (v : U) : Tallied s' v := by
  unfold Tallied
  rw [hpc, hqpc, hbq, hwakes]
  by_cases hvu : v = u
  · rw [hvu, Function.update_self, Function.update_self]
    exact hu
  · rw [Function.update_of_ne hvu, Function.update_of_ne hvu, hp v hvu, hv v hvu,
      ht v hvu, ha v hvu, hacq v hvu]
    exact h v

omit [DecidableEq K] in
/-- `u` makes a step that neither starts a call nor gives or takes a permit. -/
theorem Tallied.goto (h : ∀ v, Tallied s v) {y : Pc} {x : BlockingQueue.Pc U}
    {q : BlockingQueue.State K U} (hqpc : q.pc = Function.update s.queue.pc u x)
    (hbq : q.bq = s.queue.bq) (hwakes : q.wakes = s.queue.wakes)
    (hacq : q.acquires = s.queue.acquires) (hask : asking (decide (u ∈ s.queue.bq)) y x =
      asking (decide (u ∈ s.queue.bq)) (s.pc u) (s.queue.pc u))
    (hoff : offering y x = offering (s.pc u) (s.queue.pc u)) :
    ∀ v, Tallied ({ s with queue := q }.goto u y) v := by
  obtain ⟨hp, hv, ha⟩ := h u
  refine Tallied.move (u := u) (y := y) (x := x) h rfl hqpc hbq hwakes (fun _ _ => rfl)
    (fun _ _ => rfl) (fun _ _ => rfl) (fun _ _ => rfl) (fun v _ => congrFun hacq v) ⟨?_, ?_, ?_⟩
  · rw [hask]
    exact hp
  · rw [hoff]
    exact hv
  · show s.pCalls u + s.vCalls u = q.acquires u
    rw [hacq]
    exact ha

theorem tallied_step (hI : Inv c s) (h : ∀ u, Tallied s u) {a : Action K U}
    (hs : step s a = some s') : ∀ v, Tallied s' v := by
  have hQ := BlockingQueue.inv_reachable hI.queue
  cases step_cases hs with
  | @p k u q hu hq =>
    obtain ⟨hp, hv, ha⟩ := h u
    rw [hu] at hp hv
    cases BlockingQueue.step_cases hQ hq
    refine Tallied.move (u := u) (y := .pAcquire) (x := .acquiring) h rfl rfl rfl rfl
      (fun v hv => Function.update_of_ne hv ..) (fun _ _ => rfl) (fun _ _ => rfl) (fun _ _ => rfl)
      (fun v hv => Function.update_of_ne hv ..) ⟨?_, hv, ?_⟩
    · show Function.update s.pCalls u (s.pCalls u + 1) u = _
      rw [Function.update_self, hp]
      rfl
    · show Function.update s.pCalls u (s.pCalls u + 1) u + s.vCalls u =
        Function.update s.queue.acquires u (s.queue.acquires u + 1) u
      rw [Function.update_self, Function.update_self]
      omega
  | @v k u q hu hq =>
    obtain ⟨hp, hv, ha⟩ := h u
    rw [hu] at hp hv
    cases BlockingQueue.step_cases hQ hq
    refine Tallied.move (u := u) (y := .vAcquire) (x := .acquiring) h rfl rfl rfl rfl
      (fun _ _ => rfl) (fun v hv => Function.update_of_ne hv ..) (fun _ _ => rfl) (fun _ _ => rfl)
      (fun v hv => Function.update_of_ne hv ..) ⟨hp, ?_, ?_⟩
    · show Function.update s.vCalls u (s.vCalls u + 1) u = _
      rw [Function.update_self, hv]
      rfl
    · show s.pCalls u + Function.update s.vCalls u (s.vCalls u + 1) u =
        Function.update s.queue.acquires u (s.queue.acquires u + 1) u
      rw [Function.update_self, Function.update_self]
      omega
  | @acquired u hu hin | @nobody u hu hin =>
    refine Tallied.goto h (Function.update_eq_self ..).symm rfl rfl rfl ?_ ?_
    · rw [hu, hin]
      rfl
    · rw [hu, hin]
      rfl
  | @permit u hu hc =>
    refine Tallied.goto h (Function.update_eq_self ..).symm rfl rfl rfl ?_ ?_
    · rw [hu]
      rfl
    · rw [hu]
      rfl
  | @suspend u q hu hc hq =>
    cases BlockingQueue.step_cases hQ hq with
    | suspend hin =>
      refine Tallied.goto h rfl rfl rfl rfl ?_ ?_
      · rw [hu, hin]
        rfl
      · rw [hu, hin]
        rfl
  | @signal u q hu hq =>
    cases BlockingQueue.step_cases hQ hq with
    | signal hin =>
      refine Tallied.goto h rfl rfl rfl rfl ?_ ?_
      · rw [hu, hin]
        rfl
      · rw [hu, hin]
        rfl
  | @take u q hu hq =>
    obtain ⟨hp, hv, ha⟩ := h u
    have hin := Pc.inside_of_agrees (.inr hu) (hI.agrees u)
    rw [hu, hin] at hp hv
    cases BlockingQueue.step_cases hQ hq
    refine Tallied.move (u := u) (y := .pRelease) (x := .release) h rfl rfl rfl rfl (fun _ _ => rfl)
      (fun _ _ => rfl) (fun v hv => ?_) (fun _ _ => rfl) (fun _ _ => rfl) ⟨?_, hv, ha⟩
    · show (s.takes ++ [u]).count v = s.takes.count v
      rw [List.count_append, List.count_singleton]
      simp [Ne.symm hv]
    · show s.pCalls u = (s.takes ++ [u]).count u + _ + 0
      rw [List.count_append, List.count_singleton_self, hp]
      show _ + _ + 1 = _
      omega
  | @add u q hu hq =>
    obtain ⟨hp, hv, ha⟩ := h u
    have hag := hI.agrees u
    rw [hu] at hag
    rw [hu, Pc.sigFalse_of_agrees hag] at hp hv
    cases BlockingQueue.step_cases hQ hq
    refine Tallied.move (u := u) (y := .vRelease) (x := .release) h rfl rfl rfl rfl (fun _ _ => rfl)
      (fun _ _ => rfl) (fun _ _ => rfl) (fun v hv => ?_) (fun _ _ => rfl) ⟨hp, ?_, ha⟩
    · show (s.adds ++ [u]).count v = s.adds.count v
      rw [List.count_append, List.count_singleton]
      simp [Ne.symm hv]
    · show s.vCalls u = (s.adds ++ [u]).count u + _ + 0
      rw [List.count_append, List.count_singleton_self, hv]
      show _ + _ + 1 = _
      omega
  | @done u hu hout =>
    refine Tallied.goto h (Function.update_eq_self ..).symm rfl rfl rfl ?_ ?_
    · rw [hout, decide_eq_false (hQ.not_mem hout rfl)]
      rcases hu with hu | hu | hu | hu <;> rw [hu] <;> rfl
    · rw [hout]
      rcases hu with hu | hu | hu | hu <;> rw [hu] <;> rfl
  | queue ha hq =>
    obtain ⟨hint, hacq⟩ := BlockingQueue.internal_cases ha (BlockingQueue.step_cases hQ hq)
    exact tallied_queue hI h hint hacq

theorem tallied_reachable (h : (machine K U c).Reachable s) (u : U) : Tallied s u := by
  have hT : Inv c s ∧ ∀ u, Tallied s u := by
    refine Machine.Reachable.invariant (I := fun s => Inv c s ∧ ∀ u, Tallied s u) ?_ ?_ h
    · rintro s rfl
      exact ⟨inv_reachable (.of_init rfl), fun _ => ⟨rfl, rfl, rfl⟩⟩
    · intro s a s' hT hs
      exact ⟨inv_step hT.1 hs, tallied_step hT.1 hT.2 hs⟩
  exact hT.2 u

/-- Permits are conserved, up to overflows of the counter. -/
structure Conserved (c : BitVec 64) (s : State K U) : Prop where
  permits : s.counter.toNat + s.granted + 2 ^ 64 * s.overflows = c.toNat + s.effective
  fits : c.toNat + s.effective < s.granted + 2 ^ 64 →
    s.counter.toNat + s.granted = c.toNat + s.effective
  empty : s.counter ≠ 0 → s.queue.bq = []
  /-- The uThreads are woken in the order in which they parked. -/
  fifo : s.queue.parks = s.queue.wakes.map Prod.snd ++ s.queue.bq
  /-- Each call of `P` takes a permit or is woken with one. -/
  p : ∀ u, s.pCalls u = s.takes.count u + (s.queue.wakes.map Prod.snd).count u +
    (asking (decide (u ∈ s.queue.bq)) (s.pc u) (s.queue.pc u)).toNat
  /-- Each call of `V` adds a permit or wakes one uThread. -/
  v : ∀ u, s.vCalls u = s.adds.count u + (s.queue.wakes.map Prod.fst).count u +
    (offering (s.pc u) (s.queue.pc u)).toNat
  /-- Each suspended uThread is resumed once. -/
  resumed : ∀ u, s.queue.suspensions u = s.queue.resumes u + (s.queue.pc u).suspended.toNat
  /-- Each call releases the mutex once, -/
  released : ∀ u, s.pCalls u + s.vCalls u = s.queue.releases u + (s.queue.pc u).due.toNat
  /-- as its owner. -/
  owner : ∀ u y, (s.queue.pc u).Releases y → s.queue.mutex.owner = some u
  positive : ∀ u, s.pc u = .pTake → s.counter ≠ 0

/-- **Permits are conserved**: in every reachable state, the permits on the counter and those
granted are the initial ones and those of the calls of `V`, but for those that overflows have
lost. -/
theorem permits_conserved (h : (machine K U c).Reachable s) : Conserved c s := by
  have hI := inv_reachable h
  have hT := tallied_reachable h
  have hQ := BlockingQueue.inv_reachable hI.queue
  have hH := BlockingQueue.history_reachable hI.queue
  have hpermits : s.counter.toNat + s.granted + 2 ^ 64 * s.overflows = c.toNat + s.effective := by
    have hcount := hI.count
    unfold State.granted State.effective
    omega
  refine ⟨hpermits, fun hfits => ?_, hI.empty, hH.logged, fun u => (hT u).p, fun u => (hT u).v,
    hH.resumed, fun u => ?_, fun u y hr => ?_, hI.positive⟩
  · have hzero : s.overflows = 0 := by
      by_contra hne
      have hle := Nat.le_mul_of_pos_right (2 ^ 64) (Nat.pos_of_ne_zero hne)
      omega
    rw [hzero] at hpermits
    exact hpermits
  · rw [(hT u).acquires]
    exact hH.released u
  · refine hQ.owner ?_
    generalize s.queue.pc u = x at hr
    cases hr <;> rfl

/-- `P` suspends, and `V` wakes it. -/
def pThenV : List (Action ℕ ℕ) :=
  List.flatten [[.p 0 0], List.replicate 4 (.queue (.mutex 0)), [.queue (.run 0 0), .run 0, .run 0],
    List.replicate 3 (.queue (.run 0 0)), List.replicate 4 (.queue (.mutex 0)),
    [.v 0 1], List.replicate 4 (.queue (.mutex 0)), [.queue (.run 0 1), .run 1],
    List.replicate 4 (.queue (.run 0 1)), List.replicate 4 (.queue (.mutex 0)),
    List.replicate 2 (.queue (.run 0 1)), [.run 1, .queue (.dispatch 0), .run 0]]

theorem permits_conserved_pThenV :
    ∃ s : State ℕ ℕ, (machine ℕ ℕ 0).Reachable s ∧ s.pc 0 = .idle ∧ s.pc 1 = .idle ∧
      s.granted = 1 ∧ s.effective = 1 ∧ Conserved 0 s := by
  have hinit : (machine ℕ ℕ 0).Reachable (initial 0) := .of_init rfl
  have hr := hinit.get pThenV (by decide +kernel)
  exact ⟨_, hr, by decide +kernel, by decide +kernel, by decide +kernel, by decide +kernel,
    permits_conserved hr⟩

end Steps

end UThreads.Semaphore
