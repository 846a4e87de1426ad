import UThreads.Io.Poll
import UThreads.Lib.EraseDups
import UThreads.Lib.Family

/-!
# `IOHandler::poll`: one poll delivers its whole batch

The proof goes through an abstract batch, which is the slots and the list of the uThreads woken so
far: `Batch.select` is what one selection does to it, and `Batch.selectAll_slot` and
`Batch.selectAll_woken` say what a whole batch comes to. **`Sim`** ties a state of the loop to the
batch: the bulk queue of each kThread holds the woken uThreads that are at home there. **`Flushed`**
follows `bulkPush` through the kThreads.

Main result: `poll_delivers`.
-/

namespace UThreads.Poll

open IOHandler (Dir Slot)

/-! ## The abstract batch -/

section Batch

variable {D U : Type*} [DecidableEq D]

structure Batch (D U : Type*) where
  slot : D × Dir → Slot U
  woken : List U

theorem after_one_after (x : Slot U) (n : ℕ) : (x.after 1).after n = x.after (n + 1) := by
  cases n <;> cases x <;> simp [IOHandler.Slot.after]

theorem after_one_ut? (x : Slot U) : (x.after 1).ut? = none := by
  cases x <;> rfl

namespace Batch

/-- The slot `x` is selected; a PollData with `closing` set is left alone. -/
def select (closing : D → Bool) (b : Batch D U) (x : D × Dir) : Batch D U :=
  if closing x.1 then b
  else ⟨Function.update b.slot x ((b.slot x).after 1), b.woken ++ (b.slot x).ut?.toList⟩

def selectAll (closing : D → Bool) (b : Batch D U) (xs : List (D × Dir)) : Batch D U :=
  xs.foldl (select closing) b

variable {closing : D → Bool} {b : Batch D U}

theorem selectAll_slot (xs : List (D × Dir)) (x : D × Dir) :
    (b.selectAll closing xs).slot x =
      if closing x.1 then b.slot x else (b.slot x).after (xs.count x) := by
  induction xs generalizing b with
  | nil => simp [selectAll, IOHandler.Slot.after]
  | cons y xs ih =>
    rw [selectAll, List.foldl_cons, ← selectAll, ih]
    by_cases hy : closing y.1 = true
    · by_cases hyx : y = x
      · simp [select, ← hyx, hy]
      · simp [select, hy, hyx]
    · by_cases hyx : y = x
      · subst hyx
        simp [select, hy, after_one_after]
      · simp [select, hy, hyx, Function.update_of_ne (Ne.symm hyx)]

theorem selectAll_woken (xs : List (D × Dir)) :
    (b.selectAll closing xs).woken = b.woken ++
      xs.eraseDups.filterMap fun x => if closing x.1 then none else (b.slot x).ut? := by
  induction xs generalizing b with
  | nil => simp [selectAll]
  | cons y xs ih =>
    rw [selectAll, List.foldl_cons, ← selectAll, ih, filterMap_eraseDups_cons, ← List.append_assoc]
    -- what has been selected wakes nobody any more
    have hseen : (fun x => if closing x.1 then none else ((b.select closing y).slot x).ut?) =
        Function.update (fun x => if closing x.1 then none else (b.slot x).ut?) y none := by
      funext x
      by_cases hy : closing y.1 = true
      · by_cases hxy : x = y
        · simp [hxy, hy]
        · simp [select, hy, hxy]
      · by_cases hxy : x = y
        · simp [select, hy, hxy, after_one_ut?]
        · simp [select, hy, hxy]
    rw [hseen]
    by_cases hy : closing y.1 = true <;> simp [select, hy]

end Batch

end Batch

/-! ## The events -/

section Loop

variable {D U K C : Type*} [DecidableEq D] [DecidableEq U] [DecidableEq K]

/-- The queues of a kThread. -/
inductive Queue (K : Type*)
  | run (k : K)
  | bulk (k : K)
  deriving DecidableEq

/-- The queues over the links `next`: queue `i` has the nodes `l`. -/
def State.rep (s : State D U K C) : Queue K → (U → Option U) → List U → Prop
  | .run k, next, l => MPSCQueue.Holds (s.stub k) next (s.runQueue k) l
  | .bulk k, next, l => IntrusiveQueue.Holds next (s.bulkQueue k) l

omit [DecidableEq D] [DecidableEq U] [DecidableEq K] in
theorem framed_rep (s : State D U K C) (i : Queue K) : Framed (s.rep i) := by
  intro m m' l h hc
  cases i with
  | run k => exact MPSCQueue.Holds.congr h hc
  | bulk k => exact IntrusiveQueue.Holds.congr h hc

/-- The batch before the first event. -/
def State.batch (s : State D U K C) : Batch D U := ⟨fun x => (s.pd x.1).slot x.2, []⟩

/-- What no step of the loop changes. -/
structure Same (s₀ s : State D U K C) : Prop where
  closing : ∀ d, (s.pd d).closing = (s₀.pd d).closing
  homekThread : s.homekThread = s₀.homekThread
  clusterList : s.clusterList = s₀.clusterList
  ktVector : s.ktVector = s₀.ktVector
  stub : s.stub = s₀.stub

/-- The nodes of the queues when `woken` have been woken and `nodes k` are those of run queue
`k`. -/
def contents (home : U → K) (nodes : K → List U) (woken : List U) : Queue K → List U
  | .run k => nodes k
  | .bulk k => woken.filter fun u => home u = k

/-- A parked uThread is on no queue, and in no other slot. -/
structure Parked (slot : D × Dir → Slot U) (lists : Queue K → List U) : Prop where
  free : ∀ x u, slot x = .parked u → ∀ i, u ∉ lists i
  one : ∀ x y u, slot x = .parked u → slot y = .parked u → x = y

/-- The state of the loop of `_Poll` at batch `b`. -/
structure Sim (s₀ : State D U K C) (nodes : K → List U) (s : State D U K C) (b : Batch D U) :
    Prop where
  same : Same s₀ s
  slot : ∀ x, (s.pd x.1).slot x.2 = b.slot x
  parked : Parked b.slot (contents s₀.homekThread nodes b.woken)
  family : Family s.rep none s.next (contents s₀.homekThread nodes b.woken)
  counter : ∀ k, s.bulkCounter k = (b.woken.filter fun u => s₀.homekThread u = k).length
  unblockCounter : s.unblockCounter = b.woken.length

variable {s₀ s s' : State D U K C} {nodes : K → List U} {b : Batch D U} {lists : Queue K → List U}
  {d : D} {utp : Dir}

omit [DecidableEq U] in
theorem contents_push (home : U → K) (nodes : K → List U) (woken : List U) (u : U) :
    contents home nodes (woken ++ [u]) = Function.update (contents home nodes woken)
      (.bulk (home u)) (contents home nodes woken (.bulk (home u)) ++ [u]) := by
  funext i
  cases i with
  | run k => simp [contents]
  | bulk k =>
    by_cases hk : k = home u
    · simp [contents, hk]
    · simp [contents, hk, Ne.symm hk]

omit [DecidableEq U] [DecidableEq K] in
theorem setSlot_slot (s : State D U K C) (d : D) (utp : Dir) (v : Slot U) (x : D × Dir) :
    ((s.setSlot d utp v).pd x.1).slot x.2 =
      Function.update (fun x : D × Dir => (s.pd x.1).slot x.2) (d, utp) v x := by
  obtain ⟨e, dir⟩ := x
  by_cases he : e = d
  · by_cases hdir : dir = utp <;> simp [State.setSlot, he, hdir]
  · simp [State.setSlot, he]

omit [DecidableEq U] [DecidableEq K] in
theorem setSlot_closing (s : State D U K C) (d : D) (utp : Dir) (v : Slot U) (e : D) :
    ((s.setSlot d utp v).pd e).closing = (s.pd e).closing := by
  by_cases he : e = d <;> simp [State.setSlot, he]

omit [DecidableEq U] [DecidableEq K] in
theorem Parked.update (h : Parked b.slot lists) {x : D × Dir} {v : Slot U} (hv : v.ut? = none) :
    Parked (Function.update b.slot x v) lists := by
  have hold : ∀ y u, Function.update b.slot x v y = .parked u → b.slot y = .parked u := by
    intro y u hy
    by_cases hyx : y = x
    · rw [hyx, Function.update_self] at hy
      simp [hy, IOHandler.Slot.ut?] at hv
    · rwa [Function.update_of_ne hyx] at hy
  exact ⟨fun y u hy => h.free y u (hold y u hy),
    fun y z u hy hz => h.one y z u (hold y u hy) (hold z u hz)⟩

omit [DecidableEq U] in
/-- A slot is emptied or becomes READY, and nobody is woken. -/
theorem Sim.setSlot (h : Sim s₀ nodes s b) {v : Slot U} (hv : v.ut? = none) :
    Sim s₀ nodes (s.setSlot d utp v) ⟨Function.update b.slot (d, utp) v, b.woken⟩ where
  same := { h.same with closing := fun e => (setSlot_closing s d utp v e).trans (h.same.closing e) }
  slot := fun x => by
    rw [setSlot_slot]
    by_cases hx : x = (d, utp)
    · simp [hx]
    · simp [hx, h.slot x]
  parked := h.parked.update hv
  family := h.family
  counter := h.counter
  unblockCounter := h.unblockCounter

omit [DecidableEq D] in
/-- The uThread `u`, which is in no slot any more, goes to the bulk queue of its home kThread. -/
theorem Sim.prepareBulkPush (h : Sim s₀ nodes s b) {u : U}
    (hu : ∀ i, u ∉ contents s₀.homekThread nodes b.woken i) (hout : ∀ x, b.slot x ≠ .parked u) :
    ∃ s', prepareBulkPush u s = some s' ∧
      Sim s₀ nodes { s' with unblockCounter := s'.unblockCounter + 1 }
        ⟨b.slot, b.woken ++ [u]⟩ := by
  have hhome := h.same.homekThread
  obtain ⟨next', q', hpush, hq, hframe⟩ := IntrusiveQueue.push_spec
    (h.family.holds (.bulk (s₀.homekThread u))) (hu _) (h.family.blank u hu)
  have hq' : (s.bulkQueue (s.homekThread u)).push s.next u = some (next', q') := by
    rw [hhome]
    exact hpush
  refine ⟨{ s with
      next := next'
      bulkQueue := Function.update s.bulkQueue (s.homekThread u) q'
      bulkCounter := Function.update s.bulkCounter (s.homekThread u)
        (s.bulkCounter (s.homekThread u) + 1) },
    by simp only [Poll.prepareBulkPush, hq', Option.map_some], { h.same with }, h.slot,
    ⟨fun x v hx i hv => ?_, h.parked.one⟩, ?_, fun k => ?_, ?_⟩
  · have hne : v ≠ u := fun he => hout x (he ▸ hx)
    rw [contents_push] at hv
    by_cases hi : i = .bulk (s₀.homekThread u)
    · subst hi
      rw [Function.update_self, List.mem_append, List.mem_singleton] at hv
      exact h.parked.free x v hx _ (hv.resolve_right hne)
    · rw [Function.update_of_ne hi] at hv
      exact h.parked.free x v hx i hv
  · rw [contents_push]
    refine h.family.change ?_ (framed_rep _ _) (fun j hj => ?_) (fun x hx => ?_)
      (fun x hx hnot => ?_)
      fun x hx _ => hframe x hx
    · simpa [State.rep, hhome] using hq
    · cases j with
      | run j => rfl
      | bulk j =>
        have hj : j ≠ s₀.homekThread u := fun he => hj (he ▸ rfl)
        funext m l
        simp [State.rep, hhome, hj]
    · rw [List.mem_append, List.mem_singleton] at hx
      rcases hx with hx | rfl
      · exact .inl hx
      · exact .inr hu
    · exact absurd (List.mem_append_left _ hx) hnot
  · by_cases hk : k = s₀.homekThread u
    · simp [hhome, hk, h.counter]
    · simp [hhome, hk, Ne.symm hk, h.counter]
  · simp [h.unblockCounter]

/-- One `unblock`, and the counter. -/
theorem Sim.unblock (h : Sim s₀ nodes s b) (d : D) (utp : Dir) :
    ∃ r s', unblock d utp s = some (r, s') ∧
      Sim s₀ nodes (if r then { s' with unblockCounter := s'.unblockCounter + 1 } else s')
        (b.select (fun d => (s₀.pd d).closing) (d, utp)) := by
  by_cases hclosing : (s.pd d).closing = true
  · refine ⟨false, s, by simp [Poll.unblock, hclosing], ?_⟩
    rw [h.same.closing] at hclosing
    simpa [Batch.select, hclosing] using h
  · have hclosing₀ : (s₀.pd d).closing = false := by
      rw [← h.same.closing]
      simpa using hclosing
    have hslot : (s.pd d).slot utp = b.slot (d, utp) := h.slot (d, utp)
    cases hv : b.slot (d, utp) with
    | ready =>
      refine ⟨false, s, by simp [Poll.unblock, hclosing, hslot, hv], ?_⟩
      have hsame : Function.update b.slot (d, utp) .ready = b.slot := by
        rw [← hv, Function.update_eq_self]
      simpa [Batch.select, hclosing₀, hv, IOHandler.Slot.after, IOHandler.Slot.ut?, hsame] using h
    | null | wait =>
      refine ⟨false, s.setSlot d utp .ready, by simp [Poll.unblock, hclosing, hslot, hv], ?_⟩
      simpa [Batch.select, hclosing₀, hv, IOHandler.Slot.after, IOHandler.Slot.ut?]
        using h.setSlot (v := .ready) rfl
    | parked u =>
      have hout : ∀ x, Function.update b.slot (d, utp) .null x ≠ .parked u := by
        intro x hx
        by_cases hxd : x = (d, utp)
        · simp [hxd] at hx
        · rw [Function.update_of_ne hxd] at hx
          exact hxd (h.parked.one x (d, utp) u hx hv)
      have hnull : Sim s₀ nodes (s.setSlot d utp .null)
        ⟨Function.update b.slot (d, utp) .null, b.woken⟩ := h.setSlot rfl
      obtain ⟨s', hs', hsim⟩ := hnull.prepareBulkPush (h.parked.free _ u hv) hout
      refine ⟨true, s', by simp [Poll.unblock, hclosing, hslot, hv, hs'], ?_⟩
      simpa [Batch.select, hclosing₀, hv, IOHandler.Slot.after, IOHandler.Slot.ut?] using hsim

/-- `mode` has the bits of the slots that the event selects. -/
theorem mode_read (events : BitVec 32) : mode events &&& utIORead ≠ 0 ↔
    events &&& readMask ≠ 0 := by
  unfold mode
  split_ifs with hr hw hw
  · exact iff_of_true (by decide) hr
  · exact iff_of_true (by decide) hr
  · exact iff_of_false (by decide) hr
  · exact iff_of_false (by decide) hr

theorem mode_write (events : BitVec 32) :
    mode events &&& utIOWrite ≠ 0 ↔ events &&& writeMask ≠ 0 := by
  unfold mode
  split_ifs with hr hw hw
  · exact iff_of_true (by decide) hw
  · exact iff_of_false (by decide) hw
  · exact iff_of_true (by decide) hw
  · exact iff_of_false (by decide) hw

theorem Sim.unblockIf (h : Sim s₀ nodes s b) (flag bit : BitVec 32) (d : D) (utp : Dir) :
    ∃ s', unblockIf flag bit d utp s = some s' ∧ Sim s₀ nodes s'
      (if flag &&& bit ≠ 0 then b.select (fun d => (s₀.pd d).closing) (d, utp) else b) := by
  by_cases hflag : flag &&& bit ≠ 0
  · obtain ⟨r, s', hs', hsim⟩ := h.unblock d utp
    refine ⟨_, by rw [Poll.unblockIf, if_pos hflag, hs', Option.map_some], ?_⟩
    rw [if_pos hflag]
    exact hsim
  · exact ⟨s, by rw [Poll.unblockIf, if_neg hflag], by rwa [if_neg hflag]⟩

theorem unblockIf_zero (bit : BitVec 32) (d : D)
    (utp : Dir) (s : State D U K C) : Poll.unblockIf 0 bit d utp s = some s := by
  simp [Poll.unblockIf]

/-- The tests for 0 before `PollReady` save only time. -/
theorem pollEvent_eq (ev : Event D) (s : State D U K C) :
    (if ev.events = 0 then some s
      else if mode ev.events ≠ 0 then pollReady ev.ptr (mode ev.events) s
      else some s) = pollReady ev.ptr (mode ev.events) s := by
  have hzero : pollReady ev.ptr 0 s = some s := by
    rw [pollReady, unblockIf_zero, Option.bind_some, unblockIf_zero]
  by_cases hev : ev.events = 0
  · have hmode : mode ev.events = 0 := by
      rw [hev]
      decide
    rw [if_pos hev, hmode, hzero]
  · rw [if_neg hev]
    by_cases hmode : mode ev.events = 0
    · rw [if_neg (not_not.mpr hmode), hmode, hzero]
    · rw [if_pos hmode]

omit [DecidableEq U] in
/-- What the two tests of `PollReady` select. -/
theorem select_event (closing : D → Bool) (b : Batch D U) (ev : Event D) :
    (if mode ev.events &&& utIOWrite ≠ 0 then
        (if mode ev.events &&& utIORead ≠ 0 then b.select closing (ev.ptr, .read)
          else b).select closing (ev.ptr, .write)
      else if mode ev.events &&& utIORead ≠ 0 then b.select closing (ev.ptr, .read) else b) =
    b.selectAll closing ((selects ev.events).map fun utp => (ev.ptr, utp)) := by
  simp only [mode_read, mode_write, selects]
  split_ifs <;> rfl

/-- **The loop of `_Poll`** does to the state what the selections do to the batch. -/
theorem Sim.pollEvents (h : Sim s₀ nodes s b) (evs : List (Event D)) :
    ∃ s', pollEvents evs s = some s' ∧ Sim s₀ nodes s'
      (b.selectAll (fun d => (s₀.pd d).closing) (selections evs)) := by
  induction evs generalizing s b with
  | nil => exact ⟨s, rfl, h⟩
  | cons ev evs ih =>
    obtain ⟨s₁, hs₁, h₁⟩ := h.unblockIf (mode ev.events) utIORead ev.ptr .read
    obtain ⟨s₂, hs₂, h₂⟩ := h₁.unblockIf (mode ev.events) utIOWrite ev.ptr .write
    rw [select_event] at h₂
    obtain ⟨s₃, hs₃, h₃⟩ := ih h₂
    refine ⟨s₃, ?_, ?_⟩
    · rw [Poll.pollEvents, pollEvent_eq, pollReady, hs₁, Option.bind_some, hs₂,
        Option.bind_some, hs₃]
    · rw [selections, List.flatMap_cons, Batch.selectAll, List.foldl_append]
      exact h₃

end Loop

/-! ## The bulk push -/

section Flush

variable {D U K C : Type*} [DecidableEq D] [DecidableEq U] [DecidableEq K]

/-- The nodes of the queues when `bulkPush` has been at the kThreads `done`. -/
def moved (home : U → K) (nodes : K → List U) (woken : List U) (done : List K) : Queue K → List U
  | .run k => nodes k ++ if k ∈ done then woken.filter fun u => home u = k else []
  | .bulk k => if k ∈ done then [] else woken.filter fun u => home u = k

/-- The state of `bulkPush` after the kThreads `done`. -/
structure Flushed (s₀ : State D U K C) (nodes : K → List U) (b : Batch D U) (done : List K)
    (s : State D U K C) : Prop where
  same : Same s₀ s
  slot : ∀ x, (s.pd x.1).slot x.2 = b.slot x
  family : Family s.rep none s.next (moved s₀.homekThread nodes b.woken done)
  counter : ∀ k, s.bulkCounter k = (moved s₀.homekThread nodes b.woken done (.bulk k)).length
  unblockCounter : s.unblockCounter = b.woken.length

variable {s₀ s s' : State D U K C} {nodes queued : K → List U} {b : Batch D U} {done : List K}

omit [DecidableEq D] [DecidableEq U] in
theorem moved_nil (home : U → K) (nodes : K → List U) (woken : List U) :
    moved home nodes woken [] = contents home nodes woken := by
  funext i
  cases i <;> simp [moved, contents]

omit [DecidableEq U] in
/-- There is nothing on the bulk queue of `k`. -/
theorem moved_cons_of_nil {home : U → K} {woken : List U} {k : K}
    (hk : moved home nodes woken done (.bulk k) = []) :
    moved home nodes woken (k :: done) = moved home nodes woken done := by
  funext i
  cases i with
  | run j =>
    by_cases hj : j = k
    · subst hj
      by_cases hd : j ∈ done
      · simp [moved, hd]
      · simp only [moved, hd, if_false] at hk
        simp [moved, hd, hk]
    · simp [moved, hj]
  | bulk j =>
    by_cases hj : j = k
    · subst hj
      rw [hk]
      simp [moved]
    · simp [moved, hj]

omit [DecidableEq U] in
/-- The bulk queue of `k` goes to the end of its run queue. -/
theorem moved_cons {home : U → K} {woken : List U} {k : K} (hd : k ∉ done) :
    moved home nodes woken (k :: done) =
      Function.update (Function.update (moved home nodes woken done) (.bulk k) []) (.run k)
        (moved home nodes woken done (.run k) ++ moved home nodes woken done (.bulk k)) := by
  funext i
  cases i with
  | run j =>
    by_cases hj : j = k
    · subst hj
      simp [moved, hd]
    · simp [moved, hj]
  | bulk j =>
    by_cases hj : j = k
    · subst hj
      simp [moved]
    · simp [moved, hj]

omit [DecidableEq D] in
/-- `schedule`: the bulk queue of `k`, which holds `l`, goes to the end of its run queue. -/
theorem schedule_spec {lists : Queue K → List U} (h : Family s.rep none s.next lists) {k : K}
    (hl : lists (.bulk k) ≠ []) :
    ∃ next runQueue sem,
      schedule k s = some { s with
        next := next
        bulkQueue := Function.update s.bulkQueue k .new
        runQueue := Function.update s.runQueue k runQueue
        sem := sem } ∧
      MPSCQueue.Holds (s.stub k) next runQueue (lists (.run k) ++ lists (.bulk k)) ∧
      ∀ x, x ∉ lists (.run k) → x ∉ lists (.bulk k) → next x = s.next x := by
  have hbulk : IntrusiveQueue.Holds s.next (s.bulkQueue k) (lists (.bulk k)) := h.holds (.bulk k)
  have hrun : MPSCQueue.Holds (s.stub k) s.next (s.runQueue k) (lists (.run k)) := h.holds (.run k)
  have hdisj : (lists (.run k)).Disjoint (lists (.bulk k)) := h.disjoint (by simp)
  obtain ⟨first, last, next₁, hfirst, hremove, hchain, hlast, hframe₁⟩ :=
    IntrusiveQueue.removeAll_spec hbulk hl
  obtain ⟨hholds, hframe⟩ :=
    MPSCQueue.insert_spec (hrun.congr fun x hx => hframe₁ x (hdisj hx)) hchain
    hlast hbulk.nodup hdisj
  refine ⟨((s.runQueue k).insert next₁ first last).2.1,
    ((s.runQueue k).insert next₁ first last).2.2,
    if ((s.runQueue k).insert next₁ first last).1 then Function.update s.sem k (s.sem k + 1)
    else s.sem,
    by simp only [schedule, hfirst, hremove, Option.bind_some, Option.map_some], hholds,
    fun x hx hx' => ?_⟩
  rw [hframe x hx hx', hframe₁ x hx']

omit [DecidableEq D] in
/-- One kThread. -/
theorem Flushed.bulkPushkThread (h : Flushed s₀ nodes b done s) (k : K) :
    ∃ s', bulkPushkThread k s = some s' ∧ Flushed s₀ nodes b (k :: done) s' := by
  by_cases hlist : moved s₀.homekThread nodes b.woken done (.bulk k) = []
  · have hcount : s.bulkCounter k = 0 := by simp [h.counter, hlist]
    have hsame := moved_cons_of_nil hlist
    refine ⟨{ s with bulkCounter := Function.update s.bulkCounter k 0 },
      by simp [Poll.bulkPushkThread, hcount], { h.same with }, h.slot, hsame ▸ h.family,
      fun j => ?_, h.unblockCounter⟩
    by_cases hj : j = k
    · simp [hj, hsame, hlist]
    · simp [hj, hsame, h.counter]
  · have hd : k ∉ done := by
      intro hd
      simp [moved, hd] at hlist
    have hcount : 0 < s.bulkCounter k := by
      rw [h.counter]
      exact List.length_pos_iff.mpr hlist
    obtain ⟨next, runQueue, sem, hs, hholds, hframe⟩ := schedule_spec h.family hlist
    refine ⟨{ s with
        next := next
        bulkQueue := Function.update s.bulkQueue k .new
        runQueue := Function.update s.runQueue k runQueue
        sem := sem
        bulkCounter := Function.update s.bulkCounter k 0 },
      by simp [Poll.bulkPushkThread, hcount, hs], { h.same with }, h.slot, ?_, fun j => ?_,
      h.unblockCounter⟩
    · rw [moved_cons hd]
      refine h.family.transfer (by simp) (List.append_nil _).symm (by simp) ?_ ?_
        ⟨framed_rep _ _, framed_rep _ _⟩ (fun j hrun hbulk => ?_) hframe
      · simpa [State.rep] using hholds
      · simpa [State.rep] using IntrusiveQueue.holds_new
      · cases j with
        | run j =>
          have hj : j ≠ k := fun he => hrun (he ▸ rfl)
          funext m l
          simp [State.rep, hj]
        | bulk j =>
          have hj : j ≠ k := fun he => hbulk (he ▸ rfl)
          funext m l
          simp [State.rep, hj]
    · by_cases hj : j = k
      · simp [hj, moved]
      · simp [hj, moved, h.counter]

omit [DecidableEq D] in
/-- The kThreads of one cluster. -/
theorem Flushed.bulkPushCluster (h : Flushed s₀ nodes b done s) (ks : List K) :
    ∃ s', bulkPushCluster ks s = some s' ∧ Flushed s₀ nodes b (ks.reverse ++ done) s' := by
  induction ks generalizing s done with
  | nil => exact ⟨s, rfl, h⟩
  | cons k ks ih =>
    obtain ⟨s₁, hs₁, h₁⟩ := h.bulkPushkThread k
    obtain ⟨s₂, hs₂, h₂⟩ := ih h₁
    refine ⟨s₂, by rw [Poll.bulkPushCluster, hs₁, Option.bind_some, hs₂], ?_⟩
    simpa using h₂

omit [DecidableEq D] in
/-- All kThreads that the clusters name. -/
theorem Flushed.bulkPush (h : Flushed s₀ nodes b done s) (cs : List C) :
    ∃ s' done', bulkPush cs s = some s' ∧ Flushed s₀ nodes b done' s' ∧
      ∀ k, k ∈ done' ↔ k ∈ done ∨ ∃ c ∈ cs, k ∈ s₀.ktVector c := by
  induction cs generalizing s done with
  | nil => exact ⟨s, done, rfl, h, by simp⟩
  | cons c cs ih =>
    obtain ⟨s₁, hs₁, h₁⟩ := h.bulkPushCluster (s.ktVector c)
    obtain ⟨s₂, done', hs₂, h₂, hdone⟩ := ih h₁
    refine ⟨s₂, done', by rw [Poll.bulkPush, hs₁, Option.bind_some, hs₂], h₂, fun k => ?_⟩
    rw [hdone, h.same.ktVector]
    simp only [List.mem_append, List.mem_reverse, List.mem_cons, exists_eq_or_imp]
    tauto

omit [DecidableEq D] in
/-- After the events, `bulkPush` goes to the home kThread of every woken uThread. -/
theorem Sim.flush (h : Sim s₀ nodes s b)
    (hhome : ∀ u ∈ b.woken, ∃ c ∈ s₀.clusterList, s₀.homekThread u ∈ s₀.ktVector c) :
    ∃ s' done, (if 0 < s.unblockCounter then bulkPush s.clusterList s else some s) = some s' ∧
      Flushed s₀ nodes b done s' ∧ ∀ u ∈ b.woken, s₀.homekThread u ∈ done := by
  have h0 : Flushed s₀ nodes b [] s :=
    ⟨h.same, h.slot, (moved_nil s₀.homekThread nodes b.woken) ▸ h.family,
      fun k => by rw [moved_nil, h.counter k]; rfl, h.unblockCounter⟩
  by_cases hpos : 0 < s.unblockCounter
  · obtain ⟨s', done, hs', hflushed, hdone⟩ := h0.bulkPush s.clusterList
    refine ⟨s', done, by rw [if_pos hpos, hs'], hflushed, fun u hu => ?_⟩
    rw [hdone, h.same.clusterList]
    exact .inr (hhome u hu)
  · have hnil : b.woken = [] := by
      rw [h.unblockCounter] at hpos
      simpa using hpos
    exact ⟨s, [], by rw [if_neg hpos], h0, by simp [hnil]⟩

omit [DecidableEq D] [DecidableEq U] in
/-- The end of `bulkPush`, when it has been at the home kThreads of all woken uThreads. -/
theorem Flushed.queues (h : Flushed s₀ nodes b done s)
    (hdone : ∀ u ∈ b.woken, s₀.homekThread u ∈ done) (k : K) :
    MPSCQueue.Holds (s.stub k) s.next (s.runQueue k)
        (nodes k ++ b.woken.filter fun u => s₀.homekThread u = k) ∧
      s.bulkQueue k = .new ∧ s.bulkCounter k = 0 := by
  have hnone : k ∉ done → (b.woken.filter fun u => s₀.homekThread u = k) = [] := by
    intro hk
    rw [List.filter_eq_nil_iff]
    intro u hu hhome
    exact hk (of_decide_eq_true hhome ▸ hdone u hu)
  have hbulk : moved s₀.homekThread nodes b.woken done (.bulk k) = [] := by
    by_cases hk : k ∈ done
    · simp [moved, hk]
    · simp only [moved, hk, if_false, hnone hk]
  have hrun : moved s₀.homekThread nodes b.woken done (.run k) =
      nodes k ++ b.woken.filter fun u => s₀.homekThread u = k := by
    by_cases hk : k ∈ done
    · simp only [moved, hk, if_true]
    · simp only [moved, hk, if_false, hnone hk]
  have hholds : IntrusiveQueue.Holds s.next (s.bulkQueue k) [] := hbulk ▸ h.family.holds (.bulk k)
  exact ⟨hrun ▸ h.family.holds (.run k), hholds.eq_new, by simp [h.counter, hbulk]⟩

/-! ## One poll -/

/-- A state in which `poll` may be called: the bulk queues are empty, run queue `k` has the nodes
`nodes k`, no node is in two run queues, and the parked uThreads are on no queue, in one slot each,
and at home on registered kThreads. -/
structure Ready (s : State D U K C) (nodes : K → List U) : Prop where
  bulk : ∀ k, s.bulkQueue k = .new ∧ s.bulkCounter k = 0
  run : ∀ k, MPSCQueue.Holds (s.stub k) s.next (s.runQueue k) (nodes k)
  one : ∀ u j k, u ∈ nodes j → u ∈ nodes k → j = k
  links : ∀ u, (∀ k, u ∉ nodes k) → s.next u = none
  parked : ∀ d utp u, (s.pd d).slot utp = .parked u → ∀ k, u ∉ nodes k
  slots : ∀ d utp e dir u, (s.pd d).slot utp = .parked u → (s.pd e).slot dir = .parked u →
    d = e ∧ utp = dir
  registered : ∀ d utp u, (s.pd d).slot utp = .parked u →
    ∃ c ∈ s.clusterList, s.homekThread u ∈ s.ktVector c

omit [DecidableEq D] [DecidableEq U] in
theorem Ready.sim (h : Ready s nodes) : Sim s nodes { s with unblockCounter := 0 } s.batch := by
  have hnodes : ∀ {u i}, u ∈ contents s.homekThread nodes [] i → ∃ k, i = .run k ∧ u ∈ nodes k := by
    intro u i hu
    cases i with
    | run k => exact ⟨k, rfl, hu⟩
    | bulk k => simp [contents] at hu
  refine ⟨⟨fun _ => rfl, rfl, rfl, rfl, rfl⟩, fun _ => rfl,
    ⟨fun x u hx i hu => ?_, fun x y u hx hy => ?_⟩,
    ⟨framed_rep _, fun i => ?_, fun u i j hi hj => ?_, fun u hu => ?_⟩, fun k => ?_, rfl⟩
  · obtain ⟨k, -, hk⟩ := hnodes hu
    exact h.parked x.1 x.2 u hx k hk
  · exact Prod.ext_iff.mpr (h.slots x.1 x.2 y.1 y.2 u hx hy)
  · cases i with
    | run k => exact h.run k
    | bulk k =>
      simp only [State.rep, (h.bulk k).1]
      exact IntrusiveQueue.holds_new
  · obtain ⟨i, rfl, hi⟩ := hnodes hi
    obtain ⟨j, rfl, hj⟩ := hnodes hj
    rw [h.one u i j hi hj]
  · exact h.links u fun k => hu (.run k)
  · simpa [State.batch] using (h.bulk k).2

omit [DecidableEq U] [DecidableEq K] in
theorem mem_woken {evs : List (Event D)} {u : U} : u ∈ s.woken evs ↔
    ∃ d utp, (d, utp) ∈ selections evs ∧ (s.pd d).closing = false ∧
    (s.pd d).slot utp = .parked u := by
  have hut : ∀ x : Slot U, x.ut? = some u ↔ x = .parked u := by
    intro x
    cases x <;> simp [IOHandler.Slot.ut?]
  simp only [State.woken, List.mem_filterMap, List.mem_eraseDups, Prod.exists]
  refine exists_congr fun d => exists_congr fun utp => and_congr_right fun _ => ?_
  by_cases hc : (s.pd d).closing = true <;> simp [hc, hut]

omit [DecidableEq U] in
/-- What becomes of a slot that is selected. -/
theorem after_count {x : Slot U} {n : ℕ} (hn : 0 < n) :
    x.after n = match x with
      | .parked _ => if n = 1 then .null else .ready
      | _ => .ready := by
  obtain ⟨n, rfl⟩ := Nat.exists_eq_succ_of_ne_zero hn.ne'
  cases n <;> cases x <;> simp [IOHandler.Slot.after]

/-- **One poll delivers its whole batch.** With `rq k` the elements of the run queue of kThread `k`
afterwards, which are those it had before and then the woken uThreads that are at home there, in the
order of their events: every uThread that was parked in a selected slot is there exactly once, and
its slot is empty, or READY if it was selected again; selected empty slots are READY; the other
slots are unchanged; the bulk queues are empty; and `poll` returns the number of uThreads woken. -/
theorem poll_delivers (h : Ready s nodes) (evs : List (Event D)) :
    ∃ (s' : State D U K C) (rq : K → List U),
      poll (.events evs) s = some (((s.woken evs).length : Int), s') ∧
      (∀ k, rq k = MPSCQueue.elements (s.stub k) (nodes k) ++
        (s.woken evs).filter fun u => s.homekThread u = k) ∧
      (∀ k, ∃ l, MPSCQueue.Holds (s.stub k) s'.next (s'.runQueue k) l ∧
        MPSCQueue.elements (s.stub k) l = rq k) ∧
      (∀ d utp u, (s.pd d).slot utp = .parked u → (s.pd d).closing = false →
        (d, utp) ∈ selections evs → (rq (s.homekThread u)).count u = 1 ∧
          (s'.pd d).slot utp = if (selections evs).count (d, utp) = 1 then .null else .ready) ∧
      (∀ d utp, (s.pd d).slot utp = .null → (s.pd d).closing = false → (d, utp) ∈ selections evs →
        (s'.pd d).slot utp = .ready) ∧
      (∀ d utp, (s.pd d).slot utp = .ready ∨ (s.pd d).closing = true ∨ (d, utp) ∉ selections evs →
        (s'.pd d).slot utp = (s.pd d).slot utp) ∧
      (∀ d, (s'.pd d).closing = (s.pd d).closing) ∧
      ∀ k, s'.bulkQueue k = .new ∧ s'.bulkCounter k = 0 := by
  obtain ⟨s₁, hs₁, h₁⟩ := h.sim.pollEvents evs
  have hwoken : (s.batch.selectAll (fun d => (s.pd d).closing) (selections evs)).woken =
      s.woken evs := by
    rw [Batch.selectAll_woken]
    rfl
  obtain ⟨s₂, done, hs₂, h₂, hdone⟩ := h₁.flush fun u hu => by
    rw [hwoken, mem_woken] at hu
    obtain ⟨d, utp, -, -, hparked⟩ := hu
    exact h.registered d utp u hparked
  have hslot : ∀ d utp, (s₂.pd d).slot utp = if (s.pd d).closing then (s.pd d).slot utp else
      ((s.pd d).slot utp).after ((selections evs).count (d, utp)) :=
    fun d utp => (h₂.slot (d, utp)).trans (Batch.selectAll_slot (selections evs) (d, utp))
  have hqueues := fun k => h₂.queues hdone k
  rw [hwoken, h₂.same.stub] at hqueues
  have helements : ∀ k, MPSCQueue.elements (s.stub k)
      (nodes k ++ (s.woken evs).filter fun u => s.homekThread u = k) =
      MPSCQueue.elements (s.stub k) (nodes k) ++ (s.woken evs).filter fun u =>
      s.homekThread u = k := by
    intro k
    have hstub := (hqueues k).1.nodup
    rw [List.nodup_append'] at hstub
    rw [MPSCQueue.elements_append, MPSCQueue.elements_eq_self (hstub.2.2 (h.run k).mem)]
  refine ⟨s₂, _, ?_, fun _ => rfl, fun k => ⟨_, (hqueues k).1, helements k⟩,
    fun d utp u hu hc hsel => ⟨?_, ?_⟩, fun d utp hnull hc hsel => ?_,
    fun d utp hx => ?_, h₂.same.closing, fun k => (hqueues k).2⟩
  · have hcount : s₂.unblockCounter = (s.woken evs).length := by rw [h₂.unblockCounter, hwoken]
    simp [poll, pollerPoll, hs₁, hs₂, hcount]
  · have hmem : u ∈ s.woken evs := mem_woken.mpr ⟨d, utp, hsel, hc, hu⟩
    have hnodup : (MPSCQueue.elements (s.stub (s.homekThread u)) _).Nodup :=
      (hqueues (s.homekThread u)).1.nodup.filter _
    rw [helements] at hnodup
    exact List.count_eq_one_of_mem hnodup (by simp [hmem])
  · rw [hslot, hu, hc, if_neg (by simp), after_count (List.count_pos_iff.mpr hsel)]
  · rw [hslot, hnull, hc, if_neg (by simp), after_count (List.count_pos_iff.mpr hsel)]
  · rw [hslot]
    rcases hx with hready | hc | hsel
    · rw [hready, ite_eq_left_iff]
      intro _
      cases (selections evs).count (d, utp) <;> simp [IOHandler.Slot.after]
    · rw [if_pos hc]
    · rw [List.count_eq_zero.mpr hsel]
      simp [IOHandler.Slot.after]

end Flush

/-- Two PollData and two kThreads: uThread 5 is on the run queue of the first kThread, uThreads 1, 2
and 3 are parked, and 0 and 4 are the stubs. -/
def threeParked : State Bool (Fin 6) Bool Unit where
  pd
    | false => ⟨fun | .read => .parked 1 | .write => .null, false⟩
    | true => ⟨fun | .read => .parked 2 | .write => .parked 3, false⟩
  homekThread u := u = 2
  next u := if u = 0 then some 5 else none
  bulkQueue _ := .new
  bulkCounter _ := 0
  runQueue
    | false => ⟨0, 5, false⟩
    | true => .new 4
  stub
    | false => 0
    | true => 4
  sem _ := 0
  clusterList := [()]
  ktVector _ := [false, true]
  unblockCounter := 0

def threeParkedNodes : Bool → List (Fin 6)
  | false => [0, 5]
  | true => [4]

theorem ready_threeParked : Ready threeParked threeParkedNodes where
  bulk _ := ⟨rfl, rfl⟩
  run k := by
    cases k with
    | false => exact ⟨⟨⟨rfl, rfl, rfl⟩, rfl, by decide⟩, by decide, by simp [threeParked]⟩
    | true => exact ⟨⟨⟨rfl, rfl⟩, rfl, by decide⟩, by decide, fun _ => rfl⟩
  one := by decide
  links := by decide
  parked d utp u h k := by
    cases d <;> cases utp <;> cases h <;> cases k <;> decide
  slots d utp e dir u h h' := by
    cases d <;> cases utp <;> cases h <;> cases e <;> cases dir <;> cases h' <;> exact ⟨rfl, rfl⟩
  registered d utp u h := by
    cases d <;> cases utp <;> cases h <;> exact ⟨(), by decide, by decide⟩

/-- A hang-up on the first PollData, two events for the second, and the first one again. -/
theorem poll_delivers_three : Ready threeParked threeParkedNodes ∧
    ∃ s' : State Bool (Fin 6) Bool Unit,
      poll (.events [⟨epollHup, false⟩, ⟨epollOut, true⟩, ⟨epollIn, true⟩, ⟨epollIn, false⟩])
        threeParked =
        some (3, s') ∧
      (∃ l, MPSCQueue.Holds 0 s'.next (s'.runQueue false) l ∧ MPSCQueue.elements 0 l = [5, 1, 3]) ∧
      (∃ l, MPSCQueue.Holds 4 s'.next (s'.runQueue true) l ∧ MPSCQueue.elements 4 l = [2]) ∧
      (s'.pd false).slot .read = .ready ∧ (s'.pd false).slot .write = .ready ∧
      (s'.pd true).slot .read = .null ∧ (s'.pd true).slot .write = .null := by
  refine ⟨ready_threeParked, ?_⟩
  obtain ⟨s', rq, hpoll, hrq, hruns, hparked, hempty, -⟩ := poll_delivers ready_threeParked
    [⟨epollHup, false⟩, ⟨epollOut, true⟩, ⟨epollIn, true⟩, ⟨epollIn, false⟩]
  refine ⟨s', hpoll, ?_, ?_, ?_, ?_, ?_, ?_⟩
  · obtain ⟨l, hl, hel⟩ := hruns false
    exact ⟨l, hl, hel.trans ((hrq _).trans (by decide))⟩
  · obtain ⟨l, hl, hel⟩ := hruns true
    exact ⟨l, hl, hel.trans ((hrq _).trans (by decide))⟩
  · exact (hparked false .read 1 rfl rfl (by decide)).2
  · exact hempty false .write rfl rfl (by decide)
  · exact (hparked true .read 2 rfl rfl (by decide)).2
  · exact (hparked true .write 3 rfl rfl (by decide)).2

end UThreads.Poll
