import UThreads.Lib.Machine
import UThreads.Runtime.AssignKThread
import UThreads.Schedulers.Scheduler01
import Mathlib.Data.BitVec

/-!
# The registries of clusters and kThreads

A cluster lists its kThreads in `ktVector` and counts them in `numberOfkThreads`; `clusterList`
lists the clusters. The constructors fill these, and the destructors of `kThread` and `Cluster` only
take the kThread off the counter.

**Constructors.** `kThread(cluster)` starts its thread, which may pull work at once, and only then
calls `addNewkThread`; that is two steps under the mutex of the cluster.
`kThread(cluster, func, args)` is not registered; it is private, and its only caller is `IOHandler`.
A destroyed object's address may be used again.

**Readers.** `assignkThread` takes no lock. `bulkPush` goes through `clusterList` and every
`ktVector`. `__removeMany` is called by a kThread of the cluster while the queue is not empty, and
divides by `numberOfkThreads`.

**Bookkeeping.** `used` says that `assignkThread` has given out a kThread of the cluster. Only then
are there uThreads that are pushed to its queue.

With destructors the registries go stale (`destructors_leave_stale_entries`); without them they name
live objects only (`registries_live`).
-/

namespace UThreads.Registry

inductive KPos
  | absent
  /-- `run()` has been started, and the constructor has still to call `addNewkThread` -/
  | starting
  /-- in `addNewkThread`, after `emplace_back` -/
  | adding
  | built
  /-- constructed to run a function -/
  | func
  deriving DecidableEq

structure KThread (C : Type*) where
  pos : KPos
  localCluster : Option C
  deriving DecidableEq

structure Cluster (K : Type*) where
  alive : Bool
  ktVector : List K
  numberOfkThreads : BitVec 32
  ktLast : ℕ
  /-- the kThread that is being added under `mtx` -/
  mtx : Option K
  bulkCounter : ℕ
  /-- of the scheduler of the cluster -/
  size : BitVec 32
  lastPopNum : ℕ
  used : Bool
  deriving DecidableEq

structure State (K C : Type*) where
  kt : K → KThread C
  cluster : C → Cluster K
  clusterList : List C

variable {K C : Type*} [DecidableEq K] [DecidableEq C]

def State.setKT (s : State K C) (k : K) (x : KThread C) : State K C :=
  { s with kt := Function.update s.kt k x }

def State.setCluster (s : State K C) (c : C) (x : Cluster K) : State K C :=
  { s with cluster := Function.update s.cluster c x }

/-! ## Constructors and destructors -/

/-- The members of a new cluster. -/
def emptyCluster (alive : Bool) : Cluster K where
  alive := alive
  ktVector := []
  numberOfkThreads := 0
  ktLast := 0
  mtx := none
  bulkCounter := 0
  size := 0
  lastPopNum := 0
  used := false

/-- `Cluster()` -/
def newCluster (c : C) (s : State K C) : Option (State K C) :=
  if (s.cluster c).alive then none
  else some { s.setCluster c (emptyCluster true) with clusterList := s.clusterList ++ [c] }

/-- `~Cluster()` -/
def destroyCluster (c : C) (s : State K C) : Option (State K C) :=
  if (s.cluster c).alive then some (s.setCluster c { s.cluster c with alive := false }) else none

/-- `kThread(cluster)` and `kThread(cluster, func, args)`, up to `threadSelf.detach()` -/
def newkThread (k : K) (c : C) (pos : KPos) (s : State K C) : Option (State K C) :=
  if (s.kt k).pos = .absent ∧ (s.cluster c).alive = true then some (s.setKT k ⟨pos, some c⟩)
  else none

/-- `ktVector.emplace_back(&kt)` in `addNewkThread`, with the mutex -/
def emplaceBack (k : K) (s : State K C) : Option (State K C) :=
  match s.kt k with
  | ⟨.starting, some c⟩ =>
    if (s.cluster c).mtx = none then
      some ((s.setKT k ⟨.adding, some c⟩).setCluster c
        { s.cluster c with ktVector := (s.cluster c).ktVector ++ [k], mtx := some k })
    else none
  | _ => none

/-- `numberOfkThreads++` in `addNewkThread`, and the end of the constructor -/
def count (k : K) (s : State K C) : Option (State K C) :=
  match s.kt k with
  | ⟨.adding, some c⟩ =>
    some ((s.setKT k ⟨.built, some c⟩).setCluster c
      { s.cluster c with numberOfkThreads := (s.cluster c).numberOfkThreads + 1, mtx := none })
  | _ => none

/-- `~kThread()` -/
def destroykThread (k : K) (s : State K C) : Option (State K C) :=
  match s.kt k with
  | ⟨.built, some c⟩ | ⟨.func, some c⟩ =>
    some ((s.setKT k ⟨.absent, none⟩).setCluster c
      { s.cluster c with numberOfkThreads := (s.cluster c).numberOfkThreads - 1 })
  | _ => none

/-! ## Readers -/

/-- `assignkThread()`, in one step: what it returns, and the state after it. -/
def assignkThread (c : C) (next : ℕ) (s : State K C) : Option (K × State K C) :=
  (AssignKThread.assign (s.cluster c).ktVector (s.cluster c).ktLast next).map fun (k, ktLast) =>
    (k, s.setCluster c { s.cluster c with ktLast := ktLast, used := true })

/-- A uThread is pushed to the queue of the cluster. -/
def push (c : C) (s : State K C) : Option (State K C) :=
  if (s.cluster c).used then
    some (s.setCluster c { s.cluster c with size := (s.cluster c).size + 1 })
  else none

/-- `prepareBulkPush(ut)`, with `ut` on cluster `c` -/
def prepareBulkPush (c : C) (s : State K C) : Option (State K C) :=
  if (s.cluster c).used then
    some (s.setCluster c { s.cluster c with bulkCounter := (s.cluster c).bulkCounter + 1 })
  else none

/-- `bulkPush(cluster)` -/
def bulkPushCluster (s : State K C) (c : C) : State K C :=
  if 0 < (s.cluster c).bulkCounter then
    s.setCluster c { s.cluster c with
      size := (s.cluster c).size + BitVec.ofNat 32 (s.cluster c).bulkCounter
      bulkCounter := 0 }
  else s

/-- `bulkPush()` -/
def bulkPush (s : State K C) : State K C := s.clusterList.foldl bulkPushCluster s

/-- The kThread `k` pulls work from the queue of its cluster: it is in `__removeMany`. -/
def State.pulling (s : State K C) (k : K) (c : C) : Prop :=
  (s.kt k).localCluster = some c ∧ (s.kt k).pos ∈ [.starting, .adding, .built] ∧
    (s.cluster c).size ≠ 0

instance (s : State K C) (k : K) (c : C) : Decidable (s.pulling k c) :=
  inferInstanceAs (Decidable (_ ∧ _ ∧ _))

/-- `__removeMany` by kThread `k` of cluster `c`; `none` where it would divide by zero. -/
def removeMany (k : K) (c : C) (s : State K C) : Option (State K C) :=
  if s.pulling k c ∧ (s.cluster c).numberOfkThreads ≠ 0 then
    let n := Scheduler01.Queues.popnum (s.cluster c).size.toNat (s.cluster c).numberOfkThreads.toNat
      (s.cluster c).lastPopNum
    some (s.setCluster c { s.cluster c with
      size := (s.cluster c).size - BitVec.ofNat 32 n
      lastPopNum := n })
  else none

/-! ## The machine -/

inductive Action (K C : Type*)
  | newCluster (c : C)
  | destroyCluster (c : C)
  | newkThread (k : K) (c : C)
  | newkThreadFunc (k : K) (c : C)
  | emplaceBack (k : K)
  | count (k : K)
  | destroykThread (k : K)
  | assignkThread (c : C) (next : ℕ)
  | push (c : C)
  | prepareBulkPush (c : C)
  | bulkPush
  | removeMany (k : K) (c : C)

def step (s : State K C) : Action K C → Option (State K C)
  | .newCluster c => newCluster c s
  | .destroyCluster c => destroyCluster c s
  | .newkThread k c => newkThread k c .starting s
  | .newkThreadFunc k c => newkThread k c .func s
  | .emplaceBack k => emplaceBack k s
  | .count k => count k s
  | .destroykThread k => destroykThread k s
  | .assignkThread c next => (assignkThread c next s).map Prod.snd
  | .push c => push c s
  | .prepareBulkPush c => prepareBulkPush c s
  | .bulkPush => some (bulkPush s)
  | .removeMany k c => removeMany k c s

/-- `defaultCluster` with `defaultKT`. -/
def initial (defaultKT : K) (defaultCluster : C) : State K C where
  kt := Function.update (fun _ => ⟨.absent, none⟩) defaultKT ⟨.built, some defaultCluster⟩
  cluster := Function.update (fun _ => emptyCluster false) defaultCluster
    { (emptyCluster true : Cluster K) with ktVector := [defaultKT], numberOfkThreads := 1 }
  clusterList := [defaultCluster]

def machine (K C : Type*) [DecidableEq K] [DecidableEq C] : Machine (State K C) (Action K C) where
  init := fun s => ∃ k c, s = initial k c
  step := step

/-! ## The invariant -/

variable {s s' : State K C} {k : K} {c : C}

/-- The condition on runs: no destructor is called, a cluster has fewer than `2 ^ 32` kThreads, and
`assignkThread` is called on a cluster only when the constructor of one of its kThreads has counted
it. -/
def Undestroyed (s : State K C) : Action K C → Prop
  | .destroyCluster _ | .destroykThread _ => False
  | .emplaceBack k => ∀ c ∈ (s.kt k).localCluster, (s.cluster c).ktVector.length + 1 < 2 ^ 32
  | .assignkThread c _ => (s.cluster c).numberOfkThreads ≠ 0
  | _ => True

instance (s : State K C) : (a : Action K C) → Decidable (Undestroyed s a)
  | .destroyCluster _ | .destroykThread _ => inferInstanceAs (Decidable False)
  | .emplaceBack k =>
    match h : (s.kt k).localCluster with
    | none => isTrue (by simp [Undestroyed, h])
    | some c => decidable_of_iff ((s.cluster c).ktVector.length + 1 < 2 ^ 32)
        (by simp [Undestroyed, h])
  | .assignkThread c _ => inferInstanceAs (Decidable ((s.cluster c).numberOfkThreads ≠ 0))
  | .newCluster _ | .newkThread .. | .newkThreadFunc .. | .count _ | .push _ | .prepareBulkPush _
  | .bulkPush | .removeMany .. => inferInstanceAs (Decidable True)

/-- What holds of a cluster on its own. -/
structure Cluster.Ok (x : Cluster K) : Prop where
  small : x.ktVector.length < 2 ^ 32
  count : x.numberOfkThreads.toNat + (if x.mtx = none then 0 else 1) = x.ktVector.length
  last : x.ktLast < x.ktVector.length ∨ x.ktLast = 0
  used : x.used = true → x.numberOfkThreads ≠ 0
  size : x.used = false → x.size = 0 ∧ x.bulkCounter = 0

/-- What holds of a kThread on its own. -/
def KThread.Ok (y : KThread C) : Prop := y.pos = .absent ↔ y.localCluster = none

/-- A cluster and a kThread agree on whether the kThread is registered there. -/
structure Fits (c : C) (x : Cluster K) (k : K) (y : KThread C) : Prop where
  home : y.localCluster = some c → x.alive = true
  entry : k ∈ x.ktVector → y.pos ∈ [.adding, .built] ∧ y.localCluster = some c
  mtx : x.mtx = some k ↔ y.pos = .adding ∧ y.localCluster = some c

structure Inv (s : State K C) : Prop where
  cluster : ∀ c, (s.cluster c).Ok
  kt : ∀ k, (s.kt k).Ok
  fits : ∀ c k, Fits c (s.cluster c) k (s.kt k)
  listed : ∀ c ∈ s.clusterList, (s.cluster c).alive = true

omit [DecidableEq K] in
theorem emptyCluster_ok (alive : Bool) : (emptyCluster alive : Cluster K).Ok :=
  ⟨by simp [emptyCluster], by simp [emptyCluster], by simp [emptyCluster], by simp [emptyCluster],
    by simp [emptyCluster]⟩

/-- One cluster and one kThread change. -/
theorem Inv.change (h : Inv s) {x : Cluster K} {y : KThread C} (hx : x.Ok) (hy : y.Ok)
    (halive : x.alive = (s.cluster c).alive) (hxy : Fits c x k y)
    (hc : ∀ j, j ≠ k → Fits c x j (s.kt j)) (hk : ∀ d, d ≠ c → Fits d (s.cluster d) k y) :
    Inv ((s.setKT k y).setCluster c x) := by
  have hcluster : ∀ d, d ≠ c → Function.update s.cluster c x d = s.cluster d :=
    fun d hd => Function.update_of_ne hd ..
  have hkt : ∀ j, j ≠ k → Function.update s.kt k y j = s.kt j :=
    fun j hj => Function.update_of_ne hj ..
  refine ⟨fun d => ?_, fun j => ?_, fun d j => ?_, fun d hd => ?_⟩ <;>
    simp only [State.setCluster, State.setKT]
  · by_cases hd : d = c
    · simpa [hd] using hx
    · simpa [hcluster d hd] using h.cluster d
  · by_cases hj : j = k
    · simpa [hj] using hy
    · simpa [hkt j hj] using h.kt j
  · by_cases hd : d = c
    · by_cases hj : j = k
      · simpa [hd, hj] using hxy
      · simpa [hd, hkt j hj] using hc j hj
    · by_cases hj : j = k
      · simpa [hj, hcluster d hd] using hk d hd
      · simpa [hcluster d hd, hkt j hj] using h.fits d j
  · have hlisted := h.listed d hd
    by_cases hdc : d = c
    · subst hdc
      simpa [halive] using hlisted
    · simpa [hcluster d hdc] using hlisted

omit [DecidableEq K] in
/-- One cluster changes. -/
theorem Inv.setCluster (h : Inv s) {x : Cluster K} (hx : x.Ok) (hc : ∀ k, Fits c x k (s.kt k))
    {l : List C} (hl : ∀ d ∈ l, d ≠ c → d ∈ s.clusterList) (halive : c ∈ l → x.alive = true) :
    Inv { s.setCluster c x with clusterList := l } := by
  have hcluster : ∀ d, d ≠ c → Function.update s.cluster c x d = s.cluster d :=
    fun d hd => Function.update_of_ne hd ..
  refine ⟨fun d => ?_, h.kt, fun d k => ?_, fun d hd => ?_⟩ <;> simp only [State.setCluster]
  · by_cases hd : d = c
    · simpa [hd] using hx
    · simpa [hcluster d hd] using h.cluster d
  · by_cases hd : d = c
    · simpa [hd] using hc k
    · simpa [hcluster d hd] using h.fits d k
  · by_cases hdc : d = c
    · subst hdc
      simpa using halive hd
    · simpa [hcluster d hdc] using h.listed d (hl d hd hdc)

omit [DecidableEq K] in
/-- A step on the queue of cluster `c`, which leaves its registry as it is. -/
theorem Inv.touch (h : Inv s) {x : Cluster K} (hx : x.Ok) (halive : x.alive = (s.cluster c).alive)
    (hvector : x.ktVector = (s.cluster c).ktVector) (hmtx : x.mtx = (s.cluster c).mtx) :
    Inv (s.setCluster c x) := by
  refine h.setCluster hx (fun k => ?_) (fun d hd _ => hd) fun hc => ?_
  · obtain ⟨hhome, hentry, hadding⟩ := h.fits c k
    exact ⟨halive ▸ hhome, hvector ▸ hentry, hmtx ▸ hadding⟩
  · rw [halive]
    exact h.listed c hc

/-! ## Steps -/

omit [DecidableEq K] in
theorem inv_newCluster (h : Inv s) (hs : newCluster c s = some s') : Inv s' := by
  unfold newCluster at hs
  split_ifs at hs with halive
  cases hs
  refine h.setCluster (emptyCluster_ok true) (fun k => ?_) (fun d hd hdc => ?_) fun _ => rfl
  · -- no kThread has this cluster yet
    have hnone : (s.kt k).localCluster ≠ some c := fun hk => halive ((h.fits c k).home hk)
    exact ⟨fun hk => absurd hk hnone, by simp [emptyCluster], by simp [emptyCluster, hnone]⟩
  · simpa [hdc] using hd

theorem inv_newkThread {pos : KPos} (h : Inv s) (hpos : pos = .starting ∨ pos = .func)
    (hs : newkThread k c pos s = some s') : Inv s' := by
  unfold newkThread at hs
  split_ifs at hs with hk
  cases hs
  obtain ⟨habsent, halive⟩ := hk
  have hne : ∀ d, k ∉ (s.cluster d).ktVector ∧ (s.cluster d).mtx ≠ some k := by
    refine fun d => ⟨fun hmem => ?_, fun hm => ?_⟩
    · simpa [habsent] using ((h.fits d k).entry hmem).1
    · simpa [habsent] using ((h.fits d k).mtx.mp hm).1
  have hfits : ∀ d, (d = c → (s.cluster d).alive = true) →
      Fits d (s.cluster d) k ⟨pos, some c⟩ := by
    intro d hd
    refine ⟨fun hc => hd (Option.some.inj hc).symm, fun hmem => absurd hmem (hne d).1, ?_⟩
    rcases hpos with rfl | rfl <;> simpa using (hne d).2
  have hnew := h.change (c := c) (h.cluster c) (y := ⟨pos, some c⟩)
    (by rcases hpos with rfl | rfl <;> simp [KThread.Ok]) rfl (hfits c fun _ => halive)
    (fun j _ => h.fits c j) fun d hd => hfits d fun he => absurd he hd
  simpa [State.setCluster, State.setKT] using hnew

theorem inv_emplaceBack (h : Inv s) (ha : Undestroyed s (.emplaceBack k : Action K C))
    (hs : emplaceBack k s = some s') : Inv s' := by
  unfold emplaceBack at hs
  split at hs
  next c hk =>
    split_ifs at hs with hfree
    cases hs
    have hsmall : (s.cluster c).ktVector.length + 1 < 2 ^ 32 := ha c (by simp [hk])
    have halive : (s.cluster c).alive = true := (h.fits c k).home (by simp [hk])
    obtain ⟨-, hcount, hlast, hused, hsize⟩ := h.cluster c
    simp only [hfree, if_true, Nat.add_zero] at hcount
    refine h.change ⟨by simpa using hsmall, by simp [hcount], ?_, hused, hsize⟩
      (by simp [KThread.Ok]) rfl ⟨fun _ => halive, by simp, by simp⟩ (fun j hj => ?_) fun d hd => ?_
    · simp only [List.length_append, List.length_singleton]
      omega
    · obtain ⟨hhome, hentry, hadding⟩ := h.fits c j
      refine ⟨hhome, fun hmem => hentry ?_, ?_⟩
      · simpa [hj] using hmem
      · simpa [hfree, hj.symm] using hadding
    · obtain ⟨-, hentry, hadding⟩ := h.fits d k
      refine ⟨fun hc => absurd (Option.some.inj hc).symm hd, fun hmem => ?_, ?_⟩
      · simpa [hk] using (hentry hmem).1
      · simpa [hk, hd.symm] using hadding
  next => exact absurd hs (by simp)

theorem inv_count (h : Inv s) (hs : count k s = some s') : Inv s' := by
  unfold count at hs
  split at hs
  next c hk =>
    cases hs
    have halive : (s.cluster c).alive = true := (h.fits c k).home (by simp [hk])
    have hmtx : (s.cluster c).mtx = some k := (h.fits c k).mtx.mpr (by simp [hk])
    obtain ⟨hsmall, hcount, hlast, hused, hsize⟩ := h.cluster c
    simp only [hmtx, reduceCtorEq, if_false] at hcount
    refine h.change ⟨hsmall, ?_, hlast, fun hu => ?_, hsize⟩ (by simp [KThread.Ok]) rfl
      ⟨fun _ => halive, by simp, by simp⟩ (fun j hj => ?_) fun d hd => ?_
    · simp only [if_true]
      bv_omega
    · bv_omega
    · obtain ⟨hhome, hentry, hadding⟩ := h.fits c j
      exact ⟨hhome, hentry, by simpa [hmtx, hj.symm] using hadding⟩
    · obtain ⟨-, hentry, hadding⟩ := h.fits d k
      refine ⟨fun hc => absurd (Option.some.inj hc).symm hd, fun hmem => ?_, ?_⟩
      · simpa [hk, hd.symm] using (hentry hmem).2
      · simpa [hk, hd.symm] using hadding
  next => exact absurd hs (by simp)

omit [DecidableEq K] in
theorem inv_assignkThread {next : ℕ} (h : Inv s)
    (ha : Undestroyed s (.assignkThread c next : Action K C))
    (hs : assignkThread c next s = some (k, s')) : Inv s' := by
  obtain ⟨⟨j, last⟩, hassign, he⟩ := Option.map_eq_some_iff.mp hs
  cases he
  obtain ⟨-, rfl, hnext⟩ := AssignKThread.assign_spec hassign
  obtain ⟨hsmall, hcount, -, -, -⟩ := h.cluster c
  exact h.touch ⟨hsmall, hcount, .inl hnext, fun _ => ha, by simp⟩ rfl rfl rfl

omit [DecidableEq K] in
theorem inv_bulkPushCluster (h : Inv s) (c : C) : Inv (bulkPushCluster s c) := by
  unfold bulkPushCluster
  split_ifs with hpos
  · obtain ⟨hsmall, hcount, hlast, hused, hsize⟩ := h.cluster c
    refine h.touch ⟨hsmall, hcount, hlast, hused, fun hu => ?_⟩ rfl rfl rfl
    have hzero := (hsize hu).2
    omega
  · exact h

omit [DecidableEq K] in
theorem inv_bulkPush (h : Inv s) : Inv (bulkPush s) := by
  unfold bulkPush
  generalize s.clusterList = l
  induction l generalizing s with
  | nil => exact h
  | cons c l ih => exact ih (inv_bulkPushCluster h c)

theorem inv_step {a : Action K C} (h : Inv s) (ha : Undestroyed s a) (hs : step s a = some s') :
    Inv s' := by
  cases a with
  | newCluster c => exact inv_newCluster h hs
  | destroyCluster c => exact absurd ha (by simp [Undestroyed])
  | newkThread k c => exact inv_newkThread h (.inl rfl) hs
  | newkThreadFunc k c => exact inv_newkThread h (.inr rfl) hs
  | emplaceBack k => exact inv_emplaceBack h ha hs
  | count k => exact inv_count h hs
  | destroykThread k => exact absurd ha (by simp [Undestroyed])
  | assignkThread c next =>
    obtain ⟨⟨k, s₁⟩, hassign, rfl⟩ := Option.map_eq_some_iff.mp hs
    exact inv_assignkThread h ha hassign
  | push c =>
    simp only [step, push] at hs
    split_ifs at hs with hu
    cases hs
    obtain ⟨hsmall, hcount, hlast, hused, -⟩ := h.cluster c
    exact h.touch ⟨hsmall, hcount, hlast, hused, by simp [hu]⟩ rfl rfl rfl
  | prepareBulkPush c =>
    simp only [step, prepareBulkPush] at hs
    split_ifs at hs with hu
    cases hs
    obtain ⟨hsmall, hcount, hlast, hused, -⟩ := h.cluster c
    exact h.touch ⟨hsmall, hcount, hlast, hused, by simp [hu]⟩ rfl rfl rfl
  | bulkPush =>
    cases hs
    exact inv_bulkPush h
  | removeMany k c =>
    simp only [step, removeMany] at hs
    split_ifs at hs with hpull
    cases hs
    obtain ⟨hsmall, hcount, hlast, hused, hsize⟩ := h.cluster c
    exact h.touch ⟨hsmall, hcount, hlast, hused, fun hu => absurd (hsize hu).1 hpull.1.2.2⟩
      rfl rfl rfl

theorem inv_initial (k : K) (c : C) : Inv (initial k c) := by
  refine ⟨fun d => ?_, fun j => ?_, fun d j => ?_, fun d hd => ?_⟩
  · by_cases hd : d = c
    · simp only [initial, hd, Function.update_self]
      exact ⟨by simp, by simp [emptyCluster], by simp [emptyCluster], by simp,
        by simp [emptyCluster]⟩
    · simp only [initial, Function.update_of_ne hd]
      exact emptyCluster_ok false
  · by_cases hj : j = k <;> simp [initial, KThread.Ok, hj]
  · by_cases hd : d = c
    · by_cases hj : j = k <;> refine ⟨?_, ?_, ?_⟩ <;> simp [initial, emptyCluster, hd, hj]
    · have hcd : c ≠ d := fun he => hd he.symm
      by_cases hj : j = k <;> refine ⟨?_, ?_, ?_⟩ <;> simp [initial, emptyCluster, hd, hcd, hj]
  · simp only [initial, List.mem_singleton] at hd
    simp [initial, emptyCluster, hd]

theorem reachable_inv (h : (machine K C).ReachableBy Undestroyed s) : Inv s := by
  apply h.invariant
  · rintro s ⟨k, c, rfl⟩
    exact inv_initial k c
  · intro s a s' hI ha hs
    exact inv_step hI ha hs

/-! ## Results -/

omit [DecidableEq K] in
/-- `assignkThread` returns a kThread that is registered in the cluster. -/
theorem assignkThread_entry {next : ℕ} (hs : assignkThread c next s = some (k, s')) :
    k ∈ (s.cluster c).ktVector := by
  obtain ⟨⟨j, last⟩, hassign, he⟩ := Option.map_eq_some_iff.mp hs
  cases he
  exact (AssignKThread.assign_spec hassign).1

/-- **The registries name live objects only**, in runs without destructors in which `assignkThread`
is called on clusters with a counted kThread. The counter is the number of entries, less one while
`addNewkThread` is between its two lines. -/
theorem registries_live (h : (machine K C).ReachableBy Undestroyed s) :
    (∀ c, (s.cluster c).numberOfkThreads.toNat + (if (s.cluster c).mtx = none then 0 else 1) =
      (s.cluster c).ktVector.length) ∧
    (∀ c ∈ s.clusterList, (s.cluster c).alive = true) ∧
    (∀ c, ∀ k ∈ (s.cluster c).ktVector,
      (s.kt k).pos ≠ .absent ∧ (s.kt k).localCluster = some c ∧ (s.cluster c).alive = true) ∧
    (∀ c next k s', assignkThread c next s = some (k, s') →
      (s.kt k).pos ≠ .absent ∧ (s.kt k).localCluster = some c) ∧
    (∀ c next, next < (s.cluster c).ktVector.length → (assignkThread c next s).isSome = true) ∧
    ∀ k c, s.pulling k c → (s.cluster c).numberOfkThreads ≠ 0 := by
  have hinv := reachable_inv h
  have hentry : ∀ c, ∀ k ∈ (s.cluster c).ktVector,
      (s.kt k).pos ≠ .absent ∧ (s.kt k).localCluster = some c ∧ (s.cluster c).alive = true := by
    intro c k hk
    obtain ⟨hpos, hlocal⟩ := (hinv.fits c k).entry hk
    refine ⟨fun h0 => ?_, hlocal, (hinv.fits c k).home hlocal⟩
    simp [h0] at hpos
  refine ⟨fun c => (hinv.cluster c).count, hinv.listed, hentry, fun c next k s' hs => ?_,
    fun c next hnext => ?_, fun k c hpull => ?_⟩
  · obtain ⟨hpos, hlocal, -⟩ := hentry c k (assignkThread_entry hs)
    exact ⟨hpos, hlocal⟩
  · have hlast : (s.cluster c).ktLast < (s.cluster c).ktVector.length := by
      have hor := (hinv.cluster c).last
      omega
    simp [assignkThread, AssignKThread.assign, hnext, hlast]
  · obtain ⟨-, -, -, hused, hsize⟩ := hinv.cluster c
    by_cases hu : (s.cluster c).used = true
    · exact hused hu
    · exact absurd (hsize (by simpa using hu)).1 hpull.2.2

/-- A second kThread is made in the default cluster, and pulls the work that is started there. -/
def secondRun : List (Action Bool Unit) :=
  [.newkThread true (), .emplaceBack true, .count true, .assignkThread () 1, .push ()]

theorem registries_live_second :
    ∃ s : State Bool Unit, (machine Bool Unit).ReachableBy Undestroyed s ∧
      (s.cluster ()).ktVector = [false, true] ∧ s.pulling true () ∧
      (s.cluster ()).numberOfkThreads ≠ 0 ∧ (s.kt true).pos ≠ .absent := by
  have h0 : (machine Bool Unit).ReachableBy Undestroyed (initial false ()) := .init ⟨_, _, rfl⟩
  have hrun := h0.get secondRun (by decide +kernel)
  have hvector : ((((machine Bool Unit).runBy Undestroyed (initial false ()) secondRun).get
      (by decide +kernel)).cluster ()).ktVector = [false, true] := by decide +kernel
  have hpull : (((machine Bool Unit).runBy Undestroyed (initial false ()) secondRun).get
      (by decide +kernel)).pulling true () := by decide +kernel
  obtain ⟨-, -, hentry, -, -, hnumkt⟩ := registries_live hrun
  exact ⟨_, hrun, hvector, hpull, hnumkt true () hpull, (hentry () true (by simp [hvector])).1⟩

/-- Four runs. A kThread is destroyed: it stays in `ktVector`, is not counted any more, and is given
out by `assignkThread`. A kThread of the private constructor, which was never counted, is destroyed:
`__removeMany` reads 0. A cluster is destroyed: it stays in `clusterList`. A uThread is started
while the first kThread of a cluster is in `addNewkThread`: `__removeMany` reads 0. -/
theorem destructors_leave_stale_entries :
    (∃ s : State Bool Bool, (machine Bool Bool).Reachable s ∧
      (s.cluster false).mtx = none ∧ (s.cluster false).numberOfkThreads = 1 ∧
      (s.cluster false).ktVector = [false, true] ∧ (s.kt true).pos = .absent ∧
      (assignkThread false 0 s).map Prod.fst = some true) ∧
    (∃ s : State Bool Bool, (machine Bool Bool).Reachable s ∧
      s.pulling false false ∧ (s.cluster false).numberOfkThreads = 0) ∧
    (∃ s : State Bool Bool, (machine Bool Bool).Reachable s ∧
      true ∈ s.clusterList ∧ (s.cluster true).alive = false) ∧
    ∃ s : State Bool Bool, (machine Bool Bool).Reachable s ∧
      s.pulling true true ∧ (s.cluster true).numberOfkThreads = 0 := by
  have h0 : (machine Bool Bool).Reachable (initial false false) := .of_init ⟨_, _, rfl⟩
  refine ⟨⟨_, h0.get [.newkThread true false, .emplaceBack true, .count true, .destroykThread true,
      .assignkThread false 1] (by decide +kernel), ?_⟩,
    ⟨_, h0.get [.newkThreadFunc true false, .destroykThread true, .assignkThread false 0,
      .push false] (by decide +kernel), ?_⟩,
    ⟨_, h0.get [.newCluster true, .destroyCluster true] (by decide +kernel), ?_⟩,
    ⟨_, h0.get [.newCluster true, .newkThread true true, .emplaceBack true, .assignkThread true 0,
      .push true] (by decide +kernel), ?_⟩⟩ <;> decide +kernel

/-- The destructor of a kThread always leaves a cluster whose counter is not the number of its
entries. -/
theorem destroykThread_miscounts (h : (machine K C).ReachableBy Undestroyed s)
    (hs : destroykThread k s = some s') : ∃ c, (s'.cluster c).numberOfkThreads.toNat +
      (if (s'.cluster c).mtx = none then 0 else 1) ≠ (s'.cluster c).ktVector.length := by
  have hok := (reachable_inv h).cluster
  have hmiss : ∀ c, ((s.cluster c).numberOfkThreads - 1).toNat +
      (if (s.cluster c).mtx = none then 0 else 1) ≠ (s.cluster c).ktVector.length := by
    intro c
    rw [← (hok c).count]
    bv_omega
  unfold destroykThread at hs
  split at hs
  rotate_right
  · exact absurd hs (by simp)
  all_goals
    rename_i c _
    cases hs
    exact ⟨c, by simpa [State.setCluster] using hmiss c⟩

end UThreads.Registry
