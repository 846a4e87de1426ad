import UThreads.Lib.Machine
import Mathlib.Data.BitVec
import Mathlib.Data.List.Nodup

/-!
# The counters of clusters and kThreads

`Cluster::initialSynchronization` and `kThread::initialSynchronization` compare their counters with
`UINTMAX_MAX` before they increment them. `clusterMasterID` has 16 bits and is promoted to `int`,
`totalNumberofKTs` has 32 bits and wraps before it is converted to 64 bits: both comparisons come
out the same for every value of the counters (`clusterGuard_true`, `kThreadGuard_false`), and the
program never exits.

* **`counters_wrap`**: with 2^16 + 1 clusters two have the same ID, and with 2^32 kThreads the
  counter is 0.
* **`counters_exact`**: up to there, the IDs are distinct and the counter is exact.

A cluster is constructed under the mutex of the default cluster. The constructor of a kThread takes
no lock: the test and the increment are two steps, and a destructor may come between them.
`constructed` and `destroyed` are bookkeeping.
-/

namespace UThreads.Counters

structure State where
  clusterMasterID : BitVec 16
  /-- `clusterID` of every cluster, in the order of construction -/
  clusterIDs : List (BitVec 64)
  totalNumberofKTs : BitVec 32
  /-- how many kThreads have been tested and not been counted -/
  tested : ℕ
  constructed : ℕ
  destroyed : ℕ
  exited : Bool

inductive Action
  /-- `Cluster()` -/
  | cluster
  /-- `kThread::initialSynchronization`: the test -/
  | test
  /-- `totalNumberofKTs++` -/
  | count
  /-- `~kThread()` -/
  | destroy

def uintmaxMax : BitVec 64 := BitVec.allOnes 64

/-- `clusterMasterID + 1 < UINTMAX_MAX` -/
def clusterGuard (n : BitVec 16) : Bool := (n.setWidth 32 + 1).signExtend 64 < uintmaxMax

/-- `totalNumberofKTs + 1 > UINTMAX_MAX` -/
def kThreadGuard (n : BitVec 32) : Bool := (n + 1).setWidth 64 > uintmaxMax

def step (s : State) (a : Action) : Option State :=
  if s.exited then none
  else
    match a with
    | .cluster =>
      if clusterGuard s.clusterMasterID then
        some { s with
          clusterIDs := s.clusterIDs ++ [s.clusterMasterID.setWidth 64]
          clusterMasterID := s.clusterMasterID + 1 }
      else some { s with exited := true }
    | .test =>
      if kThreadGuard s.totalNumberofKTs then some { s with exited := true }
      else some { s with tested := s.tested + 1 }
    | .count =>
      if s.tested = 0 then none
      else some { s with
        tested := s.tested - 1
        totalNumberofKTs := s.totalNumberofKTs + 1
        constructed := s.constructed + 1 }
    | .destroy =>
      if s.destroyed < s.constructed then
        some { s with totalNumberofKTs := s.totalNumberofKTs - 1, destroyed := s.destroyed + 1 }
      else none

def initial : State := ⟨0, [], 0, 0, 0, 0, false⟩

def machine : Machine State Action where
  init := fun s => s = initial
  step := step

/-! ## The guards -/

theorem clusterGuard_true (n : BitVec 16) : clusterGuard n = true := by
  have hlt := n.isLt
  have hval : (n.setWidth 32 + 1).toNat = n.toNat + 1 := by
    rw [BitVec.toNat_add, BitVec.toNat_setWidth, show (1 : BitVec 32).toNat = 1 from rfl]
    omega
  have hmsb : (n.setWidth 32 + 1).msb = false := by
    rw [BitVec.msb_eq_false_iff_two_mul_lt, hval]
    omega
  simp only [clusterGuard, uintmaxMax, decide_eq_true_eq, BitVec.lt_def,
    BitVec.signExtend_eq_setWidth_of_msb_false hmsb,
    BitVec.toNat_setWidth, hval, BitVec.toNat_allOnes]
  omega

theorem kThreadGuard_false (n : BitVec 32) : kThreadGuard n = false := by
  have hlt := (n + 1).isLt
  simp only [kThreadGuard, uintmaxMax, decide_eq_false_iff_not, gt_iff_lt, BitVec.lt_def,
    BitVec.toNat_allOnes, BitVec.toNat_setWidth, Nat.not_lt]
  omega

/-! ## The counters -/

structure Inv (s : State) : Prop where
  exited : s.exited = false
  master : s.clusterMasterID = BitVec.ofNat 16 s.clusterIDs.length
  ids : s.clusterIDs = (List.range s.clusterIDs.length).map fun i => (BitVec.ofNat 16 i).setWidth 64
  total : s.totalNumberofKTs = BitVec.ofNat 32 (s.constructed - s.destroyed)
  destroyed : s.destroyed ≤ s.constructed

variable {s s' : State}

theorem inv_initial : Inv initial := ⟨rfl, rfl, rfl, rfl, Nat.le_refl 0⟩

/-- `clusterID = clusterMasterID++` -/
theorem inv_cluster (h : Inv s) : Inv { s with
    clusterIDs := s.clusterIDs ++ [s.clusterMasterID.setWidth 64]
    clusterMasterID := s.clusterMasterID + 1 } := by
  refine { h with master := ?_, ids := ?_ }
  · show s.clusterMasterID + 1 = BitVec.ofNat 16 (s.clusterIDs ++ _).length
    rw [h.master, List.length_append, List.length_singleton, BitVec.ofNat_add]
    rfl
  · show s.clusterIDs ++ _ = (List.range (s.clusterIDs ++ _).length).map _
    rw [List.length_append, List.length_singleton, List.range_succ, List.map_append,
      ← h.ids, h.master]
    rfl

theorem inv_count (h : Inv s) : Inv { s with
    tested := s.tested - 1
    totalNumberofKTs := s.totalNumberofKTs + 1
    constructed := s.constructed + 1 } := by
  have hle := h.destroyed
  refine { h with total := ?_, destroyed := Nat.le_succ_of_le h.destroyed }
  show s.totalNumberofKTs + 1 = BitVec.ofNat 32 (s.constructed + 1 - s.destroyed)
  rw [h.total, show s.constructed + 1 - s.destroyed = s.constructed - s.destroyed + 1 by omega,
    BitVec.ofNat_add]
  rfl

theorem inv_destroy (h : Inv s) (hlive : s.destroyed < s.constructed) :
    Inv { s with totalNumberofKTs := s.totalNumberofKTs - 1, destroyed := s.destroyed + 1 } := by
  refine { h with total := ?_, destroyed := hlive }
  show s.totalNumberofKTs - 1 = BitVec.ofNat 32 (s.constructed - (s.destroyed + 1))
  rw [h.total, show s.constructed - s.destroyed = s.constructed - (s.destroyed + 1) + 1 by omega,
    BitVec.ofNat_add]
  exact BitVec.add_sub_cancel ..

theorem inv_step {a : Action} (h : Inv s) (hs : step s a = some s') : Inv s' := by
  unfold step at hs
  rw [if_neg (by simp [h.exited])] at hs
  cases a with
  | cluster =>
    simp only [clusterGuard_true, if_true] at hs
    cases hs
    exact inv_cluster h
  | test =>
    simp only [kThreadGuard_false, Bool.false_eq_true, if_false] at hs
    cases hs
    exact { h with }
  | count =>
    dsimp only at hs
    split_ifs at hs
    cases hs
    exact inv_count h
  | destroy =>
    dsimp only at hs
    split_ifs at hs with hlive
    cases hs
    exact inv_destroy h hlive

theorem inv_reachable (h : machine.Reachable s) : Inv s := by
  refine Machine.Reachable.invariant (I := Inv) ?_ (fun _ _ _ hinv hs => inv_step hinv hs) h
  rintro s rfl
  exact inv_initial

/-! ## How far they go -/

theorem clusters_reachable (n : ℕ) : ∃ s, machine.Reachable s ∧ s.clusterIDs.length = n := by
  induction n with
  | zero => exact ⟨initial, .of_init rfl, rfl⟩
  | succ n ih =>
    obtain ⟨s, hr, hn⟩ := ih
    have hstep : machine.step s .cluster = some { s with
        clusterIDs := s.clusterIDs ++ [s.clusterMasterID.setWidth 64]
        clusterMasterID := s.clusterMasterID + 1 } := by
      simp [machine, step, (inv_reachable hr).exited, clusterGuard_true]
    exact ⟨_, hr.next hstep, by simp [hn]⟩

theorem kThreads_reachable (n : ℕ) :
    ∃ s, machine.Reachable s ∧ s.constructed = n ∧ s.destroyed = 0 ∧ s.tested = 0 := by
  induction n with
  | zero => exact ⟨initial, .of_init rfl, rfl, rfl, rfl⟩
  | succ n ih =>
    obtain ⟨s, hr, hn, hd, ht⟩ := ih
    have htest : machine.step s .test = some { s with tested := 1 } := by
      simp [machine, step, (inv_reachable hr).exited, kThreadGuard_false, ht]
    have hcount : machine.step { s with tested := 1 } .count = some { s with
        tested := 0
        totalNumberofKTs := s.totalNumberofKTs + 1
        constructed := s.constructed + 1 } := by
      simp [machine, step, (inv_reachable hr).exited]
    exact ⟨_, (hr.next htest).next hcount, by simp [hn], hd, rfl⟩

/-- **The counters wrap unnoticed.** -/
theorem counters_wrap :
    (∃ s, machine.Reachable s ∧ s.exited = false ∧ s.clusterIDs.length = 2 ^ 16 + 1 ∧
      ¬s.clusterIDs.Nodup) ∧
      ∃ s, machine.Reachable s ∧ s.exited = false ∧ s.constructed = 2 ^ 32 ∧ s.destroyed = 0 ∧
        s.totalNumberofKTs = 0 := by
  constructor
  · obtain ⟨s, hr, hn⟩ := clusters_reachable (2 ^ 16 + 1)
    have hinv := inv_reachable hr
    refine ⟨s, hr, hinv.exited, hn, fun hnodup => ?_⟩
    have hids := hinv.ids
    rw [hn] at hids
    have hfirst : s.clusterIDs[0]? = some 0 := by rw [hids]; simp
    have hlast : s.clusterIDs[2 ^ 16]? = some 0 := by rw [hids]; simp
    have heq := (List.getElem?_inj (by omega) hnodup).mp (hfirst.trans hlast.symm)
    omega
  · obtain ⟨s, hr, hc, hd, -⟩ := kThreads_reachable (2 ^ 32)
    have hinv := inv_reachable hr
    refine ⟨s, hr, hinv.exited, hc, hd, ?_⟩
    rw [hinv.total, hc, hd]
    rfl

/-- **The counters are exact** for up to 2^16 clusters, and for fewer than 2^32 live kThreads. -/
theorem counters_exact (h : machine.Reachable s) :
    s.exited = false ∧ (s.clusterIDs.length ≤ 2 ^ 16 → s.clusterIDs.Nodup) ∧
      (s.constructed - s.destroyed < 2 ^ 32 → s.totalNumberofKTs.toNat =
        s.constructed - s.destroyed) := by
  have hinv := inv_reachable h
  refine ⟨hinv.exited, fun hn => ?_, fun hlive => ?_⟩
  · rw [hinv.ids]
    refine List.Nodup.map_on (fun i hi j hj hij => ?_) List.nodup_range
    rw [List.mem_range] at hi hj
    have hval := congrArg BitVec.toNat hij
    simp only [BitVec.toNat_setWidth, BitVec.toNat_ofNat] at hval
    omega
  · rw [hinv.total, BitVec.toNat_ofNat, Nat.mod_eq_of_lt hlive]

theorem counters_exact_few : ∃ s, machine.Reachable s ∧ s.clusterIDs = [0, 1] ∧ s.clusterIDs.Nodup ∧
    s.totalNumberofKTs.toNat = 2 - 1 := by
  have hinit : machine.Reachable initial := .of_init rfl
  have hr := hinit.get [.cluster, .test, .test, .count, .cluster, .count, .destroy]
    (by decide +kernel)
  obtain ⟨-, hids, htotal⟩ := counters_exact hr
  exact ⟨_, hr, by decide +kernel, hids (by decide +kernel), htotal (by decide +kernel)⟩

end UThreads.Counters
