import UThreads.Runtime.Handover
import UThreads.Lib.Placement

/-!
# How uThreads are handed over: the invariant

**Places** (`Loc`). Every uThread is at one place: in a container, in the hands of a kThread or of
the poller, in a poll slot, or nowhere yet. `At` reads this off the state, and a step moves uThreads
from one place to another (`Moves`).

**States** (`Good`). Where the code depends on the state of a uThread at its place, the state is
right. With `labels` it is right on the run queues and in execution, too.

**Counters** (`Counted`). The counters that the code tests in place of the containers are their
lengths, with `counts`.

`labels` and `counts` each need a condition of their own on the steps of the run. The rules of this
module say what keeps the invariant: a uThread goes into a container (`Inv.push`), comes out of one
(`Inv.pop`), goes from one place outside the containers to another (`Inv.move`), or several go from
one container to another (`Inv.transfer`).
-/

namespace UThreads.Handover

open IOHandler (Slot)

variable {U K C B D : Type*} [DecidableEq U] [DecidableEq K] [DecidableEq C] [DecidableEq B]
  [DecidableEq D]

/-! ## Places -/

inductive Loc (K C B D : Type*)
  | absent
  | created
  /-- `currentUT` of kThread `k` -/
  | cur (k : K)
  /-- the uThread that kThread `k` switches to -/
  | next (k : K)
  | hand (k : K)
  | slot (d : D)
  | poller
  | cont (x : Cont K C B)

/-- `currentUT`, until `postSwitchFunc` is done with it -/
def Pos.cur : Pos U B D → Option U
  | .run u | .pop u _ | .fill u _ | .popFilled u _ | .post u _ _ => some u
  | .absent | .main | .mainPop | .unlock _ | .finish _ => none

def Pos.next : Pos U B D → Option U
  | .post _ _ next | .unlock next | .finish next => next
  | .absent | .main | .mainPop | .run _ | .pop .. | .fill .. | .popFilled .. => none

/-- The argument of `switchContext`, when `currentUT` is leaving. -/
def Pos.leaving : Pos U B D → Option (Option (Arg B D))
  | .pop _ args | .fill _ args | .popFilled _ args | .post _ args _ => some args
  | .absent | .main | .mainPop | .run _ | .unlock _ | .finish _ => none

/-- `__removeMany` has filled `lrq`. -/
def Pos.filled : Pos U B D → Bool
  | .mainPop | .popFilled .. => true
  | _ => false

def Poller.ut : Poller U K → Option U
  | .unblocked u => some u
  | .idle | .chain _ => none

/-- uThread `u` is at place `y`. -/
def At (s : Ctl U K C B D) (l : Lists U K C B) (u : U) : Loc K C B D → Prop
  | .absent => (s.ut u).life = .absent
  | .created => (s.ut u).life = .created
  | .cur k => (s.pos k).cur = some u
  | .next k => (s.pos k).next = some u
  | .hand k => u ∈ s.hands k
  | .slot d => s.slot d = .parked u
  | .poller => s.poller.ut = some u
  | .cont x => u ∈ l x

/-- The run queues. -/
def Cont.runs : Cont K C B → Bool
  | .runQueue _ | .queue (.queue _) | .queue (.lrq _) => true
  | .queue (.bulkQueue _) | .bq _ | .cache | .chain => false

/-- The states in which a uThread leaves its kThread. -/
def Leaves (x : Runtime.UState) (args : Option (Arg B D)) : Prop :=
  x = .yield ∨ x = .migrate ∨ x = .terminated ∨ x = .waiting ∧ args.isSome

/-- The state of `u` is right at place `y`. -/
def Good (labels : Prop) (s : Ctl U K C B D) (u : U) : Loc K C B D → Prop
  | .created => s.ut u = newUT
  | .cont .cache => s.ut u = { newUT with life := .inUse }
  | .hand _ | .slot _ | .poller | .cont (.bq _) => (s.ut u).state = .waiting
  | .cur k =>
    (∀ args, (s.pos k).leaving = some args → Leaves (s.ut u).state args) ∧
      (labels → (s.pos k).leaving = none → (s.ut u).state = .running ∨ s.unswitched u)
  | .next _ => labels → (s.ut u).state = .ready
  | .cont x => labels → x.runs = true → (s.ut u).state = .ready
  | .absent => True

/-! ## The invariant -/

structure Counted (cfg : Config K C) (s : Ctl U K C B D) (l : Lists U K C B) : Prop where
  size : ∀ c, s.size c = BitVec.ofNat 32 (l (.queue (.queue c))).length
  bulk : ∀ j, (∀ k, s.poller = .chain k → j ≠ .kThread k) →
    s.bulkCounter j = BitVec.ofNat 64 (l (.queue (.bulkQueue j))).length
  cache : s.cacheCount = BitVec.ofNat 64 (l .cache).length
  chain : ∀ k, s.poller = .chain k → l .chain ≠ [] ∧ l (.queue (.bulkQueue (.kThread k))) = []
  noChain : (∀ k, s.poller ≠ .chain k) → l .chain = []
  filled : ∀ k, (s.pos k).filled = true → l (.queue (.lrq k)) ≠ []
  cluster : ∀ c, s.cluster c = false → l (.queue (.bulkQueue (.cluster c))) = []
  current : ∀ u c, (s.ut u).currentCluster = some c → s.cluster c = true

structure Inv (labels counts : Prop) (cfg : Config K C) (s : Ctl U K C B D) (l : Lists U K C B) :
    Prop where
  place : Placement (At s l) fun _ => True
  nodup : ∀ x, (l x).Nodup
  hands : ∀ k, (s.hands k).Nodup
  good : ∀ u y, At s l u y → Good labels s u y
  counted : counts → Counted cfg s l

variable {labels counts : Prop} {cfg : Config K C} {s s' : Ctl U K C B D} {l l' : Lists U K C B}
  {u v w : U} {j k : K} {p q y : Loc K C B D} {x : Cont K C B} {us : List U}

omit [DecidableEq U] [DecidableEq K] [DecidableEq C] [DecidableEq B] [DecidableEq D] in
theorem inv_initial : Inv labels counts cfg (initial : Ctl U K C B D) fun _ => [] where
  place := by
    refine ⟨fun u _ => ⟨.absent, rfl, fun y hy => ?_⟩, fun _ _ _ => trivial⟩
    cases y <;> simp [At, initial, newUT, Pos.cur, Pos.next, Poller.ut] at hy ⊢
  nodup _ := List.nodup_nil
  hands _ := List.nodup_nil
  good u y hy := by
    cases y <;> simp [At, initial, newUT, Pos.cur, Pos.next, Poller.ut] at hy ⊢
    trivial
  counted _ := by
    refine ⟨fun _ => rfl, fun _ _ => rfl, rfl, fun _ h => ?_, fun _ => rfl, fun _ h => ?_,
      fun _ _ => rfl,
      fun _ _ h => ?_⟩ <;> simp [initial, Pos.filled, newUT] at h

/-! ## Moving uThreads -/

/-- The uThreads in `S` go from `p` to `q`. -/
structure Moves (s : Ctl U K C B D) (l : Lists U K C B) (s' : Ctl U K C B D) (l' : Lists U K C B)
    (S : U → Prop) (p q : Loc K C B D) : Prop where
  ne : p ≠ q
  mem : ∀ u, S u → At s l u p
  out : ∀ u, At s' l' u p ↔ At s l u p ∧ ¬S u
  into : ∀ u, At s' l' u q ↔ At s l u q ∨ S u
  other : ∀ u y, y ≠ p → y ≠ q → (At s' l' u y ↔ At s l u y)

omit [DecidableEq U] [DecidableEq K] [DecidableEq C] [DecidableEq B] [DecidableEq D] in
/-- A uThread that is somewhere now was there, or has just come. -/
theorem Moves.old {S : U → Prop} (h : Moves s l s' l' S p q) (hp : Placement (At s l) fun _ => True)
    (hy : At s' l' u y) : S u ∧ y = q ∨ ¬S u ∧ At s l u y := by
  by_cases hyp : y = p
  · subst hyp
    exact .inr ((h.out u).mp hy).symm
  · by_cases hyq : y = q
    · subst hyq
      by_cases hu : S u
      · exact .inl ⟨hu, rfl⟩
      · exact .inr ⟨hu, ((h.into u).mp hy).resolve_right hu⟩
    · have hat := (h.other u y hyp hyq).mp hy
      exact .inr ⟨fun hu => hyp (hp.unique hat (h.mem u hu)), hat⟩

omit [DecidableEq U] [DecidableEq K] [DecidableEq C] [DecidableEq B] [DecidableEq D] in
/-- The rule for every step that moves uThreads. -/
theorem Inv.moves {S : U → Prop} (h : Inv labels counts cfg s l) (hm : Moves s l s' l' S p q)
    (hnew : ∀ u, S u → Good labels s' u q)
    (hold : ∀ u y, ¬S u → At s l u y → Good labels s u y → Good labels s' u y)
    (hnodup : ∀ x, (l' x).Nodup) (hhands : ∀ k, (s'.hands k).Nodup)
    (hcounted : counts → Counted cfg s' l') : Inv labels counts cfg s' l' where
  place := h.place.transfer hm.ne S hm.mem hm.out hm.into hm.other
  nodup := hnodup
  hands := hhands
  good u y hy := by
    rcases hm.old h.place hy with ⟨hu, rfl⟩ | ⟨hu, hy⟩
    · exact hnew u hu
    · exact hold u y hu hy (h.good u y hy)
  counted := hcounted

omit [DecidableEq U] [DecidableEq K] [DecidableEq C] [DecidableEq B] [DecidableEq D] in
/-- A step that moves no uThread. -/
theorem Inv.stay (h : Inv labels counts cfg s l) (hat : ∀ u y, At s' l u y ↔ At s l u y)
    (hgood : ∀ u y, At s l u y → Good labels s u y → Good labels s' u y)
    (hhands : s'.hands = s.hands)
    (hcounted : counts → Counted cfg s' l) : Inv labels counts cfg s' l where
  place := h.place.frame hat
  nodup := h.nodup
  hands := hhands ▸ h.hands
  good u y hy := hgood u y ((hat u y).mp hy) (h.good u y ((hat u y).mp hy))
  counted := hcounted

omit [DecidableEq U] [DecidableEq K] [DecidableEq C] [DecidableEq B] [DecidableEq D] in
theorem Inv.eq_of_at (h : Inv labels counts cfg s l) (hp : At s l u p) (hq : At s l u q) : p = q :=
  h.place.unique hp hq

omit [DecidableEq U] [DecidableEq D] in
/-- `u` goes from a place outside the containers into container `x`. -/
theorem Inv.push {m : List U} (h : Inv labels counts cfg s l) (hp : At s l u p)
    (hpx : ∀ x, p ≠ .cont x)
    (hm : m.Perm (u :: l x)) (hgone : ∀ w y, At s' l w y ↔ At s l w y ∧ ¬(w = u ∧ y = p))
    (hnew : Good labels s' u (.cont x))
    (hold : ∀ w y, w ≠ u → At s l w y → Good labels s w y → Good labels s' w y)
    (hhands : ∀ k, (s'.hands k).Nodup)
    (hcounted : counts → Counted cfg s' (Function.update l x m)) :
    Inv labels counts cfg s' (Function.update l x m) := by
  have hux : u ∉ l x := fun hu => hpx x (h.eq_of_at hp (q := .cont x) hu)
  have hmoves : Moves s l s' (Function.update l x m) (· = u) p (.cont x) := by
    refine ⟨hpx x, fun w hw => hw ▸ hp, fun w => ?_, fun w => ?_, fun w y hyp hyx => ?_⟩
    · have hat : At s' (Function.update l x m) w p ↔ At s' l w p := by
        cases p with
        | cont z => exact absurd rfl (hpx z)
        | _ => rfl
      rw [hat, hgone w p]
      simp
    · simp only [At, Function.update_self, hm.mem_iff, List.mem_cons]
      exact or_comm
    · have hat : At s' (Function.update l x m) w y ↔ At s' l w y := by
        cases y with
        | cont z =>
          have hzx : z ≠ x := fun he => hyx (he ▸ rfl)
          simp only [At, Function.update_of_ne hzx]
        | _ => rfl
      rw [hat, hgone w y]
      simp [hyp]
  refine h.moves hmoves (fun w hw => hw ▸ hnew) hold (fun z => ?_) hhands hcounted
  by_cases hz : z = x
  · subst hz
    rw [Function.update_self, hm.nodup_iff]
    exact List.nodup_cons.mpr ⟨hux, h.nodup z⟩
  · rw [Function.update_of_ne hz]
    exact h.nodup z

omit [DecidableEq U] [DecidableEq D] in
/-- `u` comes out of container `x`, where it was first, to a place `q` outside the containers. -/
theorem Inv.pop (h : Inv labels counts cfg s l) (hx : l x = u :: us) (hqx : ∀ x, q ≠ .cont x)
    (hcome : ∀ w y, At s' l w y ↔ At s l w y ∨ w = u ∧ y = q)
    (hnew : Good labels s' u q)
    (hold : ∀ w y, w ≠ u → At s l w y → Good labels s w y → Good labels s' w y)
    (hhands : ∀ k, (s'.hands k).Nodup)
    (hcounted : counts → Counted cfg s' (Function.update l x us)) :
    Inv labels counts cfg s' (Function.update l x us) := by
  have hnodup := h.nodup x
  rw [hx, List.nodup_cons] at hnodup
  have hmoves : Moves s l s' (Function.update l x us) (· = u) (.cont x) q := by
    refine ⟨(hqx x).symm, fun w hw => by simp [At, hx, hw], fun w => ?_, fun w => ?_,
      fun w y hyx hyq => ?_⟩
    · simp only [At, Function.update_self, hx, List.mem_cons]
      constructor
      · intro hw
        exact ⟨.inr hw, fun he => hnodup.1 (he ▸ hw)⟩
      · rintro ⟨hw, hne⟩
        exact hw.resolve_left hne
    · have hat : At s' (Function.update l x us) w q ↔ At s' l w q := by
        cases q with
        | cont z => exact absurd rfl (hqx z)
        | _ => rfl
      rw [hat, hcome w q]
      simp
    · have hat : At s' (Function.update l x us) w y ↔ At s' l w y := by
        cases y with
        | cont z =>
          have hzx : z ≠ x := fun he => hyx (he ▸ rfl)
          simp only [At, Function.update_of_ne hzx]
        | _ => rfl
      rw [hat, hcome w y]
      simp [hyq]
  refine h.moves hmoves (fun w hw => hw ▸ hnew) hold (fun z => ?_) hhands hcounted
  by_cases hz : z = x
  · subst hz
    rw [Function.update_self]
    exact hnodup.2
  · rw [Function.update_of_ne hz]
    exact h.nodup z

omit [DecidableEq U] [DecidableEq K] [DecidableEq C] [DecidableEq B] [DecidableEq D] in
/-- `u` goes from one place outside the containers to another. -/
theorem Inv.move (h : Inv labels counts cfg s l) (hpq : p ≠ q) (hp : At s l u p)
    (hat : ∀ w y, At s' l w y ↔ At s l w y ∧ ¬(w = u ∧ y = p) ∨ w = u ∧ y = q)
    (hnew : Good labels s' u q)
    (hold : ∀ w y, w ≠ u → At s l w y → Good labels s w y → Good labels s' w y)
    (hhands : ∀ k, (s'.hands k).Nodup) (hcounted : counts → Counted cfg s' l) :
    Inv labels counts cfg s' l := by
  have hmoves : Moves s l s' l (· = u) p q := by
    refine ⟨hpq, fun w hw => hw ▸ hp, fun w => ?_, fun w => ?_, fun w y hyp hyq => ?_⟩
    · simp [hat w p, hpq]
    · simp [hat w q, hpq.symm]
    · simp [hat w y, hyp, hyq]
  exact h.moves hmoves (fun w hw => hw ▸ hnew) hold h.nodup hhands hcounted

omit [DecidableEq U] [DecidableEq D] in
/-- The first uThreads of container `src` go to the end of `dst`. -/
theorem Inv.transfer {dst src : Cont K C B} (h : Inv labels counts cfg s l)
    (hne : dst ≠ src) (n : ℕ)
    (hat : ∀ w y, At s' l w y ↔ At s l w y) (hnew : ∀ w ∈ l src, Good labels s' w (.cont dst))
    (hold : ∀ w y, At s l w y → Good labels s w y → Good labels s' w y)
    (hhands : s'.hands = s.hands) (hcounted : counts → Counted cfg s' (l.move dst src n)) :
    Inv labels counts cfg s' (l.move dst src n) := by
  have hsrc : l.move dst src n src = (l src).drop n := by simp [Lists.move, hne.symm]
  have hdst : l.move dst src n dst = l dst ++ (l src).take n := by simp [Lists.move]
  have hother : ∀ z, z ≠ dst → z ≠ src → l.move dst src n z = l z := fun z hd hs => by
    simp [Lists.move, hd, hs]
  have hdisj : ∀ w ∈ (l src).take n, w ∉ (l src).drop n :=
    fun w hw hw' => List.disjoint_take_drop (h.nodup src) le_rfl hw hw'
  have hmoves : Moves s l s' (l.move dst src n) (· ∈ (l src).take n) (.cont src) (.cont dst) := by
    refine ⟨by simpa using hne.symm, fun w hw => List.mem_of_mem_take hw, fun w => ?_, fun w => ?_,
      fun w y hys hyd => ?_⟩
    · have hsplit : w ∈ l src ↔ w ∈ (l src).take n ∨ w ∈ (l src).drop n := by
        rw [← List.mem_append, List.take_append_drop]
      simp only [At, hsrc, hsplit]
      constructor
      · intro hw
        exact ⟨.inr hw, fun hw' => hdisj w hw' hw⟩
      · rintro ⟨hw, hnot⟩
        exact hw.resolve_left hnot
    · simp only [At, hdst, List.mem_append]
    · rw [← hat w y]
      cases y with
      | cont z =>
        have hzs : z ≠ src := fun he => hys (he ▸ rfl)
        have hzd : z ≠ dst := fun he => hyd (he ▸ rfl)
        simp only [At, hother z hzd hzs]
      | _ => rfl
  refine h.moves hmoves (fun w hw => hnew w (List.mem_of_mem_take hw)) (fun w y _ => hold w y)
    (fun z => ?_) (hhands ▸ h.hands) hcounted
  by_cases hzd : z = dst
  · subst hzd
    rw [hdst, List.nodup_append']
    refine ⟨h.nodup z, (h.nodup src).sublist (List.take_sublist ..), fun w hw hw' => hne ?_⟩
    have he := h.eq_of_at (p := .cont z) (q := .cont src) hw (List.mem_of_mem_take hw')
    simpa using he
  · by_cases hzs : z = src
    · subst hzs
      rw [hsrc]
      exact (h.nodup z).sublist (List.drop_sublist ..)
    · rw [hother z hzd hzs]
      exact h.nodup z

/-! ## What does not change -/

omit [DecidableEq K] [DecidableEq C] [DecidableEq B] [DecidableEq D] in
theorem at_setUT {z : UThread K C} (hz : z.life = (s.ut u).life) :
    At (s.setUT u z) l w y ↔ At s l w y := by
  have hlife : ((s.setUT u z).ut w).life = (s.ut w).life := by
    by_cases hw : w = u
    · subst hw
      simp [Ctl.setUT, hz]
    · simp [Ctl.setUT, hw]
  cases y with
  | absent | created => simp only [At, hlife]
  | _ => rfl

omit [DecidableEq U] [DecidableEq C] [DecidableEq B] [DecidableEq D] in
theorem at_goto {pos : Pos U B D} : At (s.goto k pos) l w y ↔
    At s l w y ∧ y ≠ .cur k ∧ y ≠ .next k ∨ y = .cur k ∧ pos.cur = some w ∨ y = .next k ∧
    pos.next = some w := by
  cases y with
  | cur j =>
    by_cases hj : j = k
    · subst hj
      simp [At, Ctl.goto]
    · simp [At, Ctl.goto, hj]
  | next j =>
    by_cases hj : j = k
    · subst hj
      simp [At, Ctl.goto]
    · simp [At, Ctl.goto, hj]
  | _ => simp [At, Ctl.goto]

omit [DecidableEq U] [DecidableEq C] [DecidableEq B] [DecidableEq D] in
theorem at_goto_same {pos : Pos U B D} (hcur : pos.cur = (s.pos k).cur)
    (hnext : pos.next = (s.pos k).next) : At (s.goto k pos) l w y ↔ At s l w y := by
  rw [at_goto]
  grind [At]

omit [DecidableEq U] [DecidableEq K] [DecidableEq C] [DecidableEq B] [DecidableEq D] in
/-- The state of `w`, and what its kThread does with it, are the same. -/
theorem Good.congr (h : Good labels s w y) (hut : s'.ut w = s.ut w)
    (hinit : s.unswitched w → s'.unswitched w)
    (hpos : ∀ j, y = .cur j → (s'.pos j).leaving = (s.pos j).leaving) : Good labels s' w y := by
  cases y with
  | cur j =>
    simp only [Good, hut, hpos j rfl]
    exact ⟨h.1, fun hlab hnone => (h.2 hlab hnone).imp_right hinit⟩
  | cont x => cases x <;> simpa only [Good, hut] using h
  | absent => trivial
  | _ => simpa only [Good, hut] using h

omit [DecidableEq U] [DecidableEq C] [DecidableEq B] [DecidableEq D] in
/-- `w` is not the uThread of kThread `k`, which goes on. -/
theorem Good.goto {pos : Pos U B D} (h : Good labels s w y) (hy : At s l w y)
    (hut : s'.ut w = s.ut w)
    (hinit : s.unswitched w → s'.unswitched w) (hpos : s'.pos = Function.update s.pos k pos)
    (hk : (s.pos k).cur ≠ some w) : Good labels s' w y := by
  apply h.congr hut hinit
  rintro j rfl
  have hjk : j ≠ k := by
    rintro rfl
    exact hk hy
  rw [hpos, Function.update_of_ne hjk]

omit [DecidableEq U] [DecidableEq K] [DecidableEq C] [DecidableEq B] [DecidableEq D] in
/-- The bulk queues, their counters and the clusters are the same. -/
theorem Counted.congr (h : Counted cfg s l)
    (hsize : ∀ c, s'.size c = BitVec.ofNat 32 (l' (.queue (.queue c))).length)
    (hcache : s'.cacheCount = BitVec.ofNat 64 (l' .cache).length)
    (hfilled : ∀ k, (s'.pos k).filled = true → l' (.queue (.lrq k)) ≠ [])
    (hcurrent : ∀ u c, (s'.ut u).currentCluster = some c → s.cluster c = true)
    (hbulk : s'.bulkCounter = s.bulkCounter) (hcluster : s'.cluster = s.cluster)
    (hpoller : ∀ k, s'.poller = .chain k ↔ s.poller = .chain k)
    (hbulkQueue : ∀ j, l' (.queue (.bulkQueue j)) = l (.queue (.bulkQueue j)))
    (hchain : l' .chain = l .chain) : Counted cfg s' l' where
  size := hsize
  bulk j hj := by
    rw [hbulk, hbulkQueue]
    exact h.bulk j fun k hk => hj k ((hpoller k).mpr hk)
  cache := hcache
  chain k hk := by
    rw [hchain, hbulkQueue]
    exact h.chain k ((hpoller k).mp hk)
  noChain hk := by
    rw [hchain]
    exact h.noChain fun k hk' => hk k ((hpoller k).mpr hk')
  filled := hfilled
  cluster c hc := by
    rw [hbulkQueue]
    exact h.cluster c (hcluster ▸ hc)
  current u c hc := by
    rw [hcluster]
    exact hcurrent u c hc

omit [DecidableEq K] [DecidableEq C] [DecidableEq B] [DecidableEq D] in
theorem Counted.setUT {z : UThread K C} (h : Counted cfg s l)
    (hz : ∀ c, z.currentCluster = some c → s.cluster c = true) : Counted cfg (s.setUT u z) l := by
  refine h.congr h.size h.cache h.filled (fun w c hc => ?_) rfl rfl (fun _ => Iff.rfl)
    (fun _ => rfl) rfl
  by_cases hw : w = u
  · subst hw
    exact hz c (by simpa [Ctl.setUT] using hc)
  · exact h.current w c (by simpa [Ctl.setUT, hw] using hc)

omit [DecidableEq U] [DecidableEq C] [DecidableEq B] [DecidableEq D] in
/-- kThread `k` goes on. -/
theorem Counted.goto {pos : Pos U B D} (h : Counted cfg s l)
    (hpos : pos.filled = true → l (.queue (.lrq k)) ≠ []) : Counted cfg (s.goto k pos) l := by
  refine h.congr h.size h.cache (fun j hj => ?_) h.current rfl rfl (fun _ => Iff.rfl)
    (fun _ => rfl) rfl
  by_cases hjk : j = k
  · subst hjk
    exact hpos (by simpa [Ctl.goto] using hj)
  · exact h.filled j (by simpa [Ctl.goto, hjk] using hj)

end UThreads.Handover
