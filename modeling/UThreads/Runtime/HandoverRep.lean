import UThreads.Generic.ListStoreProof
import UThreads.Lib.Family
import UThreads.Runtime.HandoverLinks

/-!
# How uThreads are handed over: the links are lists

**Representation** (`Rep`). The nodes of the containers in memory are a `Family`: no node is in two
containers, and the links of a node that is in none are null. Each container has the uThreads that
the abstract one has; a run queue has its stub besides, a blocking queue its anchor.

**Refinement** (`Rep.exec`). An operation on the links whose precondition `Op.Pre` holds does what
the operation on lists does, with the same result, and all assertions on the way hold. The
specifications of the containers give what becomes of the one that is used; `Rep.enter`, `Rep.leave`
and `Rep.transfer` give the others.
-/

namespace UThreads.Handover

variable {U K C B D : Type*} [DecidableEq U] [DecidableEq K] [DecidableEq C] [DecidableEq B]
  [DecidableEq D]

variable {m : Node U K B → Link (Node U K B)} {next : Node U K B → Option (Node U K B)}
  {st st' : Store U K C B} {l : Lists U K C B} {nodes : Cont K C B → List (Node U K B)}
  {ns a b : List (Node U K B)} {us vs : List U} {x y dst src : Cont K C B} {u : U} {k : K}
    {q : Queue K C}

omit [DecidableEq U] [DecidableEq K] [DecidableEq B] in
theorem withNext_eq {z : Node U K B} (h : next z = nextOf m z) : withNext m next z = m z := by
  rw [withNext, h]
  rfl

/-! ## Containers in memory -/

/-- The nodes have a `next` link only. -/
def NoPrev (m : Node U K B → Link (Node U K B)) (ns : List (Node U K B)) : Prop :=
  ∀ z ∈ ns, (m z).prev = none

/-- The nodes `ns` are those of container `x`. -/
def Store.Holds (st : Store U K C B) :
    Cont K C B → (Node U K B → Link (Node U K B)) → List (Node U K B) → Prop
  | .runQueue k, m, ns => MPSCQueue.Holds (.stub k) (nextOf m) (st.runQueue k) ns ∧ NoPrev m ns
  | .queue q, m, ns => IntrusiveQueue.Holds (nextOf m) (st.queue q) ns ∧ NoPrev m ns
  | .bq b, m, ns => ∃ r, ns = .anchor b :: r ∧ LinkRing m (.anchor b) r
  | .cache, m, ns => IntrusiveStack.Holds (nextOf m) st.stack ns ∧ NoPrev m ns
  | .chain, m, ns =>
    (match st.chain with
      | none => ns = []
      | some (first, last) => Segment (nextOf m) (some first) ns none ∧ ns.getLast? = some last) ∧
      NoPrev m ns

/-- The uThreads among the nodes of container `x` are `us`. -/
def Shows : Cont K C B → List (Node U K B) → List U → Prop
  | .runQueue k, ns, us => MPSCQueue.elements (.stub k) ns = us.map .ut
  | .bq b, ns, us => ns = .anchor b :: us.map .ut
  | .queue _, ns, us | .cache, ns, us | .chain, ns, us => ns = us.map .ut

structure Layout (st : Store U K C B) (l : Lists U K C B) (nodes : Cont K C B → List (Node U K B)) :
    Prop where
  family : Family st.Holds ⟨none, none⟩ st.links nodes
  shows : ∀ x, Shows x (nodes x) (l x)

/-- The containers in memory are the lists `l`. -/
def Rep (st : Store U K C B) (l : Lists U K C B) : Prop := ∃ nodes, Layout st l nodes

omit [DecidableEq U] [DecidableEq K] [DecidableEq B] in
theorem NoPrev.congr {m' : Node U K B → Link (Node U K B)} (h : NoPrev m ns)
    (hc : ∀ z ∈ ns, m' z = m z) : NoPrev m' ns := by
  intro z hz
  rw [hc z hz, h z hz]

omit [DecidableEq C] [DecidableEq U] [DecidableEq K] [DecidableEq B] in
theorem framed_holds (st : Store U K C B) (x : Cont K C B) : Framed (st.Holds x) := by
  intro m m' ns h hc
  have hnext : ∀ z ∈ ns, nextOf m' z = nextOf m z := fun z hz => congrArg Link.next (hc z hz)
  cases x with
  | runQueue k => exact ⟨h.1.congr hnext, h.2.congr hc⟩
  | queue q => exact ⟨h.1.congr hnext, h.2.congr hc⟩
  | bq b =>
    obtain ⟨r, rfl, hring⟩ := h
    exact ⟨r, rfl, hring.congr hc⟩
  | cache => exact ⟨h.1.congr hnext, h.2.congr hc⟩
  | chain =>
    refine ⟨?_, h.2.congr hc⟩
    have hchain := h.1
    split at hchain
    · exact hchain
    · exact ⟨hchain.1.congr hnext, hchain.2⟩

omit [DecidableEq C] in
theorem Shows.mem (h : Shows x ns us) : .ut u ∈ ns ↔ u ∈ us := by
  cases x with
  | runQueue k =>
    have hmem : (Node.ut u : Node U K B) ∈ MPSCQueue.elements (.stub k) ns ↔ u ∈ us := by
      rw [show MPSCQueue.elements (.stub k) ns = us.map .ut from h]
      simp
    simpa [MPSCQueue.elements] using hmem
  | bq b =>
    rw [show ns = .anchor b :: us.map .ut from h]
    simp
  | queue | cache | chain =>
    rw [show ns = us.map .ut from h]
    simp

omit [DecidableEq C] in
theorem Layout.notMem (h : Layout st l nodes) (hu : ∀ x, u ∉ l x) (x : Cont K C B) :
    .ut u ∉ nodes x := by
  rw [(h.shows x).mem]
  exact hu x

omit [DecidableEq C] in
/-- The links of a uThread that is in no container are null. -/
theorem Layout.clean (h : Layout st l nodes) (hu : ∀ x, u ∉ l x) :
    st.links (.ut u) = ⟨none, none⟩ :=
  h.family.blank (.ut u) (h.notMem hu)

theorem shows_update (h : ∀ y, Shows y (nodes y) (l y)) (hx : Shows x ns us) (y : Cont K C B) :
    Shows y (Function.update nodes x ns y) (Function.update l x us y) := by
  by_cases hy : y = x
  · subst hy
    rw [Function.update_self, Function.update_self]
    exact hx
  · rw [Function.update_of_ne hy, Function.update_of_ne hy]
    exact h y

/-! ## What becomes of the other containers -/

/-- uThread `u` comes into container `x`. -/
theorem Layout.enter (h : Layout st l nodes) (ns : List (Node U K B)) (hu : ∀ y, u ∉ l y)
    (hx : st'.Holds x st'.links ns) (hs : Shows x ns us)
    (hother : ∀ y, y ≠ x → st'.Holds y = st.Holds y) (hmem : ∀ z, z ∈ ns ↔ z = .ut u ∨ z ∈ nodes x)
    (hframe : ∀ z, z ∉ nodes x → z ≠ .ut u → st'.links z = st.links z) :
    Rep st' (Function.update l x us) := by
  refine ⟨_, h.family.change hx (framed_holds st' x) hother (fun z hz => ?_) (fun z hz hn => ?_)
    fun z hz hn => ?_, shows_update h.shows hs⟩
  · rcases (hmem z).mp hz with rfl | hz
    · exact .inr (h.notMem hu)
    · exact .inl hz
  · exact absurd ((hmem z).mpr (.inr hz)) hn
  · exact hframe z hz fun he => hn ((hmem z).mpr (.inl he))

/-- uThread `u` comes out of container `x`, with null links. -/
theorem Layout.leave (h : Layout st l nodes) (ns : List (Node U K B))
    (hx : st'.Holds x st'.links ns) (hs : Shows x ns us)
    (hother : ∀ y, y ≠ x → st'.Holds y = st.Holds y) (hmem : ∀ z, z ∈ nodes x ↔ z = .ut u ∨ z ∈ ns)
    (hnull : st'.links (.ut u) = ⟨none, none⟩)
    (hframe : ∀ z, z ∉ nodes x → st'.links z = st.links z) : Rep st' (Function.update l x us) := by
  refine ⟨_, h.family.change hx (framed_holds st' x) hother (fun z hz => ?_) (fun z hz hn => ?_)
    fun z hz _ => hframe z hz, shows_update h.shows hs⟩
  · exact .inl ((hmem z).mpr (.inr hz))
  · rcases (hmem z).mp hz with rfl | hz
    · exact hnull
    · exact absurd hz hn

/-- Container `x` has the same nodes still. -/
theorem Layout.keep (h : Layout st l nodes) (hx : st'.Holds x st'.links (nodes x))
    (hother : ∀ y, y ≠ x → st'.Holds y = st.Holds y) (hlinks : st'.links = st.links) :
    Rep st' l := by
  have hfamily := h.family.change hx (framed_holds st' x) hother (fun z hz => .inl hz)
    (fun z hz hn => absurd hz hn) fun z _ _ => congrFun hlinks z
  rw [Function.update_eq_self] at hfamily
  exact ⟨nodes, hfamily, h.shows⟩

/-- The nodes `a` go from container `src` to container `dst`, and `b` stay. -/
theorem Layout.transfer (h : Layout st l nodes) (a b : List (Node U K B)) (hne : dst ≠ src)
    (hsrc : nodes src = a ++ b) (hdisj : a.Disjoint b)
    (hdst' : st'.Holds dst st'.links (nodes dst ++ a)) (hsrc' : st'.Holds src st'.links b)
    (hsdst : Shows dst (nodes dst ++ a) us) (hssrc : Shows src b vs)
    (hother : ∀ y, y ≠ dst → y ≠ src → st'.Holds y = st.Holds y)
    (hframe : ∀ z, z ∉ nodes dst → z ∉ nodes src → st'.links z = st.links z) :
    Rep st' (Function.update (Function.update l src vs) dst us) :=
  ⟨_, h.family.transfer hne hsrc hdisj hdst' hsrc'
    ⟨framed_holds st' dst, framed_holds st' src⟩ hother
    hframe, shows_update (shows_update h.shows hssrc) hsdst⟩

/-! ## Run queues -/

section RunQueue

omit [DecidableEq C] in
theorem Layout.runQueue (h : Layout st l nodes) (k : K) :
    MPSCQueue.Holds (.stub k) (nextOf st.links) (st.runQueue k) (nodes (.runQueue k)) ∧
      NoPrev st.links (nodes (.runQueue k)) ∧
      MPSCQueue.elements (.stub k) (nodes (.runQueue k)) = (l (.runQueue k)).map .ut := by
  obtain ⟨hq, hprev⟩ := h.family.holds (.runQueue k)
  exact ⟨hq, hprev, h.shows (.runQueue k)⟩

theorem elements_map_ut (us : List U) :
    MPSCQueue.elements (.stub k) (us.map (Node.ut : U → Node U K B)) = us.map .ut :=
  MPSCQueue.elements_eq_self (by simp)

omit [DecidableEq U] [DecidableEq C] [DecidableEq B] in
theorem holds_setRunQueue {links : Node U K B → Link (Node U K B)} {r : MPSCQueue (Node U K B)}
    (y : Cont K C B) (hy : y ≠ .runQueue k) :
    Store.Holds { st with links := links, runQueue := Function.update st.runQueue k r } y =
      st.Holds y := by
  cases y with
  | runQueue j =>
    have hj : j ≠ k := fun he => hy (he ▸ rfl)
    funext m ns
    simp only [Store.Holds, Function.update_of_ne hj]
  | queue | bq | cache | chain => rfl

omit [DecidableEq C] in
/-- A chain of uThreads goes to the end of the run queue. -/
theorem Layout.insert (h : Layout st l nodes) (us : List U) {first last : Node U K B}
    {c : Option (Node U K B)} (hseg : Segment (nextOf st.links) (some first) (us.map .ut) c)
    (hlast : (us.map Node.ut).getLast? = some last) (hnodup : us.Nodup)
    (hprev' : NoPrev st.links (us.map .ut)) (hdisj : ∀ u ∈ us, u ∉ l (.runQueue k)) :
    (st.runPush k first last).Holds (.runQueue k) (st.runPush k first last).links
        (nodes (.runQueue k) ++ us.map .ut) ∧
      Shows (.runQueue k : Cont K C B) (nodes (.runQueue k) ++ us.map .ut) (l (.runQueue k) ++ us) ∧
      ∀ z, z ∉ nodes (.runQueue k) → z ∉ us.map .ut →
      (st.runPush k first last).links z = st.links z := by
  obtain ⟨hq, hprev, hs⟩ := h.runQueue k
  have hnd : (us.map (Node.ut : U → Node U K B)).Nodup := hnodup.map fun _ _ he => Node.ut.inj he
  have hdisj' : (nodes (.runQueue k)).Disjoint (us.map .ut) := by
    intro z hz hzu
    obtain ⟨u, hu, rfl⟩ := List.mem_map.mp hzu
    exact hdisj u hu ((h.shows (.runQueue k)).mem.mp hz)
  obtain ⟨hq', hframe⟩ := MPSCQueue.insert_spec hq hseg hlast hnd hdisj'
  refine ⟨⟨?_, fun z hz => ?_⟩, ?_, fun z hz hzu => withNext_eq (hframe z hz hzu)⟩
  · simp only [Store.runPush, Function.update_self]
    exact hq'
  · exact (List.mem_append.mp hz).elim (hprev z) (hprev' z)
  · show MPSCQueue.elements (Node.stub k) (_ ++ _) = List.map Node.ut (_ ++ _)
    rw [MPSCQueue.elements_append, hs, elements_map_ut, List.map_append]

theorem Layout.runPush (h : Layout st l nodes) (hu : ∀ x, u ∉ l x) :
    Rep (st.runPush k (.ut u) (.ut u)) (l.push (.runQueue k) u) := by
  have hclean : NoPrev st.links ([u].map .ut) := by
    intro z hz
    obtain rfl := List.mem_singleton.mp hz
    rw [h.clean hu]
  obtain ⟨hholds, hshows, hframe⟩ := h.insert (k := k) [u] ⟨rfl, rfl⟩ rfl
    (List.nodup_singleton u) hclean (by simpa using hu _)
  refine h.enter (x := .runQueue k) _ hu hholds hshows holds_setRunQueue
    (fun z => ?_) fun z hz hzu => ?_
  · simp [or_comm]
  · exact hframe z hz (by simpa using hzu)

theorem mpsc_nil {r : MPSCQueue (Node U K B)} (h : MPSCQueue.Holds (.stub k) next r ns)
    (he : MPSCQueue.elements (.stub k) ns = []) : ns = [.stub k] := by
  have hall : ∀ z ∈ ns, z = .stub k := by
    intro z hz
    by_contra hne
    have hmem : z ∈ MPSCQueue.elements (.stub k) ns := by simpa [MPSCQueue.elements, hne] using hz
    rw [he] at hmem
    exact List.not_mem_nil hmem
  have hrep := List.eq_replicate_of_mem hall
  have hle : ns.length ≤ 1 := by
    have hn := h.nodup
    rw [hrep, List.nodup_replicate] at hn
    exact hn
  have hpos : 0 < ns.length := List.length_pos_of_mem h.mem
  rw [hrep, show ns.length = 1 by omega]
  rfl

theorem Layout.runPop (h : Layout st l nodes) :
    ∃ st', st.runPop k = some ((l.tryPop (.runQueue k)).1, st') ∧
      Rep st' (l.tryPop (.runQueue k)).2 := by
  obtain ⟨hq, hprev, hs⟩ := h.runQueue k
  unfold Lists.tryPop
  cases hl : l (.runQueue k) with
  | nil =>
    rw [hl] at hs
    have hns := mpsc_nil hq hs
    rw [hns] at hq
    obtain ⟨r, hpop, hq'⟩ := MPSCQueue.pop_empty hq
    have hsame : withNext st.links (nextOf st.links) = st.links := rfl
    refine ⟨{ st with runQueue := Function.update st.runQueue k r }, ?_, ?_⟩
    · simp only [Store.runPop, hpop, Option.bind_some, hsame]
    · refine h.keep (x := .runQueue k) ⟨?_, hprev⟩ holds_setRunQueue rfl
      simp only [Function.update_self, hns]
      exact hq'
  | cons u us =>
    rw [hl, List.map_cons] at hs
    obtain ⟨next', r, ns, hpop, hq', hs', hmem, -, hnull, hframe⟩ := MPSCQueue.pop_spec hq hs
    refine ⟨{ st with
      links := withNext st.links next', runQueue := Function.update st.runQueue k r }, ?_, ?_⟩
    · simp [Store.runPop, hpop, Node.cast]
    · refine h.leave (x := .runQueue k) ns ⟨?_, fun z hz => hprev z ((hmem z).mpr (.inr hz))⟩ hs'
        holds_setRunQueue hmem ?_
        fun z hz => withNext_eq (hframe z hz)
      · simp only [Function.update_self]
        exact hq'
      · rw [Link.ext_iff]
        exact ⟨hprev _ ((hmem _).mpr (.inl rfl)), hnull⟩

end RunQueue

/-! ## Queues -/

section Queue

omit [DecidableEq C] in
theorem Layout.queue (h : Layout st l nodes) (q : Queue K C) :
    nodes (.queue q) = (l (.queue q)).map .ut ∧
      IntrusiveQueue.Holds (nextOf st.links) (st.queue q) ((l (.queue q)).map .ut) ∧
      NoPrev st.links ((l (.queue q)).map .ut) := by
  have hs : nodes (.queue q) = (l (.queue q)).map .ut := h.shows (.queue q)
  have hq := h.family.holds (.queue q)
  rw [hs] at hq
  exact ⟨hs, hq⟩

omit [DecidableEq U] [DecidableEq B] in
theorem holds_setQueue {links : Node U K B → Link (Node U K B)} {r : IntrusiveQueue (Node U K B)}
    (y : Cont K C B) (hy : y ≠ .queue q) :
    Store.Holds { st with links := links, queue := Function.update st.queue q r } y =
    st.Holds y := by
  cases y with
  | queue j =>
    have hj : j ≠ q := fun he => hy (he ▸ rfl)
    funext m ns
    simp only [Store.Holds, Function.update_of_ne hj]
  | runQueue | bq | cache | chain => rfl

omit [DecidableEq U] [DecidableEq B] in
theorem holds_setQueues {links : Node U K B → Link (Node U K B)}
    {r r' : IntrusiveQueue (Node U K B)}
    {j : Queue K C} (y : Cont K C B) (hj : y ≠ .queue j) (hq : y ≠ .queue q) :
    Store.Holds { st with
      links := links, queue := Function.update (Function.update st.queue q r') j r } y =
        st.Holds y := by
  cases y with
  | queue i =>
    have hij : i ≠ j := fun he => hj (he ▸ rfl)
    have hiq : i ≠ q := fun he => hq (he ▸ rfl)
    funext m ns
    simp only [Store.Holds, Function.update_of_ne hij, Function.update_of_ne hiq]
  | runQueue | bq | cache | chain => rfl

omit [DecidableEq C] in
theorem Layout.queueOk (h : Layout st l nodes) (q : Queue K C) : QueueOk (st.queue q) := by
  obtain ⟨-, hq, -⟩ := h.queue q
  rw [QueueOk, hq.head_none_iff, hq.tail, List.getLast?_eq_none_iff]

omit [DecidableEq C] in
theorem Layout.head_ne (h : Layout st l nodes) (hne : l (.queue q) ≠ []) :
    (st.queue q).head ≠ none := by
  obtain ⟨-, hq, -⟩ := h.queue q
  rw [Ne, hq.head_none_iff]
  simpa using hne

theorem Layout.push (h : Layout st l nodes) (hu : ∀ x, u ∉ l x) :
    ∃ st', st.exec (.push q u) = some (.none, st') ∧ Rep st' (l.push (.queue q) u) := by
  obtain ⟨hs, hq, hprev⟩ := h.queue q
  have hnull : nextOf st.links (.ut u) = none := congrArg Link.next (h.clean hu)
  obtain ⟨next', r, hpush, hq', hframe⟩ := IntrusiveQueue.push_spec hq (by simpa using hu _) hnull
  refine ⟨{ st with links := withNext st.links next', queue := Function.update st.queue q r },
    by simp [Store.exec, hpush], ?_⟩
  refine h.enter (x := .queue q) ((l (.queue q)).map .ut ++ [.ut u]) hu ⟨?_, fun z hz => ?_⟩ ?_
    holds_setQueue (fun z => ?_) fun z hz _ => withNext_eq (hframe z (hs ▸ hz))
  · simp only [Function.update_self]
    exact hq'
  · rcases List.mem_append.mp hz with hz | hz
    · exact hprev z hz
    · obtain rfl := List.mem_singleton.mp hz
      exact congrArg Link.prev (h.clean hu)
  · show _ = List.map Node.ut (_ ++ [_])
    rw [List.map_append]
    rfl
  · rw [hs, List.mem_append, List.mem_singleton, or_comm]

theorem Layout.pop (h : Layout st l nodes) (hl : l (.queue q) = u :: us) :
    ∃ st', st.pop q = some (.elem u, st') ∧ Rep st' (Function.update l (.queue q) us) := by
  obtain ⟨hs, hq, hprev⟩ := h.queue q
  rw [hl] at hs hq hprev
  obtain ⟨next', r, hpop, hq', hnull, hframe⟩ := IntrusiveQueue.pop_spec hq
  refine ⟨{ st with links := withNext st.links next', queue := Function.update st.queue q r },
    by simp [Store.pop, hpop, Node.cast], ?_⟩
  refine h.leave (x := .queue q) (u := u) (us.map .ut)
    ⟨?_, fun z hz => hprev z (List.mem_cons_of_mem _ hz)⟩ rfl holds_setQueue (fun z => ?_) ?_
    fun z hz => withNext_eq (hframe z ?_)
  · simp only [Function.update_self]
    exact hq'
  · rw [hs]
    exact List.mem_cons
  · rw [Link.ext_iff]
    exact ⟨hprev _ List.mem_cons_self, hnull⟩
  · rintro rfl
    rw [hs] at hz
    exact hz List.mem_cons_self

/-- The first `n` elements of one queue have gone to the end of another. -/
theorem Layout.moved (h : Layout st l nodes) {i j : Queue K C} (hne : i ≠ j) {n : ℕ}
    {next' : Node U K B → Option (Node U K B)} {r r' : IntrusiveQueue (Node U K B)}
    (hi : IntrusiveQueue.Holds next' r ((l (.queue i)).map .ut ++ ((l (.queue j)).map .ut).take n))
    (hj : IntrusiveQueue.Holds next' r' (((l (.queue j)).map .ut).drop n))
    (hframe : ∀ z, z ∉ (l (.queue i)).map .ut → z ∉ (l (.queue j)).map .ut →
      next' z = nextOf st.links z) :
    Rep { st with
      links := withNext st.links next'
      queue := Function.update (Function.update st.queue j r') i r }
        (l.move (.queue i) (.queue j) n) := by
  obtain ⟨hsi, -, hprevi⟩ := h.queue i
  obtain ⟨hsj, -, hprevj⟩ := h.queue j
  have hnd : (l (.queue j)).map (Node.ut : U → Node U K B) |>.Nodup := (h.queue j).2.1.nodup
  refine h.transfer (((l (.queue j)).map .ut).take n) (((l (.queue j)).map .ut).drop n)
    (by simpa using hne) (by rw [hsj, List.take_append_drop]) ?_ ⟨?_, fun z hz => ?_⟩
      ⟨?_, fun z hz => ?_⟩
    ?_ ?_ holds_setQueues fun z hz hz' => ?_
  · rw [← List.take_append_drop n ((l (.queue j)).map Node.ut), List.nodup_append'] at hnd
    exact hnd.2.2
  · simp only [Function.update_self, hsi]
    exact hi
  · rcases List.mem_append.mp hz with hz | hz
    · exact hprevi z (hsi ▸ hz)
    · exact hprevj z (List.mem_of_mem_take hz)
  · simp only [Function.update_of_ne (Ne.symm hne), Function.update_self]
    exact hj
  · exact hprevj z (List.mem_of_mem_drop hz)
  · show _ = List.map Node.ut _
    rw [hsi, List.map_append, List.map_take]
  · exact List.map_drop.symm
  · exact withNext_eq (hframe z (hsi ▸ hz) (hsj ▸ hz'))

omit [DecidableEq C] in
theorem Layout.disjoint (h : Layout st l nodes) {i j : Queue K C} (hne : i ≠ j) :
    ((l (.queue i)).map (Node.ut : U → Node U K B)).Disjoint ((l (.queue j)).map .ut) := by
  rw [← (h.queue i).1, ← (h.queue j).1]
  exact h.family.disjoint (by simpa using hne)

theorem Layout.transferFrom (h : Layout st l nodes) {i j : Queue K C} {n : ℕ} (hne : i ≠ j)
    (hl : l (.queue j) ≠ []) (hn : 0 < n) :
    ∃ st', st.exec (.transferFrom i j n) = some (.count (min n (l (.queue j)).length), st') ∧
      Rep st' (l.move (.queue i) (.queue j) n) := by
  obtain ⟨next', r, r', hcall, hi, hj, hframe⟩ := IntrusiveQueue.transferFrom_spec (h.queue i).2.1
    (h.queue j).2.1 (by simpa using hl) (h.disjoint hne) hn
  refine ⟨_, ?_, h.moved hne hi hj hframe⟩
  rw [Store.exec, hcall, List.length_map]
  rfl

theorem Layout.transferAllFrom (h : Layout st l nodes) {i j : Queue K C} (hne : i ≠ j)
    (hl : l (.queue j) ≠ []) :
    ∃ st', st.exec (.transferAllFrom i j) = some (.none, st') ∧
      Rep st' (l.move (.queue i) (.queue j) (l (.queue j)).length) := by
  obtain ⟨next', r, hcall, hi, hframe⟩ := IntrusiveQueue.transferAllFrom_spec (h.queue i).2.1
    (h.queue j).2.1 (by simpa using hl) (h.disjoint hne)
  have hlen : (l (.queue j)).length = ((l (.queue j)).map (Node.ut : U → Node U K B)).length := by
    simp
  refine ⟨_, by rw [Store.exec, hcall]; rfl, h.moved hne ?_ ?_ hframe⟩
  · rw [hlen, List.take_length]
    exact hi
  · rw [hlen, List.drop_length]
    exact IntrusiveQueue.holds_new

end Queue

/-! ## The chain -/

section Chain

omit [DecidableEq C] in
theorem Layout.chain (h : Layout st l nodes) : nodes .chain = (l .chain).map .ut := h.shows .chain

theorem Layout.removeAll (h : Layout st l nodes) (hl : l (.queue q) ≠ []) (hchain : l .chain = []) :
    ∃ st', st.removeAll q = some st' ∧ Rep st'
    (l.move .chain (.queue q) (l (.queue q)).length) := by
  obtain ⟨hs, hq, hprev⟩ := h.queue q
  obtain ⟨first, last, next', hfirst, hcall, hseg, hlast, hframe⟩ :=
    IntrusiveQueue.removeAll_spec hq (by simpa using hl)
  have hnil : nodes .chain = [] := by rw [h.chain, hchain, List.map_nil]
  refine ⟨_, by rw [Store.removeAll, hfirst, Option.bind_some, hcall]; rfl, ?_⟩
  rw [Lists.move, List.drop_length, List.take_length]
  refine h.transfer ((l (.queue q)).map .ut) [] (by simp) (by rw [hs, List.append_nil]) (by simp)
    ⟨⟨?_, ?_⟩, fun z hz => ?_⟩ ⟨?_, by simp [NoPrev]⟩ ?_ rfl (fun y hy hy' => ?_) fun z _ hz => ?_
  · rw [hnil]
    exact hseg
  · rw [hnil]
    exact hlast
  · rw [hnil] at hz
    exact hprev z hz
  · simp only [Function.update_self]
    exact IntrusiveQueue.holds_new
  · show _ = List.map Node.ut _
    rw [hnil, hchain]
    rfl
  · cases y with
    | chain => exact absurd rfl hy
    | queue j =>
      have hj : j ≠ q := fun he => hy' (he ▸ rfl)
      funext m ns
      simp only [Store.Holds, Function.update_of_ne hj]
    | runQueue | bq | cache => rfl
  · exact withNext_eq (hframe z (hs ▸ hz))

theorem Layout.runPushChain (h : Layout st l nodes) (hl : l .chain ≠ []) :
    ∃ st', st.exec (.runPushChain k) = some (.none, st') ∧
      Rep st' (l.move (.runQueue k) .chain (l .chain).length) := by
  obtain ⟨hchain, hprev⟩ := h.family.holds .chain
  rw [h.chain] at hchain hprev
  split at hchain
  next => simp [hl] at hchain
  next first last hst =>
    obtain ⟨hseg, hlast⟩ := hchain
    have hdisj : ∀ u ∈ l .chain, u ∉ l (.runQueue k) := by
      intro u hu hu'
      have hne := h.family.one (x := .ut u) ((h.shows .chain).mem.mpr hu)
        ((h.shows (.runQueue k)).mem.mpr hu')
      cases hne
    obtain ⟨hholds, hshows, hframe⟩ := h.insert (k := k) (l .chain) hseg hlast
      (hseg.nodup.of_map _) hprev hdisj
    refine ⟨_, by rw [Store.exec, hst]; rfl, ?_⟩
    rw [Lists.move, List.drop_length, List.take_length]
    refine h.transfer ((l .chain).map .ut) [] (by simp) (by rw [h.chain, List.append_nil]) (by simp)
      hholds ⟨rfl, by simp [NoPrev]⟩ hshows rfl (fun y hy hy' => ?_) fun z hz hz' => ?_
    · cases y with
      | chain => exact absurd rfl hy'
      | runQueue j =>
        have hj : j ≠ k := fun he => hy (he ▸ rfl)
        funext m ns
        simp only [Store.Holds, Store.runPush, Function.update_of_ne hj]
      | queue | bq | cache => rfl
    · exact hframe z hz (h.chain ▸ hz')

end Chain

/-! ## Blocking queues -/

section Blocking

variable {b : B}

omit [DecidableEq C] in
theorem Layout.bq (h : Layout st l nodes) (b : B) :
    nodes (.bq b) = .anchor b :: (l (.bq b)).map .ut ∧
      LinkRing st.links (.anchor b) ((l (.bq b)).map .ut) := by
  have hs : nodes (.bq b) = .anchor b :: (l (.bq b)).map .ut := h.shows (.bq b)
  obtain ⟨r, hr, hring⟩ := h.family.holds (.bq b)
  rw [hs, List.cons.injEq] at hr
  rw [hr.2]
  exact ⟨hr.2 ▸ hs, hring⟩

omit [DecidableEq C] in
theorem Layout.onList (h : Layout st l nodes) {z : Node U K B}
    (hz : z ∈ Node.anchor b :: (l (.bq b)).map .ut) : OnList st z := by
  obtain ⟨-, hring⟩ := h.bq b
  obtain ⟨w, -, hw⟩ := hring.exists_prev hz
  obtain ⟨v, -, hv⟩ := hring.exists_next hz
  rw [OnList, hw.2, hv.1]
  exact ⟨Option.some_ne_none w, Option.some_ne_none v⟩

omit [DecidableEq C] in
theorem Layout.empty_iff (h : Layout st l nodes) :
    ListStore.empty st.links (.anchor b) = true ↔ l (.bq b) = [] := by
  obtain ⟨-, hring⟩ := h.bq b
  cases hl : l (.bq b) with
  | nil =>
    rw [hl] at hring
    have hadj : Adj st.links (Node.anchor b) (.anchor b) :=
      LinkRing.adj (u := []) (v := []) hring rfl rfl
    simp [ListStore.empty, hadj.1]
  | cons u us =>
    rw [hl] at hring
    have hadj : Adj st.links (Node.anchor b) (.ut u) := LinkRing.adj (u := []) hring rfl rfl
    simp [ListStore.empty, hadj.1]

theorem Layout.pushBack (h : Layout st l nodes) (hu : ∀ x, u ∉ l x) :
    Asserts st (.pushBack b u) ∧
      ∃ st', st.exec (.pushBack b u) = some (.none, st') ∧ Rep st' (l.push (.bq b) u) := by
  obtain ⟨hs, hring⟩ := h.bq b
  have hclean := h.clean hu
  have hchain : LinkedChain st.links (.ut u) [.ut u] (.ut u) :=
    LinkedChain.singleton (by rw [hclean]) (by rw [hclean])
  obtain ⟨links, hcall, hring', hframe⟩ := ListStore.spliceBack_ring hring hchain
  refine ⟨⟨hclean, ?_⟩, { st with links := links }, ?_, ?_⟩
  · obtain ⟨back, hback, hadj⟩ := hring.exists_prev List.mem_cons_self
    exact ⟨back, hadj.2, h.onList hback⟩
  · rw [Store.exec, ListStore.pushBack, hcall]
    rfl
  · refine h.enter (x := .bq b) (.anchor b :: ((l (.bq b)).map .ut ++ [.ut u])) hu
      ⟨_, rfl, hring'⟩ ?_ (fun y _ => ?_) (fun z => ?_) fun z hz hzu => ?_
    · show _ = Node.anchor b :: List.map Node.ut (_ ++ [_])
      rw [List.map_append]
      rfl
    · cases y <;> rfl
    · rw [hs]
      simp only [List.mem_cons, List.mem_append, List.not_mem_nil, or_false]
      tauto
    · exact hframe z (hs ▸ hz) (by simpa using hzu)

theorem Layout.popFront (h : Layout st l nodes) (hl : l (.bq b) = u :: us) :
    ∃ st', st.popFront b = some (.elem u, st') ∧ Rep st' (Function.update l (.bq b) us) := by
  obtain ⟨hs, hring⟩ := h.bq b
  rw [hl] at hs hring
  have hfront : Adj st.links (Node.anchor b) (.ut u) := LinkRing.adj (u := []) hring rfl rfl
  obtain ⟨links, hcall, hnull, hring', hframe⟩ := ListStore.remove_ring (u := []) hring
  refine ⟨{ st with links := links }, ?_, ?_⟩
  · simp [Store.popFront, ListStore.popFront, hfront.1, hcall, Node.cast]
  · refine h.leave (x := .bq b) (u := u) (.anchor b :: us.map .ut) ⟨_, rfl, hring'⟩ rfl
      (fun y _ => ?_) (fun z => ?_) hnull fun z hz => hframe z (hs ▸ hz)
    · cases y <;> rfl
    · rw [hs]
      simp only [List.map_cons, List.mem_cons]
      tauto

theorem Layout.tryPopFront (h : Layout st l nodes) :
    Asserts st (.tryPopFront b) ∧
      ∃ st', st.exec (.tryPopFront b) = some ((l.tryPop (.bq b)).1, st') ∧
        Rep st' (l.tryPop (.bq b)).2 := by
  obtain ⟨-, hring⟩ := h.bq b
  constructor
  · intro _
    obtain ⟨front, hfront, hadj⟩ := hring.exists_next List.mem_cons_self
    exact ⟨front, hadj.1, h.onList hfront⟩
  · unfold Lists.tryPop
    cases hl : l (.bq b) with
    | nil =>
      refine ⟨st, ?_, nodes, h⟩
      rw [Store.exec, if_pos (h.empty_iff.mpr hl)]
    | cons u us =>
      obtain ⟨st', hpop, hrep⟩ := h.popFront hl
      refine ⟨st', ?_, hrep⟩
      rw [Store.exec, if_neg, hpop]
      rw [h.empty_iff, hl]
      exact List.cons_ne_nil u us

end Blocking

/-! ## The cache -/

section Cache

omit [DecidableEq C] in
theorem Layout.cache (h : Layout st l nodes) :
    nodes .cache = (l .cache).map .ut ∧
      IntrusiveStack.Holds (nextOf st.links) st.stack ((l .cache).map .ut) ∧
      NoPrev st.links ((l .cache).map .ut) := by
  have hs : nodes .cache = (l .cache).map .ut := h.shows .cache
  have hst := h.family.holds .cache
  rw [hs] at hst
  exact ⟨hs, hst⟩

omit [DecidableEq U] [DecidableEq K] [DecidableEq C] [DecidableEq B] in
theorem holds_setStack {links : Node U K B → Link (Node U K B)} {r : IntrusiveStack (Node U K B)}
    (y : Cont K C B) (hy : y ≠ .cache) :
    Store.Holds { st with links := links, stack := r } y = st.Holds y := by
  cases y with
  | cache => exact absurd rfl hy
  | runQueue | queue | bq | chain => rfl

theorem Layout.cachePush (h : Layout st l nodes) (hu : ∀ x, u ∉ l x) :
    ∃ st', st.exec (.cachePush u) = some (.none, st') ∧
      Rep st' (Function.update l .cache (u :: l .cache)) := by
  obtain ⟨hs, hst, hprev⟩ := h.cache
  have hst' := IntrusiveStack.push_spec hst (x := .ut u) (by simpa using hu _)
  refine ⟨_, rfl, h.enter (x := .cache) (.ut u :: (l .cache).map .ut) hu ⟨hst', fun z hz => ?_⟩ rfl
    holds_setStack (fun z => ?_) fun z _ hzu => withNext_eq (Function.update_of_ne hzu ..)⟩
  · rcases List.mem_cons.mp hz with rfl | hz
    · exact congrArg Link.prev (h.clean hu)
    · exact hprev z hz
  · rw [hs]
    exact List.mem_cons

theorem Layout.cachePop (h : Layout st l nodes) (hl : l .cache = u :: us) :
    st.stack.head ≠ none ∧
      ∃ st', st.exec .cachePop = some (.elem u, st') ∧ Rep st' (Function.update l .cache us) := by
  obtain ⟨hs, hst, hprev⟩ := h.cache
  rw [hl] at hs hst hprev
  obtain ⟨hpop, hst'⟩ := IntrusiveStack.pop_spec hst
  refine ⟨by rw [hst.segment.1]; exact Option.some_ne_none _, _, by rw [Store.exec, hpop]; rfl, ?_⟩
  refine h.leave (x := .cache) (u := u) (us.map .ut)
    ⟨hst', fun z hz => hprev z (List.mem_cons_of_mem _ hz)⟩ rfl holds_setStack (fun z => ?_) ?_
    fun z hz => withNext_eq (Function.update_of_ne ?_ ..)
  · rw [hs]
    exact List.mem_cons
  · rw [Link.ext_iff]
    exact ⟨hprev _ List.mem_cons_self, Function.update_self ..⟩
  · rintro rfl
    rw [hs] at hz
    exact hz List.mem_cons_self

end Cache

/-! ## Every operation -/

/-- What an operation on lists needs so that it can be done on links. -/
def Op.Pre (l : Lists U K C B) : Op U K C B → Prop
  | .none | .runPop _ | .tryPop _ | .tryPopFront _ => True
  | .runPush _ u | .push _ u | .pushBack _ u | .cachePush u => ∀ x, u ∉ l x
  | .pop q => l (.queue q) ≠ []
  | .transferFrom dst src n => l (.queue src) ≠ [] ∧ dst ≠ src ∧ 0 < n
  | .transferAllFrom dst src => l (.queue src) ≠ [] ∧ dst ≠ src
  | .removeAll q => l (.queue q) ≠ [] ∧ l .chain = []
  | .runPushChain _ => l .chain ≠ []
  | .cachePop => l .cache ≠ []

omit [DecidableEq U] in
theorem Lists.pop_of_ne_nil (h : l x ≠ []) :
    ∃ u us, l x = u :: us ∧ l.pop x = some (.elem u, Function.update l x us) := by
  obtain ⟨u, us, hl⟩ := List.exists_cons_of_ne_nil h
  exact ⟨u, us, hl, by simp [Lists.pop, hl]⟩

/-- **The refinement.** An operation on the links does what the operation on lists does, and its
assertions hold. -/
theorem Rep.exec (h : Rep st l) {op : Op U K C B} (hpre : op.Pre l) :
    Asserts st op ∧ ∃ r st' l', st.exec op = some (r, st') ∧ l.exec op = some (r, l') ∧
    Rep st' l' := by
  obtain ⟨nodes, h⟩ := h
  cases op with
  | none => exact ⟨trivial, .none, st, l, rfl, rfl, nodes, h⟩
  | runPush k u => exact ⟨trivial, .none, _, _, rfl, rfl, h.runPush hpre⟩
  | runPop k =>
    obtain ⟨st', hcall, hrep⟩ := h.runPop (k := k)
    exact ⟨trivial, _, st', _, hcall, rfl, hrep⟩
  | push q u =>
    obtain ⟨st', hcall, hrep⟩ := h.push hpre
    exact ⟨⟨h.queueOk q, congrArg Link.next (h.clean hpre)⟩, .none, st', _, hcall, rfl, hrep⟩
  | tryPop q =>
    refine ⟨h.queueOk q, ?_⟩
    cases hl : l (.queue q) with
    | nil =>
      refine ⟨.none, st, l, ?_, by simp [Lists.exec, Lists.tryPop, hl], nodes, h⟩
      rw [Store.exec, if_pos ((h.queue q).2.1.head_none_iff.mpr (by rw [hl]; rfl))]
    | cons u us =>
      obtain ⟨st', hcall, hrep⟩ := h.pop hl
      refine ⟨.elem u, st', _, ?_, by simp [Lists.exec, Lists.tryPop, hl], hrep⟩
      rw [Store.exec, if_neg (h.head_ne (by rw [hl]; exact List.cons_ne_nil u us)), hcall]
  | pop q =>
    obtain ⟨u, us, hl, hpop⟩ := Lists.pop_of_ne_nil hpre
    obtain ⟨st', hcall, hrep⟩ := h.pop hl
    exact ⟨⟨h.queueOk q, h.head_ne hpre⟩, .elem u, st', _, hcall, hpop, hrep⟩
  | transferFrom dst src n =>
    obtain ⟨hl, hne, hn⟩ := hpre
    obtain ⟨st', hcall, hrep⟩ := h.transferFrom hne hl hn
    refine ⟨⟨h.queueOk dst, h.queueOk src, h.head_ne hl, fun last m next q hpop => ?_⟩, _,
      st', _, hcall, ?_, hrep⟩
    · obtain ⟨first, -, he⟩ := Option.map_eq_some_iff.mp hpop
      simp only [Prod.mk.injEq] at he
      obtain ⟨rfl, -, rfl, -⟩ := he
      exact Function.update_self ..
    · rw [Lists.exec, if_neg hl, Nat.max_eq_left hn]
  | transferAllFrom dst src =>
    obtain ⟨hl, hne⟩ := hpre
    obtain ⟨st', hcall, hrep⟩ := h.transferAllFrom hne hl
    refine ⟨⟨h.queueOk dst, h.queueOk src, h.head_ne hl⟩, .none, st', _, hcall, ?_, hrep⟩
    rw [Lists.exec, if_neg hl]
  | removeAll q =>
    obtain ⟨hl, hchain⟩ := hpre
    obtain ⟨st', hcall, hrep⟩ := h.removeAll hl hchain
    refine ⟨⟨h.queueOk q, h.head_ne hl⟩, .none, st', _, by rw [Store.exec, hcall]; rfl, ?_, hrep⟩
    rw [Lists.exec, if_neg hl]
  | runPushChain k =>
    obtain ⟨st', hcall, hrep⟩ := h.runPushChain (k := k) hpre
    refine ⟨trivial, .none, st', _, hcall, ?_, hrep⟩
    rw [Lists.exec, if_neg hpre]
  | pushBack b u =>
    obtain ⟨hasserts, st', hcall, hrep⟩ := h.pushBack (b := b) hpre
    exact ⟨hasserts, .none, st', _, hcall, rfl, hrep⟩
  | tryPopFront b =>
    obtain ⟨hasserts, st', hcall, hrep⟩ := h.tryPopFront (b := b)
    exact ⟨hasserts, _, st', _, hcall, rfl, hrep⟩
  | cachePush u =>
    obtain ⟨st', hcall, hrep⟩ := h.cachePush hpre
    exact ⟨congrArg Link.next (h.clean hpre), .none, st', _, hcall, rfl, hrep⟩
  | cachePop =>
    obtain ⟨u, us, hl, hpop⟩ := Lists.pop_of_ne_nil hpre
    obtain ⟨hhead, st', hcall, hrep⟩ := h.cachePop hl
    exact ⟨hhead, .elem u, st', _, hcall, hpop, hrep⟩

end UThreads.Handover
