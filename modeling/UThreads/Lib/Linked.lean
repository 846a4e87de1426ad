import UThreads.Lib.Segment
import Mathlib.Data.List.Chain

/-!
# Doubly linked nodes

Nodes with two links. Two nodes are adjacent when each links to the other (`Adj`).

* `LinkRing L a l`: the nodes `l` stand in a circle with `a`, and are all different.
* `LinkedChain L first m last`: the nodes `m` stand in a row, with null at both ends.

A chain is put into a ring, or taken out of it, between two nodes `p` and `n`. What is written is
given by `Spliced` and `Cut`, which do not depend on the order of the writes.

* `LinkRing.splice`, `LinkRing.cut`: the chain goes in, or comes out.
* `LinkRing.disjoint`: no node of a chain is on a ring.
-/

/-- The links of a node. -/
@[ext]
structure Link (N : Type*) where
  prev : Option N
  next : Option N
  deriving DecidableEq

variable {N : Type*}

section Writes

variable [DecidableEq N] (L : N → Link N) (x y : N) (v : Option N)

def setNext : N → Link N := Function.update L x { L x with next := v }

def setPrev : N → Link N := Function.update L x { L x with prev := v }

@[simp] theorem setNext_next : (setNext L x v y).next = if y = x then v else (L y).next := by
  by_cases h : y = x
  · simp [setNext, h]
  · simp [setNext, h]

@[simp] theorem setNext_prev : (setNext L x v y).prev = (L y).prev := by
  by_cases h : y = x
  · simp [setNext, h]
  · simp [setNext, h]

@[simp] theorem setPrev_prev : (setPrev L x v y).prev = if y = x then v else (L y).prev := by
  by_cases h : y = x
  · simp [setPrev, h]
  · simp [setPrev, h]

@[simp] theorem setPrev_next : (setPrev L x v y).next = (L y).next := by
  by_cases h : y = x
  · simp [setPrev, h]
  · simp [setPrev, h]

end Writes

variable {L L' : N → Link N} {a p n x y first last : N} {l u v m : List N}

/-- Node `y` comes after `x`. -/
def Adj (L : N → Link N) (x y : N) : Prop := (L x).next = some y ∧ (L y).prev = some x

structure LinkRing (L : N → Link N) (a : N) (l : List N) : Prop where
  linked : ((a :: l) ++ [a]).IsChain (Adj L)
  nodup : (a :: l).Nodup

structure LinkedChain (L : N → Link N) (first : N) (m : List N) (last : N) : Prop where
  linked : m.IsChain (Adj L)
  head : m.head? = some first
  getLast : m.getLast? = some last
  prev : (L first).prev = none
  next : (L last).next = none

/-! ## Rows of nodes -/

/-- The last node's `next` and the first node's `prev` do not matter. -/
theorem isChain_adj_congr (h : l.IsChain (Adj L))
    (hnext : ∀ x ∈ l.dropLast, (L' x).next = (L x).next)
    (hprev : ∀ x ∈ l.tail, (L' x).prev = (L x).prev) : l.IsChain (Adj L') := by
  rw [List.isChain_iff_forall_rel_of_append_cons_cons] at h ⊢
  rintro x y u v rfl
  obtain ⟨hx, hy⟩ := h rfl
  constructor
  · rw [hnext x (by simp), hx]
  · rw [hprev y (by cases u <;> simp), hy]

theorem segment_iff_isChain {next : N → Option N} :
    Segment next (some x) (x :: l) (some y) ↔ ((x :: l) ++ [y]).IsChain fun x y =>
    next x = some y := by
  induction l generalizing x with
  | nil => simp
  | cons z l ih =>
    rw [List.cons_append, List.cons_append, List.isChain_cons_cons, ← List.cons_append, ← ih]
    simp

/-- A row of nodes, read from the front. -/
theorem isChain_adj_segment (h : l.IsChain (Adj L)) (hfirst : l.head? = some first)
    (hlast : l.getLast? = some last) :
    Segment (fun x => (L x).next) (some first) l (L last).next := by
  induction l generalizing first with
  | nil => simp at hfirst
  | cons x l ih =>
    obtain rfl : x = first := by simpa using hfirst
    refine ⟨rfl, ?_⟩
    cases l with
    | nil =>
      obtain rfl : x = last := by simpa using hlast
      rfl
    | cons y l =>
      rw [List.isChain_cons_cons] at h
      show Segment _ (L x).next (y :: l) _
      rw [h.1.1]
      exact ih h.2 rfl (by simpa using hlast)

namespace LinkedChain

theorem segment (h : LinkedChain L first m last) :
    Segment (fun x => (L x).next) (some first) m none := by
  rw [← h.next]
  exact isChain_adj_segment h.linked h.head h.getLast

theorem nodup (h : LinkedChain L first m last) : m.Nodup := h.segment.nodup

/-- A chain depends on the links of its own nodes only. -/
theorem congr (h : LinkedChain L first m last) (hc : ∀ x ∈ m, L' x = L x) :
    LinkedChain L' first m last := by
  refine ⟨isChain_adj_congr h.linked (fun x hx => ?_) fun x hx => ?_, h.head, h.getLast, ?_, ?_⟩
  · rw [hc x (List.dropLast_subset _ hx)]
  · rw [hc x (List.mem_of_mem_tail hx)]
  · rw [hc first (List.mem_of_mem_head? h.head), h.prev]
  · rw [hc last (List.mem_of_getLast? h.getLast), h.next]

theorem singleton (hprev : (L x).prev = none) (hnext : (L x).next = none) : LinkedChain L x [x] x :=
  ⟨List.isChain_singleton x, rfl, rfl, hprev, hnext⟩

end LinkedChain

/-! ## Rings -/

namespace LinkRing

theorem nil (hnext : (L a).next = some a) (hprev : (L a).prev = some a) : LinkRing L a [] :=
  ⟨List.isChain_pair.mpr ⟨hnext, hprev⟩, List.nodup_singleton a⟩

/-- A ring, read in both directions. -/
theorem iff_segments : LinkRing L a l ↔ Segment (fun x => (L x).next) (some a) (a :: l) (some a) ∧
    Segment (fun x => (L x).prev) (some a) (a :: l.reverse) (some a) ∧ (a :: l).Nodup := by
  have hrev : (a :: l.reverse) ++ [a] = ((a :: l) ++ [a]).reverse := by simp
  rw [segment_iff_isChain, segment_iff_isChain, hrev, List.isChain_reverse]
  simp only [List.isChain_iff_forall_rel_of_append_cons_cons]
  refine ⟨fun h => ?_, fun h => ?_⟩
  · have hl := List.isChain_iff_forall_rel_of_append_cons_cons.mp h.linked
    exact ⟨fun _ _ _ _ he => (hl he).1, fun _ _ _ _ he => (hl he).2, h.nodup⟩
  · refine ⟨List.isChain_iff_forall_rel_of_append_cons_cons.mpr fun _ _ _ _ he => ?_, h.2.2⟩
    exact ⟨h.1 he, h.2.1 he⟩

/-- A ring depends on the links of its own nodes only. -/
theorem congr (h : LinkRing L a l) (hc : ∀ x ∈ a :: l, L' x = L x) : LinkRing L' a l := by
  refine ⟨isChain_adj_congr h.linked (fun x hx => ?_) fun x hx => ?_, h.nodup⟩
  · rw [List.dropLast_concat] at hx
    rw [hc x hx]
  · rw [hc x (by simpa [or_comm] using hx)]

/-- The nodes on the two sides of a place in the ring are adjacent. -/
theorem adj (h : LinkRing L a (u ++ v)) (hp : (a :: u).getLast? = some p)
    (hn : (v ++ [a]).head? = some n) : Adj L p n := by
  have hl := h.linked
  rw [← List.cons_append, List.append_assoc, List.isChain_append] at hl
  exact hl.2.2 p hp n hn

theorem exists_prev (h : LinkRing L a l) (hx : x ∈ a :: l) : ∃ y ∈ a :: l, Adj L y x := by
  -- The node before `x`; the one before `a` is the last one.
  obtain ⟨u, v, hl, hn⟩ : ∃ u v, l = u ++ v ∧ (v ++ [a]).head? = some x := by
    rcases List.mem_cons.mp hx with rfl | hx
    · exact ⟨l, [], by simp, by simp⟩
    · obtain ⟨u, v, rfl⟩ := List.append_of_mem hx
      exact ⟨u, x :: v, rfl, by simp⟩
  subst hl
  refine ⟨_, ?_, h.adj (List.getLast?_eq_some_getLast (List.cons_ne_nil a u)) hn⟩
  rw [← List.cons_append]
  exact List.mem_append_left _ (List.getLast_mem _)

theorem exists_next (h : LinkRing L a l) (hx : x ∈ a :: l) : ∃ y ∈ a :: l, Adj L x y := by
  obtain ⟨u, v, hl, hp⟩ : ∃ u v, l = u ++ v ∧ (a :: u).getLast? = some x := by
    rcases List.mem_cons.mp hx with rfl | hx
    · exact ⟨[], l, by simp, by simp⟩
    · obtain ⟨u, v, rfl⟩ := List.append_of_mem hx
      exact ⟨u ++ [x], v, by simp, by rw [← List.cons_append, List.getLast?_concat]⟩
  subst hl
  cases v with
  | nil => exact ⟨a, by simp, h.adj hp rfl⟩
  | cons y v => exact ⟨y, by simp, h.adj hp rfl⟩

/-- A ring, read from the front. -/
theorem segment (h : LinkRing L a (u ++ v)) :
    Segment (fun x => (L x).next) (v ++ [a]).head? v (some a) := by
  have hl := h.linked
  rw [← List.cons_append, List.append_assoc] at hl
  have hseg := isChain_adj_segment hl.right_of_append
    (List.head?_eq_some_head (List.concat_ne_nil a v)) List.getLast?_concat
  rw [← List.head?_eq_some_head, Segment.concat] at hseg
  exact hseg.1

theorem unique (h : LinkRing L a l) (h' : LinkRing L a m) : l = m := by
  have hstart : ∀ {k}, LinkRing L a k → Segment (fun x => (L x).next) (L a).next k (some a) ∧
      a ∉ k := by
    intro k hk
    refine ⟨?_, (List.nodup_cons.mp hk.nodup).1⟩
    have hadj : Adj L a ((k ++ [a]).head (List.concat_ne_nil a k)) :=
      LinkRing.adj (u := []) hk rfl (List.head?_eq_some_head _)
    rw [hadj.1, ← List.head?_eq_some_head]
    exact LinkRing.segment (u := []) hk
  obtain ⟨hl, hal⟩ := hstart h
  obtain ⟨hm, ham⟩ := hstart h'
  refine hl.unique hm (fun y hy he => ?_) fun y hy he => ?_
  · exact hal (Option.some.inj he ▸ hy)
  · exact ham (Option.some.inj he ▸ hy)

/-- A chain begins with null, so that none of its nodes is on a ring. -/
theorem disjoint (h : LinkRing L a l) (hm : LinkedChain L first m last) (hx : x ∈ m) :
    x ∉ a :: l := by
  have hfirst : first ∉ a :: l := by
    intro hmem
    obtain ⟨y, -, hy⟩ := h.exists_prev hmem
    exact absurd hy.2 (by simp [hm.prev])
  obtain ⟨m', rfl⟩ := List.head?_eq_some_iff.mp hm.head
  rcases List.mem_cons.mp hx with rfl | hx
  · exact hfirst
  · refine hm.linked.cons_induction (· ∉ a :: l) m' (fun x y hxy hnot hmem => ?_) hfirst x hx
    obtain ⟨z, hz, hzy⟩ := h.exists_prev hmem
    obtain rfl : z = x := Option.some.inj (hzy.2.symm.trans hxy.2)
    exact hnot hz

end LinkRing

/-! ## Chains go in and come out -/

/-- The nodes `m`, from `first` to `last`, stand between `p` and `n` on the ring of `a`. -/
structure Gap (a : N) (u m v : List N) (p first last n : N) : Prop where
  nodup : (a :: (u ++ m ++ v)).Nodup
  p : (a :: u).getLast? = some p
  head : m.head? = some first
  getLast : m.getLast? = some last
  n : (v ++ [a]).head? = some n

/-- What is written to put the nodes from `first` to `last` between `p` and `n`. -/
structure Spliced (L L' : N → Link N) (p first last n : N) : Prop where
  next_p : (L' p).next = some first
  prev_first : (L' first).prev = some p
  next_last : (L' last).next = some n
  prev_n : (L' n).prev = some last
  next : ∀ x, x ≠ p → x ≠ last → (L' x).next = (L x).next
  prev : ∀ x, x ≠ first → x ≠ n → (L' x).prev = (L x).prev

/-- What is written to take the nodes from `first` to `last` out, which stood between `p` and
`n`. -/
structure Cut (L L' : N → Link N) (p first last n : N) : Prop where
  next_p : (L' p).next = some n
  prev_n : (L' n).prev = some p
  prev_first : (L' first).prev = none
  next_last : (L' last).next = none
  next : ∀ x, x ≠ p → x ≠ last → (L' x).next = (L x).next
  prev : ∀ x, x ≠ first → x ≠ n → (L' x).prev = (L x).prev

theorem List.Nodup.notMem_dropLast (h : l.Nodup) (hx : l.getLast? = some x) : x ∉ l.dropLast := by
  obtain ⟨l, rfl⟩ := List.getLast?_eq_some_iff.mp hx
  rw [List.dropLast_concat]
  exact fun hmem => (List.nodup_append'.mp h).2.2 hmem (by simp)

theorem List.Nodup.notMem_tail (h : l.Nodup) (hx : l.head? = some x) : x ∉ l.tail := by
  obtain ⟨l, rfl⟩ := List.head?_eq_some_iff.mp hx
  exact (List.nodup_cons.mp h).1

namespace Gap

theorem ne (g : Gap a u m v p first last n) : first ≠ p ∧ last ≠ p ∧ first ≠ n ∧ last ≠ n := by
  have hp : p ∈ a :: u := List.mem_of_getLast? g.p
  have hn : n ∈ v ++ [a] := List.mem_of_mem_head? g.n
  have hnd := g.nodup
  simp only [List.nodup_cons, List.nodup_append', List.mem_append, not_or] at hnd
  obtain ⟨⟨⟨-, ham⟩, -⟩, ⟨-, -, hum⟩, -, hv⟩ := hnd
  have hpm : p ∉ m := by
    rcases List.mem_cons.mp hp with rfl | hp
    · exact ham
    · exact hum hp
  have hnm : n ∉ m := by
    intro hmem
    rcases List.mem_append.mp hn with hn | hn
    · exact hv (List.mem_append_right _ hmem) hn
    · rw [List.mem_singleton] at hn
      exact ham (hn ▸ hmem)
  have hfirst : first ∈ m := List.mem_of_mem_head? g.head
  have hlast : last ∈ m := List.mem_of_getLast? g.getLast
  exact ⟨fun h => hpm (h ▸ hfirst), fun h => hpm (h ▸ hlast), fun h => hnm (h ▸ hfirst),
    fun h => hnm (h ▸ hlast)⟩

theorem mem (g : Gap a u m v p first last n) :
    p ∈ a :: (u ++ v) ∧ n ∈ a :: (u ++ v) ∧ first ∈ m ∧ last ∈ m := by
  have hn : n ∈ v ++ [a] := List.mem_of_mem_head? g.n
  refine ⟨?_, ?_, List.mem_of_mem_head? g.head, List.mem_of_getLast? g.getLast⟩
  · rw [← List.cons_append]
    exact List.mem_append_left _ (List.mem_of_getLast? g.p)
  · simp only [List.mem_append, List.mem_cons, List.not_mem_nil] at hn ⊢
    tauto

/-- The links of all other nodes stay. -/
theorem frame (g : Gap a u m v p first last n)
    (hnext : ∀ x, x ≠ p → x ≠ last → (L' x).next = (L x).next)
    (hprev : ∀ x, x ≠ first → x ≠ n → (L' x).prev = (L x).prev) (hx : x ∉ a :: (u ++ v))
    (hxm : x ∉ m) : L' x = L x := by
  obtain ⟨hp, hn, hfirst, hlast⟩ := g.mem
  rw [Link.ext_iff]
  constructor
  · exact hprev x (fun he => hxm (he ▸ hfirst)) fun he => hx (he ▸ hn)
  · exact hnext x (fun he => hx (he ▸ hp)) fun he => hxm (he ▸ hlast)

/-- The rows before the gap, in it and after it stay linked. -/
theorem rows (g : Gap a u m v p first last n)
    (hnext : ∀ x, x ≠ p → x ≠ last → (L' x).next = (L x).next)
    (hprev : ∀ x, x ≠ first → x ≠ n → (L' x).prev = (L x).prev) :
    ((a :: u).IsChain (Adj L) → (a :: u).IsChain (Adj L')) ∧
      (m.IsChain (Adj L) → m.IsChain (Adj L')) ∧
      ((v ++ [a]).IsChain (Adj L) → (v ++ [a]).IsChain (Adj L')) := by
  have hp : p ∈ a :: u := List.mem_of_getLast? g.p
  have hn : n ∈ v ++ [a] := List.mem_of_mem_head? g.n
  have hfirst : first ∈ m := List.mem_of_mem_head? g.head
  have hlast : last ∈ m := List.mem_of_getLast? g.getLast
  have hnd := g.nodup
  simp only [List.nodup_cons, List.nodup_append', List.mem_append, not_or] at hnd
  obtain ⟨⟨⟨hau, ham⟩, hav⟩, ⟨hu, hm, hum⟩, hv, hv'⟩ := hnd
  have huv : u.Disjoint v := fun x hx => hv' (List.mem_append_left _ hx)
  have hmv : m.Disjoint v := fun x hx => hv' (List.mem_append_right _ hx)
  have hfront : (a :: u).Nodup := List.nodup_cons.mpr ⟨hau, hu⟩
  have hback : (v ++ [a]).Nodup :=
    List.nodup_append'.mpr ⟨hv, List.nodup_singleton a, by simpa using hav⟩
  refine ⟨fun h => ?_, fun h => ?_, fun h => ?_⟩
  · refine isChain_adj_congr h (fun x hx => hnext x ?_ ?_) fun x hx => hprev x ?_ ?_
    · rintro rfl
      exact hfront.notMem_dropLast g.p hx
    · rintro rfl
      rcases List.mem_cons.mp (List.dropLast_subset _ hx) with rfl | hx
      · exact ham hlast
      · exact hum hx hlast
    · rintro rfl
      exact hum hx hfirst
    · rintro rfl
      rcases List.mem_append.mp hn with hn | hn
      · exact huv hx hn
      · rw [List.mem_singleton] at hn
        exact hau (hn ▸ hx)
  · refine isChain_adj_congr h (fun x hx => hnext x ?_ ?_) fun x hx => hprev x ?_ ?_
    · rintro rfl
      have hx := List.dropLast_subset _ hx
      rcases List.mem_cons.mp hp with rfl | hp
      · exact ham hx
      · exact hum hp hx
    · rintro rfl
      exact hm.notMem_dropLast g.getLast hx
    · rintro rfl
      exact hm.notMem_tail g.head hx
    · rintro rfl
      have hx := List.mem_of_mem_tail hx
      rcases List.mem_append.mp hn with hn | hn
      · exact hmv hx hn
      · rw [List.mem_singleton] at hn
        exact ham (hn ▸ hx)
  · refine isChain_adj_congr h (fun x hx => hnext x ?_ ?_) fun x hx => hprev x ?_ ?_
    · rintro rfl
      rw [List.dropLast_concat] at hx
      rcases List.mem_cons.mp hp with rfl | hp
      · exact hav hx
      · exact huv hp hx
    · rintro rfl
      rw [List.dropLast_concat] at hx
      exact hmv hlast hx
    · rintro rfl
      rcases List.mem_append.mp (List.mem_of_mem_tail hx) with hx | hx
      · exact hmv hfirst hx
      · rw [List.mem_singleton] at hx
        exact ham (hx ▸ hfirst)
    · rintro rfl
      exact hback.notMem_tail g.n hx

end Gap

/-- A chain may be put in anywhere. -/
theorem LinkRing.gap (h : LinkRing L a (u ++ v)) (hm : LinkedChain L first m last)
    (hp : (a :: u).getLast? = some p) (hn : (v ++ [a]).head? = some n) :
    Gap a u m v p first last n := by
  refine ⟨?_, hp, hm.head, hm.getLast, hn⟩
  rw [List.append_assoc, ← List.cons_append]
  refine (List.perm_append_comm_assoc (a :: u) m v).nodup_iff.mpr ?_
  exact List.nodup_append'.mpr ⟨hm.nodup, h.nodup, fun x hx => h.disjoint hm hx⟩

/-- The chain `m` is put in. -/
theorem LinkRing.splice (h : LinkRing L a (u ++ v)) (g : Gap a u m v p first last n)
    (hm : m.IsChain (Adj L)) (hs : Spliced L L' p first last n) : LinkRing L' a (u ++ m ++ v) := by
  obtain ⟨hfront, hmid, hback⟩ := g.rows hs.next hs.prev
  have hl := h.linked
  rw [← List.cons_append, List.append_assoc, List.isChain_append] at hl
  refine ⟨?_, g.nodup⟩
  rw [← List.cons_append, ← List.cons_append, List.append_assoc, List.append_assoc,
    List.isChain_append, List.isChain_append]
  refine ⟨hfront hl.1, ⟨hmid hm, hback hl.2.1, fun x hx y hy => ?_⟩, fun x hx y hy => ?_⟩
  · obtain rfl : last = x := Option.some.inj (g.getLast.symm.trans hx)
    obtain rfl : n = y := Option.some.inj (g.n.symm.trans hy)
    exact ⟨hs.next_last, hs.prev_n⟩
  · obtain rfl : p = x := Option.some.inj (g.p.symm.trans hx)
    rw [List.head?_append, g.head] at hy
    obtain rfl : first = y := Option.some.inj hy
    exact ⟨hs.next_p, hs.prev_first⟩

/-- The nodes `m` are taken out, and are a chain. -/
theorem LinkRing.cut (h : LinkRing L a (u ++ m ++ v)) (g : Gap a u m v p first last n)
    (hc : Cut L L' p first last n) : LinkRing L' a (u ++ v) ∧ LinkedChain L' first m last := by
  obtain ⟨hfront, hmid, hback⟩ := g.rows hc.next hc.prev
  have hl := h.linked
  rw [← List.cons_append, ← List.cons_append, List.append_assoc, List.append_assoc,
    List.isChain_append, List.isChain_append] at hl
  refine ⟨⟨?_, ?_⟩, ⟨hmid hl.2.1.1, g.head, g.getLast, hc.prev_first, hc.next_last⟩⟩
  · rw [← List.cons_append, List.append_assoc, List.isChain_append]
    refine ⟨hfront hl.1, hback hl.2.1.2.1, fun x hx y hy => ?_⟩
    obtain rfl : p = x := Option.some.inj (g.p.symm.trans hx)
    obtain rfl : n = y := Option.some.inj (g.n.symm.trans hy)
    exact ⟨hc.next_p, hc.prev_n⟩
  · refine g.nodup.sublist (List.Sublist.cons_cons a ?_)
    rw [List.append_assoc]
    exact (List.Sublist.refl u).append (List.sublist_append_right ..)
