import UThreads.Lib.Linked

/-!
# `IntrusiveList`

A circular list of elements that carry their own `prev` and `next` pointers, with an anchor. A
function returns `none` where the code would go through a null pointer.

`Holds L l` says that the list holds the elements `l` from the front to the back, that the pointers
of both directions say so, and that the pointers of all other elements are null. The list is a
`LinkRing` (`holds_iff`), so that what an insertion or a removal writes is all there is to show.
-/

namespace UThreads

namespace IntrusiveList

/-- A `Link`: the anchor, or that of an element. -/
inductive Node (E : Type*)
  | anchor
  | elem (e : E)
  deriving DecidableEq

end IntrusiveList

open IntrusiveList (Node)

/-- The pointers of all links. -/
structure IntrusiveList (E : Type*) where
  next : Node E → Option (Node E)
  prev : Node E → Option (Node E)

namespace IntrusiveList

variable {E : Type*} [DecidableEq E]

/-- The constructor. -/
def new : IntrusiveList E where
  next := Function.update (fun _ => none) .anchor (some .anchor)
  prev := Function.update (fun _ => none) .anchor (some .anchor)

/-- `empty()` -/
def empty (L : IntrusiveList E) : Bool := L.next .anchor = some .anchor

/-- `insert_after(prev, elem)` -/
def insertAfter (L : IntrusiveList E) (prev elem : Node E) : Option (IntrusiveList E) :=
  (L.next prev).map fun n =>
    { next := Function.update (Function.update L.next elem (some n)) prev (some elem)
      prev := Function.update (Function.update L.prev n (some elem)) elem (some prev) }

/-- `push_back(elem)` -/
def pushBack (L : IntrusiveList E) (e : E) : Option (IntrusiveList E) :=
  (L.prev .anchor).bind fun back => L.insertAfter back (.elem e)

/-- `remove(elem)` -/
def remove (L : IntrusiveList E) (elem : Node E) : Option (IntrusiveList E) :=
  (L.prev elem).bind fun p =>
    (L.next elem).map fun n =>
      { next := Function.update (Function.update L.next p (some n)) elem none
        prev := Function.update (Function.update L.prev n (some p)) elem none }

/-- `onList(elem)` -/
def onList (L : IntrusiveList E) (e : E) : Bool := (L.next (.elem e)).isSome

/-! ## The elements of a list -/

/-- The links of the elements `l`, after the anchor. -/
def ring (l : List E) : List (Node E) := .anchor :: l.map .elem

structure Holds (L : IntrusiveList E) (l : List E) : Prop where
  next : Segment L.next (some .anchor) (ring l) (some .anchor)
  prev : Segment L.prev (some .anchor) (ring l.reverse) (some .anchor)
  nodup : l.Nodup
  null : ∀ e, e ∉ l → L.next (.elem e) = none ∧ L.prev (.elem e) = none

variable {L : IntrusiveList E} {l l₁ l₂ : List E} {e : E}

theorem holds_new : Holds (new : IntrusiveList E) [] :=
  ⟨⟨rfl, rfl⟩, ⟨rfl, rfl⟩, List.nodup_nil, fun _ _ => ⟨rfl, rfl⟩⟩

omit [DecidableEq E] in
theorem map_elem_nodup (h : l.Nodup) : (l.map (Node.elem : E → Node E)).Nodup :=
  h.map fun _ _ he => Node.elem.inj he

/-- The links of all nodes. -/
def links (L : IntrusiveList E) : Node E → Link (Node E) := fun x => ⟨L.prev x, L.next x⟩

omit [DecidableEq E] in
theorem holds_iff : Holds L l ↔ LinkRing L.links .anchor (l.map .elem) ∧
    ∀ e, e ∉ l → L.links (.elem e) = ⟨none, none⟩ := by
  rw [LinkRing.iff_segments, ← List.map_reverse]
  constructor
  · intro h
    refine ⟨⟨h.next, h.prev, List.nodup_cons.mpr ⟨by simp, map_elem_nodup h.nodup⟩⟩, fun e he => ?_⟩
    rw [links, (h.null e he).1, (h.null e he).2]
  · intro ⟨⟨hnext, hprev, hnodup⟩, hnull⟩
    refine ⟨hnext, hprev, (List.nodup_cons.mp hnodup).2.of_map _, fun e he => ?_⟩
    exact ⟨congrArg Link.next (hnull e he), congrArg Link.prev (hnull e he)⟩

theorem Holds.empty_iff (h : Holds L l) : L.empty = true ↔ l = [] := by
  have hn := h.next.2
  cases l with
  | nil => simpa [empty] using hn
  | cons e l => simp [empty, show L.next .anchor = some (.elem e) from hn.1]

omit [DecidableEq E] in
theorem Holds.onList_iff (h : Holds L l) : L.onList e = true ↔ e ∈ l := by
  by_cases he : e ∈ l
  · obtain ⟨y, -, hy⟩ := (holds_iff.mp h).1.exists_next
      (List.mem_cons_of_mem _ (List.mem_map_of_mem he))
    have hnext : L.next (.elem e) = some y := hy.1
    simp [onList, hnext, he]
  · simp [onList, (h.null e he).1, he]

omit [DecidableEq E] in
/-- `back()` -/
theorem Holds.back (h : Holds L (l ++ [e])) : L.prev .anchor = some (.elem e) := by
  have hp := h.prev
  simp only [List.reverse_append, List.reverse_cons, List.reverse_nil, List.nil_append,
    List.cons_append] at hp
  exact hp.2.1

/-! ## What the functions write -/

theorem insertAfter_spliced {p n x : Node E} (hn : L.next p = some n) (hxp : x ≠ p) (hxn : x ≠ n) :
    ∃ L', L.insertAfter p x = some L' ∧ Spliced L.links L'.links p x x n := by
  refine ⟨_, by rw [insertAfter, hn]; rfl, ?_, ?_, ?_, ?_, fun y hy hy' => ?_, fun y hy hy' => ?_⟩
  · simp [links]
  · simp [links]
  · simp [links, hxp]
  · simp [links, hxn.symm]
  · simp [links, hy, hy']
  · simp [links, hy, hy']

theorem remove_cut {p n x : Node E} (hp : L.prev x = some p) (hn : L.next x = some n) (hxp : x ≠ p)
    (hxn : x ≠ n) : ∃ L', L.remove x = some L' ∧ Cut L.links L'.links p x x n := by
  refine ⟨_, by rw [remove, hp, Option.bind_some, hn]; rfl, ?_, ?_, ?_, ?_, fun y hy hy' => ?_,
    fun y hy hy' => ?_⟩
  · simp [links, hxp.symm]
  · simp [links, hxn.symm]
  · simp [links]
  · simp [links]
  · simp [links, hy, hy']
  · simp [links, hy, hy']

/-- An element is appended. -/
theorem pushBack_spec (h : Holds L l) (he : e ∉ l) :
    ∃ L', L.pushBack e = some L' ∧ Holds L' (l ++ [e]) := by
  obtain ⟨hring, hnull⟩ := holds_iff.mp h
  rw [← List.append_nil (l.map _)] at hring
  have hp := List.getLast?_eq_some_getLast (List.cons_ne_nil Node.anchor (l.map .elem))
  have hadj := hring.adj hp rfl
  have hchain : LinkedChain L.links (.elem e) [.elem e] (.elem e) :=
    LinkedChain.singleton (by rw [hnull e he]) (by rw [hnull e he])
  have hg := hring.gap hchain hp rfl
  obtain ⟨L', hins, hs⟩ := insertAfter_spliced hadj.1 hg.ne.1 hg.ne.2.2.1
  refine ⟨L', ?_, holds_iff.mpr ⟨?_, fun e' he' => ?_⟩⟩
  · rw [pushBack, show L.prev .anchor = some _ from hadj.2]
    exact hins
  · rw [List.map_append, ← List.append_nil (_ ++ _)]
    exact hring.splice hg hchain.linked hs
  · rw [List.mem_append, not_or] at he'
    rw [hg.frame hs.next hs.prev (by simpa using he'.1) (by simpa using he'.2), hnull e' he'.1]

/-- An element is removed. -/
theorem remove_spec (h : Holds L (l₁ ++ e :: l₂)) :
    ∃ L', L.remove (.elem e) = some L' ∧ Holds L' (l₁ ++ l₂) := by
  obtain ⟨hring, hnull⟩ := holds_iff.mp h
  have hsplit : (l₁ ++ e :: l₂).map (Node.elem : E → Node E) =
      l₁.map .elem ++ [.elem e] ++ l₂.map .elem := by simp
  rw [hsplit] at hring
  have hp := List.getLast?_eq_some_getLast (List.cons_ne_nil Node.anchor (l₁.map .elem))
  have hn := List.head?_eq_some_head (List.concat_ne_nil Node.anchor (l₂.map .elem))
  have hg : Gap Node.anchor (l₁.map .elem) [.elem e] (l₂.map .elem) _ (.elem e) (.elem e) _ :=
    ⟨hring.nodup, hp, rfl, rfl, hn⟩
  have hafter : Adj L.links (.elem e) _ :=
    hring.adj (by rw [← List.cons_append, List.getLast?_concat]) hn
  rw [List.append_assoc] at hring
  have hbefore : Adj L.links _ (.elem e) := hring.adj hp rfl
  rw [← List.append_assoc] at hring
  obtain ⟨L', hremove, hc⟩ := remove_cut hbefore.2 hafter.1 hg.ne.1 hg.ne.2.2.1
  obtain ⟨hrest, hchain⟩ := hring.cut hg hc
  refine ⟨L', hremove, holds_iff.mpr ⟨by rw [List.map_append]; exact hrest, fun e' he' => ?_⟩⟩
  by_cases hee : e' = e
  · rw [hee, Link.ext_iff]
    exact ⟨hchain.prev, hchain.next⟩
  · rw [hg.frame hc.next hc.prev (by simpa using he') (by simpa using hee), hnull e' ?_]
    simp only [List.mem_append, List.mem_cons, not_or] at he' ⊢
    exact ⟨he'.1, hee, he'.2⟩

end IntrusiveList

end UThreads
