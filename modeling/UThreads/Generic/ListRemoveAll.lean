import UThreads.Generic.ListStoreProof

/-!
# `IntrusiveList::removeAll`

`removeAll` takes the links out of the first and the last element, but not out of the anchor.
`IntrusiveQueue::removeAll` and `IntrusiveList::transferAllFrom` reset the container; this function
does not.

* `removeAll_stale`: one element is pushed and removed, and the next `push_back` goes through a null
  pointer.
* `removeAll_detaches`: so it is on every list that is not empty. The chain that `removeAll` returns
  is right, and the list that it leaves is not.
-/

namespace UThreads

namespace ListStore

variable {ι E : Type*} [DecidableEq ι] [DecidableEq E]

variable {valid : ι → Bool} {L L' : Links ι E} {lists : ι → List E} {i : ι} {first last : E}
  {m : List E}

/-! ## What `removeAll` leaves -/

theorem Rep.removeAll (h : Rep valid L lists) (hv : valid i = true) (hne : lists i ≠ []) :
    ∃ first last L', removeAll L (.anchor i) = some (.elem last, L') ∧
      (L' (.anchor i)).next = some (.elem first) ∧ (L' (.anchor i)).prev = some (.elem last) ∧
      Detached L' first (lists i) last ∧
      Rep (Function.update valid i false) L' (Function.update lists i []) ∧
      Kept L L' ((lists i).map .elem) := by
  obtain ⟨first, last, hfirst, hlast, hnext, hprev⟩ := h.ends hv hne
  obtain ⟨L₁, rfl, hchain, -⟩ := h.takeAll hv hfirst hlast
  have hmem : first ∈ lists i ∧ last ∈ lists i :=
    ⟨List.mem_of_mem_head? hfirst, List.mem_of_getLast? hlast⟩
  -- Only the anchor is different from what `transferAllFrom` leaves.
  have hlinks : ∀ e, setNext (setPrev L (Node.elem first) none) (.elem last) none (.elem e) =
      construct (setNext (setPrev L (.elem first) none) (.elem last) none) (.anchor i)
        (.elem e) := by
    intro e
    rw [Link.ext_iff]
    simp [construct]
  have hkept : Kept L (setNext (setPrev L (.elem first) none) (.elem last) none)
      ((lists i).map .elem) := by
    intro x hx
    have hxf : x ≠ .elem first := fun he => hx (he ▸ List.mem_map_of_mem hmem.1)
    have hxl : x ≠ .elem last := fun he => hx (he ▸ List.mem_map_of_mem hmem.2)
    rw [Link.ext_iff]
    simp [hxf, hxl]
  refine ⟨first, last, _, by rw [ListStore.removeAll, hnext, Option.bind_some, hprev]; rfl,
    by rw [hkept _ (by simp), hnext], by rw [hkept _ (by simp), hprev],
    hchain.congr fun x hx => ?_, ⟨fun j hj => ?_, ?_, fun j hj => ?_⟩, hkept⟩
  · obtain ⟨e, -, rfl⟩ := List.mem_map.mp hx
    exact hlinks e
  · have hji : j ≠ i := by
      rintro rfl
      simp at hj
    rw [Function.update_of_ne hji] at hj ⊢
    refine (h.ring j hj).congr fun x hx => hkept x fun hxi => ?_
    rcases List.mem_cons.mp hx with rfl | hx
    · simp at hxi
    · obtain ⟨e, he, rfl⟩ := List.mem_map.mp hx
      exact hji (h.one he (by simpa using hxi))
  · intro e j k hj hk
    have hsub : ∀ {j}, e ∈ Function.update lists i [] j → e ∈ lists j := by
      intro j he
      by_cases hji : j = i
      · simp [hji] at he
      · rwa [Function.update_of_ne hji] at he
    exact h.one (hsub hj) (hsub hk)
  · by_cases hji : j = i
    · rw [hji, Function.update_self]
    · rw [Function.update_of_ne hji] at hj ⊢
      exact h.nil j hj

omit [DecidableEq ι] [DecidableEq E] in
/-- An anchor whose first element does not link back is not on a ring. -/
theorem not_ring (hnext : (L (.anchor i)).next = some (.elem first)) (hm : Detached L first m last)
    (l : List (Node ι E)) : ¬LinkRing L (.anchor i) l := by
  intro hring
  obtain ⟨y, -, hy⟩ := hring.exists_next List.mem_cons_self
  obtain rfl : Node.elem first = y := Option.some.inj (hnext.symm.trans hy.1)
  exact absurd hy.2 (by simp [hm.prev])

/-- `removeAll` leaves the anchor pointing at the ends of a chain, and no operation on the list gets
past them. -/
theorem stuck_of_detached (hnext : (L (.anchor i)).next = some (.elem first))
    (hprev : (L (.anchor i)).prev = some (.elem last)) (hm : Detached L first m last) :
    (∀ e, exec L (.pushFront i e) = none) ∧ (∀ e, exec L (.pushBack i e) = none) ∧
      exec L (.popFront i) = none ∧ exec L (.popBack i) = none := by
  refine ⟨fun e => ?_, fun e => ?_, ?_, ?_⟩
  · simp [exec, pushFront, insertBefore, hnext, hm.prev]
  · simp [exec, pushBack, spliceBack, insertAfter, hprev, hm.next]
  · simp [exec, popFront, ListStore.remove, unlink, hnext, hm.prev]
  · simp [exec, popBack, ListStore.remove, unlink, hprev, hm.next]

/-! ## Every list that is not empty -/

/-- What `removeAll` is to do on list `i`, which represents `l`: it returns the last element of a
detached chain that holds `l`, and leaves the empty list. -/
def Detaches (L : Links ι E) (i : ι) (l : List E) : Prop :=
  ∃ first last L', removeAll L (.anchor i) = some (.elem last, L') ∧ Detached L' first l last ∧
    LinkRing L' (.anchor i) []

/-- **`removeAll` never leaves the empty list.** On every list that is not empty it returns the last
element of a detached chain that holds exactly the elements of the list, and leaves the other lists
as they were. The anchor still points to the ends of that chain, so that the list is neither empty
nor a ring, and the next `push_front`, `push_back`, `pop_front` or `pop_back` goes through a null
pointer. -/
theorem removeAll_detaches (h : Rep valid L lists) (hv : valid i = true) (hne : lists i ≠ []) :
    ¬Detaches L i (lists i) ∧
      ∃ first last L', removeAll L (.anchor i) = some (.elem last, L') ∧
        Detached L' first (lists i) last ∧ Kept L L' ((lists i).map .elem) ∧
        Rep (Function.update valid i false) L' (Function.update lists i []) ∧
        empty L' (.anchor i) = false ∧ (∀ l, ¬LinkRing L' (.anchor i) l) ∧
        (∀ e, exec L' (.pushFront i e) = none) ∧ (∀ e, exec L' (.pushBack i e) = none) ∧
        exec L' (.popFront i) = none ∧ exec L' (.popBack i) = none := by
  obtain ⟨first, last, L', hremove, hnext, hprev, hchain, hrep, hkept⟩ := h.removeAll hv hne
  have hring := not_ring hnext hchain
  refine ⟨?_, first, last, L', hremove, hchain, hkept, hrep, by simp [empty, hnext], hring,
    stuck_of_detached hnext hprev hchain⟩
  rintro ⟨first', last', L'', hremove', -, hempty⟩
  obtain ⟨-, rfl⟩ : last = last' ∧ L' = L'' := by simpa [hremove] using hremove'
  exact hring [] hempty

/-- Two elements are pushed. -/
theorem removeAll_detaches_two :
    ∃ L : Links Unit ℕ, (machine Unit ℕ).ReachableBy (Pre fun _ => true) L ∧
      ∃ lists : Unit → List ℕ, Rep (fun _ => true) L lists ∧ lists () = [7, 8] ∧
        ¬Detaches L () (lists ()) := by
  obtain ⟨L, hL⟩ : ∃ L : Links Unit ℕ, L = construct (fun _ => ⟨none, none⟩) (.anchor ()) :=
    ⟨_, rfl⟩
  have hinit : (machine Unit ℕ).init L := fun _ => hL ▸ rfl
  subst hL
  have h₁ : (machine Unit ℕ).ReachableBy (Pre fun _ => true) _ :=
    .step (a := .pushBack () 7) (.init hinit) ⟨rfl, rfl⟩ rfl
  have h₂ : (machine Unit ℕ).ReachableBy (Pre fun _ => true) _ :=
    .step (a := .pushBack () 8) h₁ ⟨rfl, rfl⟩ rfl
  obtain ⟨lists, hrep⟩ := rep_reachable h₂
  have hlists : lists () = [7, 8] := by
    refine List.map_injective_iff.mpr (fun _ _ he => Node.elem.inj he)
      ((hrep.ring () rfl).unique ⟨?_, by decide⟩)
    exact .cons_cons ⟨rfl, rfl⟩ (.cons_cons ⟨rfl, rfl⟩ (.cons_cons ⟨rfl, rfl⟩ (.singleton _)))
  exact ⟨_, h₂, lists, hrep, hlists, (removeAll_detaches hrep rfl (by simp [hlists])).1⟩

/-- One element is pushed and `removeAll` is called. The list is not empty then and not a ring, and
the next `push_back` goes through the null pointer of the element that was removed. -/
theorem removeAll_stale :
    ∃ L L' : Links Unit ℕ, (machine Unit ℕ).ReachableBy (Pre fun _ => true) L ∧
      removeAll L (.anchor ()) = some (.elem 7, L') ∧ empty L' (.anchor ()) = false ∧
      (∀ l, ¬LinkRing L' (.anchor ()) l) ∧ pushBack L' (.anchor ()) (.elem 8) = none := by
  obtain ⟨L, hL⟩ : ∃ L : Links Unit ℕ, L = construct (fun _ => ⟨none, none⟩) (.anchor ()) :=
    ⟨_, rfl⟩
  have hinit : (machine Unit ℕ).init L := fun _ => hL ▸ rfl
  subst hL
  have h₁ : (machine Unit ℕ).ReachableBy (Pre fun _ => true) _ :=
    .step (a := .pushBack () 7) (.init hinit) ⟨rfl, rfl⟩ rfl
  exact ⟨_, _, h₁, rfl, rfl, not_ring rfl (detached_singleton rfl), rfl⟩

end ListStore

end UThreads
