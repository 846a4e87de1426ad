import UThreads.Generic.ListStore

/-!
# `IntrusiveList`s are sequences

**Theorem (`lists_are_sequences`).** After every sequence of operations each list is a circle
through its anchor, in both directions, and each operation is the one on sequences that `Meets`
describes.

Every function puts a chain between two neighbours, or takes one out. `insertAfter_spliced`,
`insertBefore_spliced` and `unlink_cut` say which links it writes; what becomes of a ring is then
`LinkRing.splice` and `LinkRing.cut`, and of the other rings nothing. A transfer is a removal and an
insertion, also when both are on the same list.
-/

namespace UThreads

namespace ListStore

/-! ## What the functions write -/

section Functions

variable {N : Type*} [DecidableEq N] {L L' : N → Link N} {a p n first last elem : N}
  {l u v m : List N}

theorem insertAfter_spliced (hn : (L p).next = some n) (hp : last ≠ p) (hfn : first ≠ n) :
    ∃ L', insertAfter L p first last = some L' ∧ Spliced L L' p first last n := by
  refine ⟨_, by rw [insertAfter, hn]; rfl, ?_, ?_, ?_, ?_, fun x hx hx' => ?_, fun x hx hx' => ?_⟩
  · simp
  · simp
  · simp [hp, hn]
  · simp [hfn.symm]
  · simp [hx, hx']
  · simp [hx, hx']

theorem insertBefore_spliced (hp : (L n).prev = some p) (hep : elem ≠ p) (hen : elem ≠ n) :
    ∃ L', insertBefore L n elem = some L' ∧ Spliced L L' p elem elem n := by
  refine ⟨_, by rw [insertBefore, hp]; rfl, ?_, ?_, ?_, ?_, fun x hx hx' => ?_, fun x hx hx' => ?_⟩
  · simp [hep.symm]
  · simp [hen, hp]
  · simp
  · simp
  · simp [hx, hx']
  · simp [hx, hx']

theorem unlink_cut (hp : (L first).prev = some p) (hn : (L last).next = some n) (hlp : last ≠ p)
    (hfn : first ≠ n) : ∃ L', unlink L first last = some L' ∧ Cut L L' p first last n := by
  have hlast : (setNext L p (L last).next last).next = some n := by simp [hlp, hn]
  refine ⟨_, by simp only [unlink, hp, Option.bind_some, hlast, Option.map_some]; rfl, ?_,
    ?_, ?_, ?_,
    fun x hx hx' => ?_, fun x hx hx' => ?_⟩
  · simp [hlp.symm, hn]
  · simp [hfn.symm, hp]
  · simp
  · simp
  · simp [hx, hx']
  · simp [hx, hx']

/-- The first part of `transferAllFrom`. -/
theorem empty_cut (hfirst : first ≠ a) (hlast : last ≠ a) :
    Cut L (construct (setNext (setPrev L first none) last none) a) a first last a := by
  refine ⟨?_, ?_, ?_, ?_, fun x hx hx' => ?_, fun x hx hx' => ?_⟩
  · simp [construct]
  · simp [construct]
  · simp [construct, hfirst]
  · simp [construct, hlast]
  · simp [construct, hx, hx']
  · simp [construct, hx, hx']

/-! ## What becomes of a ring -/

omit [DecidableEq N] in
theorem exists_after (a : N) (v : List N) : ∃ n, (v ++ [a]).head? = some n :=
  ⟨_, List.head?_eq_some_head (List.concat_ne_nil a v)⟩

omit [DecidableEq N] in
theorem exists_before (a : N) (u : List N) : ∃ p, (a :: u).getLast? = some p :=
  ⟨_, List.getLast?_eq_some_getLast (List.cons_ne_nil a u)⟩

/-- A chain goes in after `p`. -/
theorem insertAfter_ring (h : LinkRing L a (u ++ v)) (hp : (a :: u).getLast? = some p)
    (hm : LinkedChain L first m last) :
    ∃ L', insertAfter L p first last = some L' ∧ LinkRing L' a (u ++ m ++ v) ∧
      ∀ x, x ∉ a :: (u ++ v) → x ∉ m → L' x = L x := by
  obtain ⟨n, hn⟩ := exists_after a v
  have hg := h.gap hm hp hn
  obtain ⟨-, hlp, hfn, -⟩ := hg.ne
  obtain ⟨L', hins, hs⟩ := insertAfter_spliced (h.adj hp hn).1 hlp hfn
  exact ⟨L', hins, h.splice hg hm.linked hs, fun x => hg.frame hs.next hs.prev⟩

/-- An element goes in before `n`. -/
theorem insertBefore_ring (h : LinkRing L a (u ++ v)) (hn : (v ++ [a]).head? = some n)
    (he : LinkedChain L elem [elem] elem) :
    ∃ L', insertBefore L n elem = some L' ∧ LinkRing L' a (u ++ [elem] ++ v) ∧
      ∀ x, x ∉ a :: (u ++ v) → x ∉ [elem] → L' x = L x := by
  obtain ⟨p, hp⟩ := exists_before a u
  have hg := h.gap he hp hn
  obtain ⟨hep, -, hen, -⟩ := hg.ne
  obtain ⟨L', hins, hs⟩ := insertBefore_spliced (h.adj hp hn).2 hep hen
  exact ⟨L', hins, h.splice hg he.linked hs, fun x => hg.frame hs.next hs.prev⟩

/-- A chain goes to the end. -/
theorem spliceBack_ring (h : LinkRing L a l) (hm : LinkedChain L first m last) :
    ∃ L', spliceBack L a first last = some L' ∧ LinkRing L' a (l ++ m) ∧
      ∀ x, x ∉ a :: l → x ∉ m → L' x = L x := by
  obtain ⟨p, hp⟩ := exists_before a l
  rw [← List.append_nil l] at h
  obtain ⟨L', hins, hring, hframe⟩ := insertAfter_ring h hp hm
  rw [List.append_nil] at hring hframe
  refine ⟨L', ?_, hring, hframe⟩
  rw [spliceBack, (h.adj hp rfl).2]
  exact hins

omit [DecidableEq N] in
/-- The nodes `m` come out. -/
theorem ring_cutOut (h : LinkRing L a (u ++ m ++ v)) (hg : Gap a u m v p first last n)
    (hc : Cut L L' p first last n) :
    LinkRing L' a (u ++ v) ∧ LinkedChain L' first m last ∧
      ∀ x, x ∉ a :: (u ++ m ++ v) → L' x = L x := by
  obtain ⟨hring, hchain⟩ := h.cut hg hc
  refine ⟨hring, hchain, fun x hx => hg.frame hc.next hc.prev (fun hmem => hx ?_) fun hmem => hx ?_⟩
  · simp only [List.mem_cons, List.mem_append] at hmem ⊢
    tauto
  · simp [hmem]

theorem unlink_ring (h : LinkRing L a (u ++ m ++ v)) (hfirst : m.head? = some first)
    (hlast : m.getLast? = some last) :
    ∃ L', unlink L first last = some L' ∧ LinkRing L' a (u ++ v) ∧ LinkedChain L' first m last ∧
      ∀ x, x ∉ a :: (u ++ m ++ v) → L' x = L x := by
  obtain ⟨p, hp⟩ := exists_before a u
  obtain ⟨n, hn⟩ := exists_after a v
  have hg : Gap a u m v p first last n := ⟨h.nodup, hp, hfirst, hlast, hn⟩
  obtain ⟨-, hlp, hfn, -⟩ := hg.ne
  have hprev : Adj L p first := by
    rw [List.append_assoc] at h
    refine h.adj hp ?_
    rw [List.append_assoc, List.head?_append, hfirst]
    rfl
  have hnext : Adj L last n := by
    refine h.adj ?_ hn
    rw [← List.cons_append, List.getLast?_append, hlast]
    rfl
  obtain ⟨L', hunlink, hc⟩ := unlink_cut hprev.2 hnext.1 hlp hfn
  exact ⟨L', hunlink, ring_cutOut h hg hc⟩

theorem remove_ring (h : LinkRing L a (u ++ elem :: v)) :
    ∃ L', remove L elem = some L' ∧ L' elem = ⟨none, none⟩ ∧ LinkRing L' a (u ++ v) ∧
      ∀ x, x ∉ a :: (u ++ elem :: v) → L' x = L x := by
  have hsplit : u ++ elem :: v = u ++ [elem] ++ v := by simp
  rw [hsplit] at h ⊢
  obtain ⟨L', hunlink, hring, hchain, hframe⟩ := unlink_ring h rfl rfl
  refine ⟨L', hunlink, ?_, hring, hframe⟩
  rw [Link.ext_iff]
  exact ⟨hchain.prev, hchain.next⟩

omit [DecidableEq N] in
/-- The first and the last element of a list. -/
theorem ring_ends (h : LinkRing L a l) (hfirst : l.head? = some first)
    (hlast : l.getLast? = some last) : (L a).next = some first ∧ (L a).prev = some last := by
  constructor
  · refine (LinkRing.adj (u := []) h rfl ?_).1
    rw [List.head?_append, hfirst]
    rfl
  · rw [← List.append_nil l] at h
    refine (h.adj ?_ rfl).2
    rw [← List.singleton_append, List.getLast?_append, hlast]
    rfl

end Functions

/-! ## Rings -/

variable {ι E : Type*} [DecidableEq ι] [DecidableEq E] {valid : ι → Bool} {L L' L₁ : Links ι E}
  {lists : ι → List E} {i el : ι} {first last e : E} {l u v m : List E} {p n x : Node ι E}

omit [DecidableEq ι] [DecidableEq E] in
theorem elem_mem_nodes : .elem e ∈ nodes lists i ↔ e ∈ lists i := by
  simp [nodes]

omit [DecidableEq ι] [DecidableEq E] in
/-- A node that is on a list is on one of those that are represented. -/
theorem Rep.onList (h : Rep valid L lists) (hx : OnList valid L x) :
    ∃ i, valid i = true ∧ x ∈ nodes lists i := by
  obtain ⟨i, l, hv, hring, hx⟩ := hx
  rw [hring.unique (h.ring i hv)] at hx
  exact ⟨i, hv, hx⟩

theorem Rep.ne_nil (h : Rep valid L lists) (hv : valid i = true)
    (he : empty L (.anchor i) = false) : lists i ≠ [] := by
  intro hl
  have hring := h.ring i hv
  rw [hl] at hring
  have hadj : Adj L (Node.anchor i) (.anchor i) := LinkRing.adj (u := []) (v := []) hring rfl rfl
  simp [empty, hadj.1] at he

omit [DecidableEq ι] [DecidableEq E] in
/-- The elements of a chain are on no list. -/
theorem Rep.free (h : Rep valid L lists) (hm : Detached L first m last) (he : e ∈ m) (j : ι) :
    e ∉ lists j := by
  intro hj
  cases hv : valid j with
  | false => simp [h.nil j hv] at hj
  | true =>
    refine (h.ring j hv).disjoint hm (List.mem_map_of_mem he) ?_
    exact List.mem_cons_of_mem _ (List.mem_map_of_mem hj)

omit [DecidableEq E] in
/-- List `i` changes. The elements that it gets were on no list. -/
theorem Rep.change (h : Rep valid L lists) (hv : valid i = true)
    (hring : LinkRing L' (.anchor i) (l.map .elem)) (hnew : ∀ e ∈ l, e ∈ lists i ∨ ∀ j, e ∉ lists j)
    (hk : ∀ x, x ∉ nodes lists i → x ∉ l.map .elem → L' x = L x) :
    Rep valid L' (Function.update lists i l) := by
  have hother : ∀ {j e}, j ≠ i → e ∈ lists j → e ∉ lists i ∧ e ∉ l := by
    intro j e hj he
    have hi : e ∉ lists i := fun hi => hj (h.one he hi)
    exact ⟨hi, fun hl => (hnew e hl).elim hi fun hno => hno j he⟩
  refine ⟨fun j hj => ?_, fun e j k hej hek => ?_, fun j hj => ?_⟩
  · by_cases hji : j = i
    · rw [hji, Function.update_self]
      exact hring
    · rw [Function.update_of_ne hji]
      refine (h.ring j hj).congr fun x hx => hk x ?_ ?_
      · rcases List.mem_cons.mp hx with rfl | hx
        · simp [nodes, hji]
        · obtain ⟨e, he, rfl⟩ := List.mem_map.mp hx
          rw [elem_mem_nodes]
          exact (hother hji he).1
      · rcases List.mem_cons.mp hx with rfl | hx
        · simp
        · obtain ⟨e, he, rfl⟩ := List.mem_map.mp hx
          simpa using (hother hji he).2
  · by_cases hji : j = i
    · by_cases hki : k = i
      · rw [hji, hki]
      · rw [hji, Function.update_self] at hej
        rw [Function.update_of_ne hki] at hek
        exact absurd hej (hother hki hek).2
    · rw [Function.update_of_ne hji] at hej
      by_cases hki : k = i
      · rw [hki, Function.update_self] at hek
        exact absurd hek (hother hji hej).2
      · rw [Function.update_of_ne hki] at hek
        exact h.one hej hek
  · have hji : j ≠ i := by
      rintro rfl
      simp [hv] at hj
    rw [Function.update_of_ne hji]
    exact h.nil j hj

/-! ## Insertion -/

omit [DecidableEq ι] [DecidableEq E] in
theorem Rep.ring_of (h : Rep valid L lists) (hv : valid i = true) (hl : lists i = u ++ v) :
    LinkRing L (.anchor i) (u.map .elem ++ v.map .elem) := by
  rw [← List.map_append, ← hl]
  exact h.ring i hv

/-- A chain has gone in between the parts `u` and `v` of list `i`. -/
theorem Rep.inserted (h : Rep valid L lists) (hv : valid i = true) (hl : lists i = u ++ v)
    (hm : Detached L first m last)
    (hring : LinkRing L' (.anchor i) (u.map .elem ++ m.map .elem ++ v.map .elem))
    (hframe : ∀ x, x ∉ Node.anchor i :: (u.map .elem ++ v.map .elem) → x ∉ m.map .elem →
    L' x = L x) : Rep valid L' (Function.update lists i (u ++ m ++ v)) ∧
      Kept L L' (nodes lists i ++ m.map .elem) := by
  rw [← List.map_append, ← hl] at hframe
  rw [← List.map_append, ← List.map_append] at hring
  refine ⟨h.change hv hring (fun e he => ?_) fun x hx hx' => hframe x hx fun hxm => hx' ?_,
    fun x hx => ?_⟩
  · rw [hl]
    by_cases hem : e ∈ m
    · exact .inr fun j => h.free hm hem j
    · left
      simp only [List.mem_append] at he ⊢
      tauto
  · rw [List.map_append, List.map_append]
    exact List.mem_append_left _ (List.mem_append_right _ hxm)
  · rw [List.mem_append, not_or] at hx
    exact hframe x hx.1 hx.2

theorem Rep.insertAfter (h : Rep valid L lists) (hv : valid i = true) (hl : lists i = u ++ v)
    (hp : (Node.anchor i :: u.map .elem).getLast? = some p) (hm : Detached L first m last) :
    ∃ L', insertAfter L p (.elem first) (.elem last) = some L' ∧
      Rep valid L' (Function.update lists i (u ++ m ++ v)) ∧
      Kept L L' (nodes lists i ++ m.map .elem) := by
  obtain ⟨L', hins, hring, hframe⟩ := insertAfter_ring (h.ring_of hv hl) hp hm
  exact ⟨L', hins, h.inserted hv hl hm hring hframe⟩

omit [DecidableEq ι] [DecidableEq E] in
theorem detached_singleton (he : L (.elem e) = ⟨none, none⟩) : Detached L e [e] e :=
  LinkedChain.singleton (by rw [he]) (by rw [he])

theorem Rep.insertBefore (h : Rep valid L lists) (hv : valid i = true) (hl : lists i = u ++ v)
    (hn : (v.map Node.elem ++ [Node.anchor i]).head? = some n) (he : L (.elem e) = ⟨none, none⟩) :
    ∃ L', insertBefore L n (.elem e) = some L' ∧
      Rep valid L' (Function.update lists i (u ++ e :: v)) ∧
      Kept L L' (nodes lists i ++ [.elem e]) := by
  have hm := detached_singleton he
  obtain ⟨L', hins, hring, hframe⟩ := insertBefore_ring (h.ring_of hv hl) hn hm
  obtain ⟨hrep, hk⟩ := h.inserted hv hl hm hring hframe
  rw [List.append_assoc] at hrep
  exact ⟨L', hins, hrep, hk⟩

theorem Rep.spliceBack (h : Rep valid L lists) (hv : valid i = true)
    (hm : Detached L first m last) :
    ∃ L', spliceBack L (.anchor i) (.elem first) (.elem last) = some L' ∧
      Rep valid L' (Function.update lists i (lists i ++ m)) ∧
      Kept L L' (nodes lists i ++ m.map .elem) := by
  obtain ⟨L', hsplice, hring, hframe⟩ := spliceBack_ring (h.ring i hv) hm
  have hnil : lists i = lists i ++ [] := (List.append_nil _).symm
  obtain ⟨hrep, hk⟩ := h.inserted hv hnil hm (by simpa using hring) (by simpa using hframe)
  rw [List.append_nil] at hrep
  exact ⟨L', hsplice, hrep, hk⟩

/-! ## Removal -/

omit [DecidableEq E] in
/-- The elements `m` of list `i` have come out. -/
theorem Rep.removed (h : Rep valid L lists) (hv : valid i = true) (hl : lists i = u ++ m ++ v)
    (hring : LinkRing L' (.anchor i) (u.map .elem ++ v.map .elem))
    (hframe : ∀ x, x ∉ Node.anchor i :: (u.map .elem ++ m.map .elem ++ v.map .elem) → L' x = L x) :
    Rep valid L' (Function.update lists i (u ++ v)) ∧ Kept L L' (nodes lists i) := by
  rw [← List.map_append, ← List.map_append, ← hl] at hframe
  rw [← List.map_append] at hring
  refine ⟨h.change hv hring (fun e he => .inl ?_) fun x hx _ => hframe x hx, hframe⟩
  rw [hl]
  simp only [List.mem_append] at he ⊢
  tauto

theorem Rep.unlink (h : Rep valid L lists) (hv : valid i = true) (hl : lists i = u ++ m ++ v)
    (hfirst : m.head? = some first) (hlast : m.getLast? = some last) :
    ∃ L', unlink L (.elem first) (.elem last) = some L' ∧ Detached L' first m last ∧
      Rep valid L' (Function.update lists i (u ++ v)) ∧ Kept L L' (nodes lists i) := by
  have hring := h.ring_of hv hl
  rw [List.map_append] at hring
  obtain ⟨L', hunlink, hrest, hchain, hframe⟩ := unlink_ring hring
    (List.head?_map.trans (congrArg _ hfirst)) (List.getLast?_map.trans (congrArg _ hlast))
  exact ⟨L', hunlink, hchain, h.removed hv hl hrest hframe⟩

theorem Rep.remove (h : Rep valid L lists) (hv : valid i = true) (hl : lists i = u ++ e :: v) :
    ∃ L', remove L (.elem e) = some L' ∧ L' (.elem e) = ⟨none, none⟩ ∧
      Rep valid L' (Function.update lists i (u ++ v)) ∧ Kept L L' (nodes lists i) := by
  obtain ⟨L', hremove, hnull, hring, hframe⟩ := remove_ring (h.ring_of hv hl)
  have hl' : lists i = u ++ [e] ++ v := by rw [hl, List.append_assoc, List.singleton_append]
  exact ⟨L', hremove, hnull, h.removed hv hl' hring (by simpa using hframe)⟩

/-- The loop ends, whatever the count, at the `count`-th element from `first` on or at the last. -/
theorem Rep.removeCount (h : Rep valid L lists) (hv : valid i = true) (hl : lists i = u ++ v)
    (hfirst : v.head? = some first) {count : BitVec 64} (hc : count ≠ 0) :
    ∃ last L', removeCount L (.anchor i) (.elem first) count =
        some (.elem last, BitVec.ofNat 64 (min count.toNat v.length), L') ∧
      Detached L' first (v.take count.toNat) last ∧
      Rep valid L' (Function.update lists i (u ++ v.drop count.toNat)) ∧
      Kept L L' (nodes lists i) := by
  obtain ⟨r, rfl⟩ := List.head?_eq_some_iff.mp hfirst
  have hring := h.ring i hv
  rw [hl, List.map_append] at hring
  have hseg : Segment (fun x => (L x).next) (some (.elem first)) (.elem first :: r.map .elem)
      (some (.anchor i)) := hring.segment
  obtain ⟨m, x, hwalk, htake⟩ := countedWalk_one hseg (by simp) hc
  -- The node at which the loop stops is the last one of the chain.
  have hx : ((first :: r).take count.toNat).getLast?.map Node.elem = some x := by
    rw [← List.getLast?_map, List.map_take, List.map_cons, htake, List.getLast?_concat]
  obtain ⟨last, hlast, rfl⟩ := Option.map_eq_some_iff.mp hx
  have hl' : lists i = u ++ (first :: r).take count.toNat ++ (first :: r).drop count.toNat := by
    rw [hl, List.append_assoc, List.take_append_drop]
  have hhead : ((first :: r).take count.toNat).head? = some first := by
    rw [List.head?_take, if_neg]
    · rfl
    · exact fun hz => hc (BitVec.eq_of_toNat_eq hz)
  obtain ⟨L', hunlink, hrest⟩ := h.unlink hv hl' hhead hlast
  refine ⟨last, L', ?_, hrest⟩
  rw [ListStore.removeCount, hwalk, Option.bind_some]
  show Option.map _ (ListStore.unlink L (.elem first) (.elem last)) = _
  rw [hunlink, List.length_cons, List.length_map, List.length_cons]
  rfl

omit [DecidableEq ι] [DecidableEq E] in
theorem Rep.ends (h : Rep valid L lists) (hv : valid i = true) (hne : lists i ≠ []) :
    ∃ first last, (lists i).head? = some first ∧ (lists i).getLast? = some last ∧
      (L (.anchor i)).next = some (.elem first) ∧ (L (.anchor i)).prev = some (.elem last) := by
  have hfirst := List.head?_eq_some_head hne
  have hlast := List.getLast?_eq_some_getLast hne
  exact ⟨_, _, hfirst, hlast, ring_ends (h.ring i hv) (List.head?_map.trans (congrArg _ hfirst))
    (List.getLast?_map.trans (congrArg _ hlast))⟩

/-- What `transferAllFrom` does before it splices the chain. -/
theorem Rep.takeAll (h : Rep valid L lists) (hv : valid i = true)
    (hfirst : (lists i).head? = some first) (hlast : (lists i).getLast? = some last) :
    ∃ L', L' = construct (setNext (setPrev L (.elem first) none) (.elem last) none) (.anchor i) ∧
      Detached L' first (lists i) last ∧ Rep valid L' (Function.update lists i []) ∧
      Kept L L' (nodes lists i) := by
  have hl : lists i = [] ++ lists i ++ [] := by simp
  have hring := h.ring_of hv hl
  rw [List.map_append] at hring
  have hg : Gap (Node.anchor i) [] ((lists i).map .elem) [] (.anchor i) (.elem first) (.elem last)
      (.anchor i) :=
    ⟨hring.nodup, rfl, List.head?_map.trans (congrArg _ hfirst),
      List.getLast?_map.trans (congrArg _ hlast), rfl⟩
  obtain ⟨hrest, hchain, hframe⟩ := ring_cutOut hring hg (empty_cut (by simp) (by simp))
  exact ⟨_, rfl, hchain, h.removed hv hl hrest hframe⟩

/-- A chain that list `el` has lost is spliced into list `i`, which may be the same one. -/
theorem Rep.resplice (hv : valid i = true) (hl : lists el = m ++ l)
    (h₁ : Rep valid L₁ (Function.update lists el l)) (hk : Kept L L₁ (nodes lists el))
    (hchain : Detached L₁ first m last) :
    ∃ L', ListStore.spliceBack L₁ (.anchor i) (.elem first) (.elem last) = some L' ∧
      Rep valid L' (Function.update (Function.update lists el l) i
        (Function.update lists el l i ++ m)) ∧
      Kept L L' (nodes lists i ++ nodes lists el) := by
  obtain ⟨L', hsplice, hrep, hk'⟩ := h₁.spliceBack hv hchain
  refine ⟨L', hsplice, hrep, fun x hx => ?_⟩
  rw [List.mem_append, not_or] at hx
  rw [hk' x fun hmem => ?_, hk x hx.2]
  rcases List.mem_append.mp hmem with hmem | hmem
  · by_cases hie : i = el
    · subst hie
      refine hx.2 ?_
      simp only [nodes, Function.update_self, hl, List.map_append, List.mem_cons,
        List.mem_append] at hmem ⊢
      tauto
    · refine hx.1 ?_
      simpa only [nodes, Function.update_of_ne hie] using hmem
  · refine hx.2 (List.mem_cons_of_mem _ ?_)
    rw [hl, List.map_append]
    exact List.mem_append_left _ hmem

/-! ## Every operation -/

omit [DecidableEq ι] [DecidableEq E] in
/-- The place before a node that is on a list. -/
theorem Rep.place_before (h : Rep valid L lists) (hx : OnList valid L n) :
    ∃ i u v, valid i = true ∧ lists i = u ++ v ∧
      (v.map Node.elem ++ [Node.anchor i]).head? = some n := by
  obtain ⟨i, hv, hx⟩ := h.onList hx
  rcases List.mem_cons.mp hx with rfl | hx
  · exact ⟨i, lists i, [], hv, by simp, rfl⟩
  · obtain ⟨e, he, rfl⟩ := List.mem_map.mp hx
    obtain ⟨u, v, hl⟩ := List.append_of_mem he
    exact ⟨i, u, e :: v, hv, hl, rfl⟩

omit [DecidableEq ι] [DecidableEq E] in
/-- The place after a node that is on a list. -/
theorem Rep.place_after (h : Rep valid L lists) (hx : OnList valid L p) :
    ∃ i u v, valid i = true ∧ lists i = u ++ v ∧
      (Node.anchor i :: u.map .elem).getLast? = some p := by
  obtain ⟨i, hv, hx⟩ := h.onList hx
  rcases List.mem_cons.mp hx with rfl | hx
  · exact ⟨i, [], lists i, hv, rfl, rfl⟩
  · obtain ⟨e, he, rfl⟩ := List.mem_map.mp hx
    obtain ⟨u, v, hl⟩ := List.append_of_mem he
    refine ⟨i, u ++ [e], v, hv, by rw [hl, List.append_assoc, List.singleton_append], ?_⟩
    rw [List.map_append, ← List.cons_append]
    exact List.getLast?_concat

omit [DecidableEq ι] [DecidableEq E] in
theorem detached_unique {m' : List E} (h : Detached L first m last)
    (h' : Detached L first m' last) : m = m' :=
  List.map_injective_iff.mpr (fun _ _ he => Node.elem.inj he) (h.segment.right_unique h'.segment)

theorem Rep.exec (h : Rep valid L lists) {op : Op ι E} (hpre : Pre valid L op) :
    ∃ r L', exec L op = some (r, L') ∧ Meets valid L lists r L' op := by
  cases op with
  | pushFront i e =>
    obtain ⟨hv, he⟩ := hpre
    obtain ⟨n, hn⟩ := exists_after (Node.anchor i) ((lists i).map .elem)
    obtain ⟨L', hins, hrep, hk⟩ := h.insertBefore hv (u := []) rfl hn he
    have hfront : Adj L (.anchor i) n := LinkRing.adj (u := []) (h.ring i hv) rfl hn
    refine ⟨.void, L', ?_, rfl, hrep, hk⟩
    rw [ListStore.exec, pushFront, hfront.1, Option.bind_some, hins]
    rfl
  | pushBack i e =>
    obtain ⟨L', hsplice, hrep, hk⟩ := h.spliceBack hpre.1 (detached_singleton hpre.2)
    exact ⟨.void, L', by rw [ListStore.exec, pushBack, hsplice]; rfl, rfl, hrep, hk⟩
  | spliceBack i first last =>
    obtain ⟨hv, m, hm⟩ := hpre
    obtain ⟨L', hsplice, hrest⟩ := h.spliceBack hv hm
    refine ⟨.void, L', by rw [ListStore.exec, hsplice]; rfl, rfl, fun m' hm' => ?_⟩
    rw [detached_unique hm' hm]
    exact hrest
  | insertBefore next e =>
    obtain ⟨he, hnext⟩ := hpre
    obtain ⟨i, u, v, hv, hl, hn⟩ := h.place_before hnext
    obtain ⟨L', hins, hrest⟩ := h.insertBefore hv hl hn he
    exact ⟨.void, L', by rw [ListStore.exec, hins]; rfl, i, u, v, hl, hn, rfl, hrest⟩
  | insertAfter prev e =>
    obtain ⟨he, hprev⟩ := hpre
    obtain ⟨i, u, v, hv, hl, hp⟩ := h.place_after hprev
    obtain ⟨L', hins, hrep, hk⟩ := h.insertAfter hv hl hp (detached_singleton he)
    rw [List.append_assoc] at hrep
    exact ⟨.void, L', by rw [ListStore.exec, hins]; rfl, i, u, v, hl, hp, rfl, hrep, hk⟩
  | insertAllAfter prev first last =>
    obtain ⟨⟨m, hm⟩, hprev⟩ := hpre
    obtain ⟨i, u, v, hv, hl, hp⟩ := h.place_after hprev
    obtain ⟨L', hins, hrest⟩ := h.insertAfter hv hl hp hm
    refine ⟨.void, L', by rw [ListStore.exec, hins]; rfl, i, u, v, hl, hp, rfl, fun m' hm' => ?_⟩
    rw [detached_unique hm' hm]
    exact hrest
  | remove e =>
    obtain ⟨i, hv, he⟩ := h.onList hpre
    obtain ⟨u, v, hl⟩ := List.append_of_mem (elem_mem_nodes.mp he)
    obtain ⟨L', hremove, hrest⟩ := h.remove hv hl
    exact ⟨_, L', by rw [ListStore.exec, hremove]; rfl, i, u, v, hl, rfl, hrest⟩
  | removeCount i first count =>
    obtain ⟨hv, ⟨l, hring, hfirst⟩, hc⟩ := hpre
    rw [hring.unique (h.ring i hv)] at hfirst
    obtain ⟨u, v, hl⟩ := List.append_of_mem (by simpa using hfirst : first ∈ lists i)
    obtain ⟨last, L', hremove, hrest⟩ := h.removeCount hv hl rfl hc
    exact ⟨_, L', by rw [ListStore.exec, hremove]; rfl, u, first :: v, last, hl, rfl, rfl, hrest⟩
  | popFront i =>
    obtain ⟨hv, hne⟩ := hpre
    obtain ⟨e, -, hfirst, -, hnext, -⟩ := h.ends hv (h.ne_nil hv hne)
    obtain ⟨l, hl⟩ := List.head?_eq_some_iff.mp hfirst
    obtain ⟨L', hremove, hrest⟩ := h.remove hv (u := []) hl
    refine ⟨_, L', ?_, e, l, hl, rfl, hrest⟩
    rw [ListStore.exec, popFront, hnext, Option.bind_some, hremove]
    rfl
  | popBack i =>
    obtain ⟨hv, hne⟩ := hpre
    obtain ⟨-, e, -, hlast, -, hprev⟩ := h.ends hv (h.ne_nil hv hne)
    obtain ⟨l, hl⟩ := List.getLast?_eq_some_iff.mp hlast
    obtain ⟨L', hremove, hnull, hrep, hk⟩ := h.remove hv hl
    rw [List.append_nil] at hrep
    refine ⟨_, L', ?_, e, l, hl, rfl, hnull, hrep, hk⟩
    rw [ListStore.exec, popBack, hprev, Option.bind_some, hremove]
    rfl
  | transferFrom i el count =>
    obtain ⟨hv, hvl, hne, hc⟩ := hpre
    obtain ⟨first, -, hfirst, -, hnext, -⟩ := h.ends hvl (h.ne_nil hvl hne)
    obtain ⟨last, L₁, hremove, hchain, hrep, hk⟩ := h.removeCount hvl (u := []) rfl hfirst hc
    obtain ⟨L', hsplice, hrest⟩ := Rep.resplice hv (List.take_append_drop _ _).symm hrep hk hchain
    refine ⟨_, L', ?_, rfl, hrest⟩
    simp [ListStore.exec, transferFrom, hnext, hremove, hsplice]
  | transferAllFrom i el =>
    obtain ⟨hv, hvl, hne⟩ := hpre
    obtain ⟨first, last, hfirst, hlast, hnext, hprev⟩ := h.ends hvl (h.ne_nil hvl hne)
    obtain ⟨L₁, rfl, hchain, hrep, hk⟩ := h.takeAll hvl hfirst hlast
    obtain ⟨L', hsplice, hrest⟩ := Rep.resplice hv (List.append_nil _).symm hrep hk hchain
    refine ⟨.void, L', ?_, rfl, hrest⟩
    rw [ListStore.exec, transferAllFrom, hnext, Option.bind_some, hprev, Option.bind_some, hsplice]
    rfl

/-- After an operation the lists are sequences again. -/
theorem Meets.rep {r : Res ι E} {op : Op ι E} (hpre : Pre valid L op)
    (h : Meets valid L lists r L' op) : ∃ lists', Rep valid L' lists' := by
  cases op with
  | pushFront => exact ⟨_, h.2.1⟩
  | pushBack => exact ⟨_, h.2.1⟩
  | spliceBack =>
    obtain ⟨-, m, hm⟩ := hpre
    exact ⟨_, (h.2 m hm).1⟩
  | insertBefore =>
    obtain ⟨i, u, v, -, -, -, hrep, -⟩ := h
    exact ⟨_, hrep⟩
  | insertAfter =>
    obtain ⟨i, u, v, -, -, -, hrep, -⟩ := h
    exact ⟨_, hrep⟩
  | insertAllAfter =>
    obtain ⟨⟨m, hm⟩, -⟩ := hpre
    obtain ⟨i, u, v, -, -, -, hrest⟩ := h
    exact ⟨_, (hrest m hm).1⟩
  | remove =>
    obtain ⟨i, u, v, -, -, -, hrep, -⟩ := h
    exact ⟨_, hrep⟩
  | removeCount =>
    obtain ⟨u, v, last, -, -, -, -, hrep, -⟩ := h
    exact ⟨_, hrep⟩
  | popFront =>
    obtain ⟨e, l, -, -, -, hrep, -⟩ := h
    exact ⟨_, hrep⟩
  | popBack =>
    obtain ⟨e, l, -, -, -, hrep, -⟩ := h
    exact ⟨_, hrep⟩
  | transferFrom => exact ⟨_, h.2.1⟩
  | transferAllFrom => exact ⟨_, h.2.1⟩

/-! ## Every run -/

theorem rep_initial (h : (machine ι E).init L) : Rep (fun _ => true) L fun _ => [] where
  ring i _ := LinkRing.nil (by rw [h i]) (by rw [h i])
  one e i j he _ := absurd he List.not_mem_nil
  nil i hi := rfl

theorem rep_reachable (h : (machine ι E).ReachableBy (Pre fun _ => true) L) :
    ∃ lists, Rep (fun _ => true) L lists := by
  refine h.invariant (I := fun L => ∃ lists, Rep (fun _ => true) L lists)
    (fun L h0 => ⟨_, rep_initial h0⟩) ?_
  intro L op L' hI hpre hstep
  obtain ⟨lists, hrep⟩ := hI
  obtain ⟨r, L₁, hexec, hmeets⟩ := hrep.exec hpre
  obtain rfl : L₁ = L' := by simpa [machine, hexec] using hstep
  exact hmeets.rep hpre

omit [DecidableEq ι] [DecidableEq E] in
/-- On a ring the two directions are inverse to each other. -/
theorem Rep.inverse (h : Rep valid L lists) (hv : valid i = true) (hx : x ∈ nodes lists i) :
    ∃ y z, y ∈ nodes lists i ∧ z ∈ nodes lists i ∧ (L x).next = some y ∧ (L y).prev = some x ∧
      (L x).prev = some z ∧ (L z).next = some x := by
  obtain ⟨y, hy, hxy⟩ := (h.ring i hv).exists_next hx
  obtain ⟨z, hz, hzx⟩ := (h.ring i hv).exists_prev hx
  exact ⟨y, z, hy, hz, hxy.1, hxy.2, hzx.2, hzx.1⟩

/-- Whatever has been done before, each list is a circle through its anchor on which the two
directions are inverse to each other, no element is on two lists, and every operation under its
precondition returns and does to the sequences what `Meets` says. -/
theorem lists_are_sequences (h : (machine ι E).ReachableBy (Pre fun _ => true) L) :
    ∃ lists, (∀ i, LinkRing L (.anchor i) ((lists i).map .elem)) ∧
      (∀ e i j, e ∈ lists i → e ∈ lists j → i = j) ∧
      (∀ i, ∀ x ∈ nodes lists i, ∃ y z, y ∈ nodes lists i ∧ z ∈ nodes lists i ∧
        (L x).next = some y ∧ (L y).prev = some x ∧ (L x).prev = some z ∧ (L z).next = some x) ∧
      ∀ op, Pre (fun _ => true) L op →
        ∃ r L', exec L op = some (r, L') ∧ Meets (fun _ => true) L lists r L' op := by
  obtain ⟨lists, hrep⟩ := rep_reachable h
  exact ⟨lists, fun i => hrep.ring i rfl, fun e i j => @hrep.one e i j,
    fun i x hx => hrep.inverse rfl hx, fun op hpre => hrep.exec hpre⟩

/-- Two elements, of which a transfer from the list to itself moves the first one behind the
second. -/
theorem lists_are_sequences_turned :
    ∃ L : Links Unit ℕ, (machine Unit ℕ).ReachableBy (Pre fun _ => true) L ∧
      ∃ lists : Unit → List ℕ, (∀ i, LinkRing L (.anchor i) ((lists i).map .elem)) ∧
        lists () = [8, 7] := by
  obtain ⟨L, hL⟩ : ∃ L : Links Unit ℕ, L = construct (fun _ => ⟨none, none⟩) (.anchor ()) :=
    ⟨_, rfl⟩
  have hinit : (machine Unit ℕ).init L := fun _ => hL ▸ rfl
  subst hL
  have h₁ : (machine Unit ℕ).ReachableBy (Pre fun _ => true) _ :=
    .step (a := .pushBack () 7) (.init hinit) ⟨rfl, rfl⟩ rfl
  have h₂ : (machine Unit ℕ).ReachableBy (Pre fun _ => true) _ :=
    .step (a := .pushBack () 8) h₁ ⟨rfl, rfl⟩ rfl
  have h₃ : (machine Unit ℕ).ReachableBy (Pre fun _ => true) _ :=
    .step (a := .transferFrom () () 1) h₂ ⟨rfl, rfl, rfl, by decide⟩ rfl
  obtain ⟨lists, hring, -⟩ := lists_are_sequences h₃
  refine ⟨_, h₃, lists, hring, List.map_injective_iff.mpr (fun _ _ he => Node.elem.inj he)
    ((hring ()).unique ⟨?_, by decide⟩)⟩
  exact .cons_cons ⟨rfl, rfl⟩ (.cons_cons ⟨rfl, rfl⟩ (.cons_cons ⟨rfl, rfl⟩ (.singleton _)))

end ListStore

end UThreads
