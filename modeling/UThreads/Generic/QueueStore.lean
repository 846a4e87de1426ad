import UThreads.Generic.IntrusiveQueue
import UThreads.Lib.CountedWalk
import UThreads.Lib.Family
import UThreads.Lib.Machine

/-!
# Any number of `IntrusiveQueue`s

The queues `queues i` share one store of `next` pointers. An operation names its queues by their
indices, and one queue may be both the source and the destination. Counts are machine words, and the
loop of `pop(count)` is the one that writes its own bound.

`Rep s lists` says that each queue represents a list, and that no element is on two queues.

**Operations** (`Op`, `exec`). Nothing is assumed of the pointers when the queues are constructed.

**Preconditions** (`Pre`). An element that is pushed is on no queue and has a null pointer; so have
the elements of a chain, with null after the last one. A queue that is popped, moved or emptied has
an element. Counts are not 0.

**Theorem (`queues_are_lists`).** After every sequence of operations each queue is a list, and each
operation is the one on lists that `Meets` describes: it returns, with the right result, and it
leaves the other queues and the other nodes as they were.

Detaching a chain (`Rep.popCount`, `Rep.removeAll`) and attaching one (`Rep.pushAll`) are proved
apart, and a transfer is one after the other. This holds whether the two queues are the same or not.
-/

namespace UThreads

namespace IntrusiveQueue

variable {E : Type*} [DecidableEq E]

/-- `pop(count)`: the last element removed and the new `count`. The loop tests its bound `count`
times at most. -/
def popCount (next : E → Option E) (q : IntrusiveQueue E) (count : BitVec 64) :
    Option (E × BitVec 64 × (E → Option E) × IntrusiveQueue E) :=
  q.head.bind fun first =>
    (countedWalk next none (count.toNat + 1) first 1 count).map fun (last, n) =>
      (last, n, q.cut next last)

variable {next : E → Option E} {q : IntrusiveQueue E} {l : List E} {count : BitVec 64}

/-- The loop that writes its own bound ends, whatever the count, at the element that `popMany`
finds. -/
theorem popCount_eq_popMany (h : Holds next q l) (hc : count ≠ 0) :
    q.popCount next count =
      (q.popMany next count.toNat).map fun (last, n, r) => (last, BitVec.ofNat 64 n, r) := by
  cases l with
  | nil =>
    have hhead : q.head = none := h.head_eq
    simp [popCount, popMany, hhead]
  | cons x l =>
    have hhead : q.head = some x := h.head_eq
    have hseg := h.segment
    rw [hhead] at hseg
    obtain ⟨m, last, hwalk, htake⟩ := countedWalk_one hseg (by simp) hc
    obtain ⟨last', next', q', hpop, -, -, hlast, -⟩ :=
      popMany_spec h (List.cons_ne_nil x l) (show 0 < count.toNat by bv_omega)
    -- Both loops have walked over the first `count` elements.
    rw [htake, List.getLast?_concat, Option.some.injEq] at hlast
    subst hlast
    obtain ⟨hfound, -, hcut⟩ : _ ∧ _ ∧ _ := by
      simpa only [popMany, hhead, Option.map_some, Option.some.injEq, Prod.mk.injEq] using hpop
    rw [hfound] at hcut
    rw [popCount, hhead, Option.bind_some, hwalk, hpop, ← hcut]
    rfl

theorem popCount_spec (h : Holds next q l) (hne : l ≠ []) (hc : count ≠ 0) :
    ∃ last next' q',
      q.popCount next count = some (last, BitVec.ofNat 64 (min count.toNat l.length), next', q') ∧
      Holds next' q' (l.drop count.toNat) ∧ Segment next' q.head (l.take count.toNat) none ∧
      (l.take count.toNat).getLast? = some last ∧ ∀ y,
      y ∉ l.take count.toNat → next' y = next y := by
  obtain ⟨last, next', q', hpop, hspec⟩ := popMany_spec h hne (show 0 < count.toNat by bv_omega)
  exact ⟨last, next', q', by rw [popCount_eq_popMany h hc, hpop]; rfl, hspec⟩

end IntrusiveQueue

namespace QueueStore

open IntrusiveQueue (Holds)

/-- The `next` pointers of all elements, and the queues. -/
structure Store (ι E : Type*) where
  next : E → Option E
  queues : ι → IntrusiveQueue E

inductive Op (ι E : Type*)
  | push (i : ι) (elem : E)
  | pushAll (i : ι) (first last : E)
  | pop (i : ι)
  | popCount (i : ι) (count : BitVec 64)
  | transferFrom (i eq : ι) (count : BitVec 64)
  | removeAll (i : ι)
  | transferAllFrom (i eq : ι)

/-- The pointer that an operation returns, and what it stores in `count`. -/
inductive Res (E : Type*)
  | void
  | elem (x : E)
  | count (n : BitVec 64)
  | chain (last : E) (n : BitVec 64)

variable {ι E : Type*} [DecidableEq ι] [DecidableEq E]

namespace Store

/-- Queue `i` and the pointers are written. -/
def set (s : Store ι E) (i : ι) (r : (E → Option E) × IntrusiveQueue E) : Store ι E :=
  ⟨r.1, Function.update s.queues i r.2⟩

/-- `push(first, last)` -/
def pushAll (s : Store ι E) (i : ι) (first last : E) : Option (Store ι E) :=
  ((s.queues i).pushAll s.next first last).map (s.set i)

/-- `pop()` -/
def pop (s : Store ι E) (i : ι) : Option (E × Store ι E) :=
  ((s.queues i).pop s.next).map fun (last, r) => (last, s.set i r)

/-- `pop(count)` -/
def popCount (s : Store ι E) (i : ι) (count : BitVec 64) : Option (E × BitVec 64 × Store ι E) :=
  ((s.queues i).popCount s.next count).map fun (last, n, r) => (last, n, s.set i r)

/-- `transferFrom(eq, count)` -/
def transferFrom (s : Store ι E) (i eq : ι) (count : BitVec 64) : Option (BitVec 64 × Store ι E) :=
  (s.queues eq).head.bind fun first =>
    (s.popCount eq count).bind fun (last, n, s) =>
      (s.pushAll i first last).map fun s => (n, s)

/-- `removeAll()` -/
def removeAll (s : Store ι E) (i : ι) : Option (E × Store ι E) :=
  ((s.queues i).removeAll s.next).map fun (last, r) => (last, s.set i r)

/-- `transferAllFrom(eq)` -/
def transferAllFrom (s : Store ι E) (i eq : ι) : Option (Store ι E) :=
  (s.queues eq).head.bind fun first =>
    (s.queues eq).tail.bind fun last =>
      (s.set eq (Function.update s.next last none, .new)).pushAll i first last

end Store

def exec (s : Store ι E) : Op ι E → Option (Res E × Store ι E)
  | .push i elem => (s.pushAll i elem elem).map fun s => (.void, s)
  | .pushAll i first last => (s.pushAll i first last).map fun s => (.void, s)
  | .pop i => (s.pop i).map fun (x, s) => (.elem x, s)
  | .popCount i count => (s.popCount i count).map fun (last, n, s) => (.chain last n, s)
  | .transferFrom i eq count => (s.transferFrom i eq count).map fun (n, s) => (.count n, s)
  | .removeAll i => (s.removeAll i).map fun (last, s) => (.elem last, s)
  | .transferAllFrom i eq => (s.transferAllFrom i eq).map fun s => (.void, s)

/-- The queues are constructed; the pointers are any. -/
def machine (ι E : Type*) [DecidableEq ι] [DecidableEq E] : Machine (Store ι E) (Op ι E) where
  init s := ∀ i, s.queues i = .new
  step s op := (exec s op).map Prod.snd

/-! ## Preconditions -/

/-- The nodes `m` from `first` to `last` are linked, and null comes after them. -/
structure Chain (next : E → Option E) (first : E) (m : List E) (last : E) : Prop where
  segment : Segment next (some first) m none
  last : m.getLast? = some last

/-- The element is on no queue. -/
def Free (s : Store ι E) (x : E) : Prop := ∀ i l, Holds s.next (s.queues i) l → x ∉ l

/-- What the callers guarantee. -/
def Pre (s : Store ι E) : Op ι E → Prop
  | .push _ elem => s.next elem = none ∧ Free s elem
  | .pushAll _ first last => ∃ m, Chain s.next first m last ∧ ∀ x ∈ m, Free s x
  | .pop i | .removeAll i => (s.queues i).head ≠ none
  | .popCount i count => (s.queues i).head ≠ none ∧ count ≠ 0
  | .transferFrom _ eq count => (s.queues eq).head ≠ none ∧ count ≠ 0
  | .transferAllFrom _ eq => (s.queues eq).head ≠ none

/-! ## Queues as lists -/

/-- Queue `i` represents the list `lists i`, and no element is on two queues. -/
def Rep (s : Store ι E) (lists : ι → List E) : Prop :=
  Parts (fun i next l => Holds next (s.queues i) l) s.next lists

/-- The queues that are not in `is` and the nodes that are not in `xs` are as they were. -/
structure Kept (s s' : Store ι E) (is : List ι) (xs : List E) : Prop where
  queues : ∀ j, j ∉ is → s'.queues j = s.queues j
  next : ∀ x, x ∉ xs → s'.next x = s.next x

/-- The operations on lists. -/
def Meets (s : Store ι E) (lists : ι → List E) (r : Res E) (s' : Store ι E) : Op ι E → Prop
  | .push i elem =>
    r = .void ∧ Rep s' (Function.update lists i (lists i ++ [elem])) ∧
      Kept s s' [i] (lists i ++ [elem])
  | .pushAll i first last =>
    r = .void ∧ ∀ m, Chain s.next first m last →
      Rep s' (Function.update lists i (lists i ++ m)) ∧ Kept s s' [i] (lists i ++ m)
  | .pop i =>
    ∃ x l, lists i = x :: l ∧ r = .elem x ∧ s'.next x = none ∧
      Rep s' (Function.update lists i l) ∧ Kept s s' [i] (lists i)
  | .popCount i count =>
    ∃ first last, (s.queues i).head = some first ∧
      r = .chain last (BitVec.ofNat 64 (min count.toNat (lists i).length)) ∧
      Chain s'.next first ((lists i).take count.toNat) last ∧
      Rep s' (Function.update lists i ((lists i).drop count.toNat)) ∧ Kept s s' [i] (lists i)
  | .transferFrom i eq count =>
    let rest := Function.update lists eq ((lists eq).drop count.toNat)
    r = .count (BitVec.ofNat 64 (min count.toNat (lists eq).length)) ∧
      Rep s' (Function.update rest i (rest i ++ (lists eq).take count.toNat)) ∧
      Kept s s' [i, eq] (lists i ++ lists eq)
  | .removeAll i =>
    ∃ first last, (s.queues i).head = some first ∧ r = .elem last ∧
      Chain s'.next first (lists i) last ∧ Rep s' (Function.update lists i []) ∧
      Kept s s' [i] (lists i)
  | .transferAllFrom i eq =>
    let rest := Function.update lists eq []
    r = .void ∧ Rep s' (Function.update rest i (rest i ++ lists eq)) ∧
      Kept s s' [i, eq] (lists i ++ lists eq)

variable {s s' s₁ s₂ : Store ι E} {lists : ι → List E} {i eq : ι} {first last x : E} {m : List E}

omit [DecidableEq ι] [DecidableEq E] in
theorem Kept.trans {is is' js : List ι} {xs xs' ys : List E} (h : Kept s s₁ is xs)
    (h' : Kept s₁ s₂ is' xs') (his : ∀ i, i ∈ is ∨ i ∈ is' → i ∈ js)
    (hxs : ∀ x, x ∈ xs ∨ x ∈ xs' → x ∈ ys) : Kept s s₂ js ys where
  queues j hj := by
    rw [h'.queues j fun hm => hj (his j (.inr hm)), h.queues j fun hm => hj (his j (.inl hm))]
  next x hx := by
    rw [h'.next x fun hm => hx (hxs x (.inr hm)), h.next x fun hm => hx (hxs x (.inl hm))]

omit [DecidableEq E] in
theorem kept_set {r : (E → Option E) × IntrusiveQueue E} {xs : List E}
    (h : ∀ x, x ∉ xs → r.1 x = s.next x) : Kept s (s.set i r) [i] xs where
  queues j hj := Function.update_of_ne (by simpa using hj) ..
  next := h

omit [DecidableEq ι] [DecidableEq E] in
theorem Rep.holds (h : Rep s lists) (i : ι) : Holds s.next (s.queues i) (lists i) := Parts.holds h i

omit [DecidableEq E] in
theorem holds_unique {next : E → Option E} {q : IntrusiveQueue E} {l l' : List E}
    (h : Holds next q l) (h' : Holds next q l') : l = l' :=
  h.segment.right_unique h'.segment

omit [DecidableEq ι] [DecidableEq E] in
theorem Rep.free_iff (h : Rep s lists) : Free s x ↔ ∀ i, x ∉ lists i := by
  refine ⟨fun hx i => hx i _ (h.holds i), fun hx i l hl => ?_⟩
  rw [holds_unique hl (h.holds i)]
  exact hx i

omit [DecidableEq ι] [DecidableEq E] in
theorem Rep.ne_nil (h : Rep s lists) (hi : (s.queues i).head ≠ none) : lists i ≠ [] :=
  fun hl => hi ((h.holds i).head_none_iff.mpr hl)

omit [DecidableEq E] in
/-- Queue `i` changes. The elements that it gets were on no queue. -/
theorem Rep.set (h : Rep s lists) {r : (E → Option E) × IntrusiveQueue E} {l : List E}
    (hq : Holds r.1 r.2 l) (hnew : ∀ x ∈ l, x ∈ lists i ∨ ∀ j, x ∉ lists j)
    (hframe : ∀ x, x ∉ lists i → x ∉ l → r.1 x = s.next x) :
    Rep (s.set i r) (Function.update lists i l) := by
  apply Parts.change h
  · show Holds r.1 (Function.update s.queues i r.2 i) l
    rwa [Function.update_self]
  · exact fun _ _ _ hl hc => hl.congr hc
  · intro j hj
    simp [Store.set, hj]
  · exact hnew
  · exact hframe

/-! ## Chains are attached and detached -/

theorem Rep.pushAll (h : Rep s lists) (hm : Chain s.next first m last)
    (hfree : ∀ x ∈ m, ∀ j, x ∉ lists j) :
    ∃ s', s.pushAll i first last = some s' ∧ Rep s' (Function.update lists i (lists i ++ m)) ∧
      Kept s s' [i] (lists i ++ m) := by
  obtain ⟨next', q', hpush, hq, hframe⟩ :=
    IntrusiveQueue.pushAll_spec (h.holds i) hm.segment hm.last
    hm.segment.nodup (fun x hx hxm => hfree x hxm i hx)
  refine ⟨s.set i (next', q'), by rw [Store.pushAll, hpush]; rfl, h.set hq ?_ ?_, kept_set ?_⟩
  · intro x hx
    exact (List.mem_append.mp hx).imp_right (hfree x)
  · exact fun x hx _ => hframe x hx
  · intro x hx
    exact hframe x fun hxi => hx (List.mem_append_left _ hxi)

omit [DecidableEq E] in
/-- What a removal from the front leaves behind. -/
theorem Rep.rest (h : Rep s lists) {r : (E → Option E) × IntrusiveQueue E} {l : List E}
    (hq : Holds r.1 r.2 l) (hl : l ⊆ lists i) (hframe : ∀ x, x ∉ lists i → r.1 x = s.next x) :
    Rep (s.set i r) (Function.update lists i l) ∧ Kept s (s.set i r) [i] (lists i) :=
  ⟨h.set hq (fun _ hx => .inl (hl hx)) fun x hx _ => hframe x hx, kept_set hframe⟩

theorem Rep.pop (h : Rep s lists) {l : List E} (hl : lists i = x :: l) :
    ∃ s', s.pop i = some (x, s') ∧ s'.next x = none ∧ Rep s' (Function.update lists i l) ∧
      Kept s s' [i] (lists i) := by
  have hi := h.holds i
  rw [hl] at hi
  obtain ⟨next', q', hpop, hq, hnull, hframe⟩ := IntrusiveQueue.pop_spec hi
  refine ⟨s.set i (next', q'), by rw [Store.pop, hpop]; rfl, hnull, h.rest hq ?_ ?_⟩
  · rw [hl]
    exact List.subset_cons_self x l
  · intro y hy
    apply hframe
    rintro rfl
    simp [hl] at hy

theorem Rep.popCount (h : Rep s lists) (hi : (s.queues i).head ≠ none) {count : BitVec 64}
    (hc : count ≠ 0) :
    ∃ first last s', (s.queues i).head = some first ∧
      s.popCount i count = some (last, BitVec.ofNat 64 (min count.toNat (lists i).length), s') ∧
      Chain s'.next first ((lists i).take count.toNat) last ∧
      Rep s' (Function.update lists i ((lists i).drop count.toNat)) ∧ Kept s s' [i] (lists i) := by
  obtain ⟨first, hfirst⟩ := Option.ne_none_iff_exists'.mp hi
  obtain ⟨last, next', q', hpop, hq, hseg, hlast, hframe⟩ :=
    IntrusiveQueue.popCount_spec (h.holds i) (h.ne_nil hi) hc
  rw [hfirst] at hseg
  refine ⟨first, last, s.set i (next', q'), hfirst, by rw [Store.popCount, hpop]; rfl,
    ⟨hseg, hlast⟩, h.rest hq (List.drop_subset ..) fun x hx => ?_⟩
  exact hframe x fun hxi => hx (List.mem_of_mem_take hxi)

theorem Rep.removeAll (h : Rep s lists) (hi : (s.queues i).head ≠ none) :
    ∃ first last next', (s.queues i).head = some first ∧ (s.queues i).tail = some last ∧
      next' = Function.update s.next last none ∧ Chain next' first (lists i) last ∧
      Rep (s.set i (next', .new)) (Function.update lists i []) ∧
      Kept s (s.set i (next', .new)) [i] (lists i) := by
  obtain ⟨first, last, next', hfirst, hremove, hseg, hlast, hframe⟩ :=
    IntrusiveQueue.removeAll_spec (h.holds i) (h.ne_nil hi)
  obtain ⟨_, htail, he⟩ := Option.map_eq_some_iff.mp hremove
  obtain ⟨rfl, rfl⟩ : _ = last ∧ _ = next' := by simpa using he
  exact ⟨first, _, _, hfirst, htail, rfl, ⟨hseg, hlast⟩,
    h.rest IntrusiveQueue.holds_new (List.nil_subset _) hframe⟩

omit [DecidableEq E] in
/-- A chain that queue `eq` has lost is on no queue. -/
theorem Rep.detached_free (h : Rep s lists) {l r : List E} (hl : lists eq = l ++ r) (hx : x ∈ l)
    (j : ι) : x ∉ Function.update lists eq r j := by
  by_cases hj : j = eq
  · have hn := (h.holds eq).nodup
    rw [hl, List.nodup_append'] at hn
    rw [hj, Function.update_self]
    exact hn.2.2 hx
  · rw [Function.update_of_ne hj]
    intro hxj
    exact hj (Parts.one h hxj (hl ▸ List.mem_append_left _ hx))

/-- A chain that queue `eq` has lost is attached to queue `i`, which may be the same one. -/
theorem Rep.reattach (h : Rep s lists) {l r : List E} (hl : lists eq = l ++ r)
    (h₁ : Rep s₁ (Function.update lists eq r)) (hk : Kept s s₁ [eq] (lists eq))
    (hchain : Chain s₁.next first l last) :
    ∃ s', s₁.pushAll i first last = some s' ∧
      Rep s' (Function.update (Function.update lists eq r) i (Function.update lists eq r i ++ l)) ∧
      Kept s s' [i, eq] (lists i ++ lists eq) := by
  obtain ⟨s', hpush, hrep, hk'⟩ := h₁.pushAll (i := i) hchain fun x hx => h.detached_free hl hx
  refine ⟨s', hpush, hrep, hk.trans hk' (fun j hj => by simpa [or_comm] using hj) fun x hx => ?_⟩
  rw [List.mem_append]
  rcases hx with hx | hx
  · exact .inr hx
  · rcases List.mem_append.mp hx with hx | hx
    · by_cases hie : i = eq
      · rw [hie, Function.update_self] at hx
        exact .inr (hl ▸ List.mem_append_right _ hx)
      · rw [Function.update_of_ne hie] at hx
        exact .inl hx
    · exact .inr (hl ▸ List.mem_append_left _ hx)

/-! ## Every operation -/

theorem Rep.exec (h : Rep s lists) {op : Op ι E} (hpre : Pre s op) :
    ∃ r s', exec s op = some (r, s') ∧ Meets s lists r s' op := by
  cases op with
  | push i elem =>
    obtain ⟨hnull, hfree⟩ := hpre
    have hchain : Chain s.next elem [elem] elem := ⟨⟨rfl, hnull⟩, rfl⟩
    obtain ⟨s', hpush, hrep, hk⟩ := h.pushAll (i := i) hchain (by simpa using h.free_iff.mp hfree)
    exact ⟨.void, s', by rw [QueueStore.exec, hpush]; rfl, rfl, hrep, hk⟩
  | pushAll i first last =>
    obtain ⟨m, hm, hfree⟩ := hpre
    obtain ⟨s', hpush, hrep, hk⟩ := h.pushAll (i := i) hm fun x hx => h.free_iff.mp (hfree x hx)
    refine ⟨.void, s', by rw [QueueStore.exec, hpush]; rfl, rfl, fun m' hm' => ?_⟩
    rw [hm'.segment.right_unique hm.segment]
    exact ⟨hrep, hk⟩
  | pop i =>
    obtain ⟨x, l, hl⟩ := List.exists_cons_of_ne_nil (h.ne_nil hpre)
    obtain ⟨s', hpop, hnull, hrep, hk⟩ := h.pop hl
    exact ⟨.elem x, s', by rw [QueueStore.exec, hpop]; rfl, x, l, hl, rfl, hnull, hrep, hk⟩
  | popCount i count =>
    obtain ⟨first, last, s', hfirst, hpop, hchain, hrep, hk⟩ := h.popCount hpre.1 hpre.2
    exact ⟨_, s', by rw [QueueStore.exec, hpop]; rfl, first, last, hfirst, rfl, hchain, hrep, hk⟩
  | transferFrom i eq count =>
    obtain ⟨first, last, s₁, hfirst, hpop, hchain, hrep, hk⟩ := h.popCount hpre.1 hpre.2
    obtain ⟨s', hpush, hrep', hk'⟩ :=
      h.reattach (i := i) (List.take_append_drop count.toNat (lists eq)).symm hrep hk hchain
    refine ⟨_, s', ?_, rfl, hrep', hk'⟩
    simp [QueueStore.exec, Store.transferFrom, hfirst, hpop, hpush]
  | removeAll i =>
    obtain ⟨first, last, next', hfirst, htail, rfl, hchain, hrep, hk⟩ := h.removeAll hpre
    refine ⟨.elem last, _, ?_, first, last, hfirst, rfl, hchain, hrep, hk⟩
    simp [QueueStore.exec, Store.removeAll, IntrusiveQueue.removeAll, htail]
  | transferAllFrom i eq =>
    obtain ⟨first, last, next', hfirst, htail, rfl, hchain, hrep, hk⟩ := h.removeAll hpre
    obtain ⟨s', hpush, hrep', hk'⟩ :=
      h.reattach (i := i) (List.append_nil (lists eq)).symm hrep hk hchain
    refine ⟨.void, s', ?_, rfl, hrep', hk'⟩
    simp [QueueStore.exec, Store.transferAllFrom, hfirst, htail, hpush]

omit [DecidableEq E] in
/-- After an operation the queues are lists again. -/
theorem Meets.rep {r : Res E} {op : Op ι E} (hpre : Pre s op) (h : Meets s lists r s' op) :
    ∃ lists', Rep s' lists' := by
  cases op with
  | push => exact ⟨_, h.2.1⟩
  | pushAll =>
    obtain ⟨m, hm, -⟩ := hpre
    exact ⟨_, (h.2 m hm).1⟩
  | pop =>
    obtain ⟨x, l, -, -, -, hrep, -⟩ := h
    exact ⟨_, hrep⟩
  | popCount =>
    obtain ⟨first, last, -, -, -, hrep, -⟩ := h
    exact ⟨_, hrep⟩
  | transferFrom => exact ⟨_, h.2.1⟩
  | removeAll =>
    obtain ⟨first, last, -, -, -, hrep, -⟩ := h
    exact ⟨_, hrep⟩
  | transferAllFrom => exact ⟨_, h.2.1⟩

theorem rep_initial (h : (machine ι E).init s) : Rep s fun _ => [] where
  framed _ _ _ _ hl hc := hl.congr hc
  holds i := by
    show Holds s.next (s.queues i) []
    rw [h i]
    exact IntrusiveQueue.holds_new
  one x i j hx _ := absurd hx List.not_mem_nil

theorem rep_reachable (h : (machine ι E).ReachableBy Pre s) : ∃ lists, Rep s lists := by
  refine h.invariant (I := fun s => ∃ lists, Rep s lists) (fun s h0 => ⟨_, rep_initial h0⟩) ?_
  intro s op s' hI hpre hstep
  obtain ⟨lists, hrep⟩ := hI
  obtain ⟨r, s₁, hexec, hmeets⟩ := hrep.exec hpre
  obtain rfl : s₁ = s' := by simpa [machine, hexec] using hstep
  exact hmeets.rep hpre

omit [DecidableEq E] in
theorem holds_tail {next : E → Option E} {q : IntrusiveQueue E} {l : List E} (h : Holds next q l) :
    (q.head = none ↔ q.tail = none) ∧ ∀ t, q.tail = some t → l.getLast? = some t ∧
    next t = none := by
  constructor
  · rw [h.head_none_iff, h.tail, List.getLast?_eq_none_iff]
  · intro t ht
    have hlast : l.getLast? = some t := h.tail ▸ ht
    refine ⟨hlast, ?_⟩
    obtain ⟨l', rfl⟩ := List.getLast?_eq_some_iff.mp hlast
    exact (Segment.concat.mp h.segment).2

/-- Whatever has been done before, each queue represents a finite list without repetitions, `head`
is null iff `tail` is, `tail` is the last node and has a null pointer, and every operation under its
precondition returns and does to the lists what `Meets` says. -/
theorem queues_are_lists (h : (machine ι E).ReachableBy Pre s) :
    ∃ lists, Rep s lists ∧
      (∀ i, Holds s.next (s.queues i) (lists i) ∧
        ((s.queues i).head = none ↔ (s.queues i).tail = none) ∧
        ∀ t, (s.queues i).tail = some t → (lists i).getLast? = some t ∧ s.next t = none) ∧
      ∀ op, Pre s op → ∃ r s', exec s op = some (r, s') ∧ Meets s lists r s' op := by
  obtain ⟨lists, hrep⟩ := rep_reachable h
  exact ⟨lists, hrep, fun i => ⟨hrep.holds i, holds_tail (hrep.holds i)⟩, fun op => hrep.exec⟩

/-- A queue of one element that takes all its elements from itself, with the largest count. -/
theorem queues_are_lists_self :
    ∃ s : Store Unit ℕ, (machine Unit ℕ).ReachableBy Pre s ∧
      ∃ lists, Rep s lists ∧ lists () = [7] := by
  obtain ⟨s, hs⟩ : ∃ s : Store Unit ℕ, s = ⟨fun _ => none, fun _ => .new⟩ := ⟨_, rfl⟩
  have hinit : (machine Unit ℕ).init s := fun _ => by rw [hs]
  have hpush : Pre s (.push () 7) := by
    refine ⟨by rw [hs], fun i l hl => ?_⟩
    rw [hinit i] at hl
    rw [holds_unique hl IntrusiveQueue.holds_new]
    exact List.not_mem_nil
  subst hs
  have h₁ : (machine Unit ℕ).ReachableBy Pre _ := .step (.init hinit) hpush rfl
  have h₂ : (machine Unit ℕ).ReachableBy Pre _ :=
    .step (a := .transferFrom () () (BitVec.allOnes 64)) h₁ ⟨Option.some_ne_none 7, by decide⟩ rfl
  obtain ⟨lists, hrep, hlists, -⟩ := queues_are_lists h₂
  exact ⟨_, h₂, lists, hrep, holds_unique (hlists ()).1 ⟨⟨rfl, rfl⟩, rfl, by decide⟩⟩

/-! ## Queues whose callers clear the links -/

/-- The queues are lists, and the link of an element that is on none of them is null. -/
structure Clean (s : Store ι E) (lists : ι → List E) : Prop where
  rep : Rep s lists
  blank : ∀ x, (∀ i, x ∉ lists i) → s.next x = none

theorem clean_initial : Clean (⟨fun _ => none, fun _ => .new⟩ : Store ι E) fun _ => [] :=
  ⟨rep_initial fun _ => rfl, fun _ _ => rfl⟩

omit [DecidableEq ι] in
/-- Where an operation can have left a link that is not null. -/
theorem Clean.of_kept (h : Clean s lists) {is : List ι} {xs : List E} {lists' : ι → List E}
    (hrep : Rep s' lists') (hk : Kept s s' is xs)
    (hold : ∀ x, (∀ i, x ∉ lists' i) → x ∉ xs → ∀ i, x ∉ lists i)
    (hnew : ∀ x ∈ xs, (∀ i, x ∉ lists' i) → s'.next x = none) : Clean s' lists' := by
  refine ⟨hrep, fun x hx => ?_⟩
  by_cases hxs : x ∈ xs
  · exact hnew x hxs hx
  · rw [hk.next x hxs]
    exact h.blank x (hold x hx hxs)

theorem Clean.push (h : Clean s lists) (hx : ∀ i, x ∉ lists i) :
    ∃ s', s.pushAll i x x = some s' ∧ Clean s' (Function.update lists i (lists i ++ [x])) := by
  have hchain : Chain s.next x [x] x := ⟨⟨rfl, h.blank x hx⟩, rfl⟩
  obtain ⟨s', hpush, hrep, hk⟩ := h.rep.pushAll (i := i) hchain (by simpa using hx)
  refine ⟨s', hpush, h.of_kept hrep hk (fun y hy hyx j hyj => ?_) fun y hy hn => ?_⟩
  · by_cases hj : j = i
    · subst hj
      exact hyx (List.mem_append_left _ hyj)
    · exact hy j (by rwa [Function.update_of_ne hj])
  · exact absurd (by rwa [Function.update_self]) (hn i)

theorem Clean.pop (h : Clean s lists) {l : List E} (hl : lists i = x :: l) :
    ∃ s', s.pop i = some (x, s') ∧ Clean s' (Function.update lists i l) := by
  obtain ⟨s', hpop, hnull, hrep, hk⟩ := h.rep.pop hl
  refine ⟨s', hpop, h.of_kept hrep hk (fun y hy hyi j hyj => ?_) fun y hy hn => ?_⟩
  · by_cases hj : j = i
    · subst hj
      exact hyi hyj
    · exact hy j (by rwa [Function.update_of_ne hj])
  · rcases List.mem_cons.mp (hl ▸ hy) with rfl | hyl
    · exact hnull
    · exact absurd (by rwa [Function.update_self]) (hn i)

theorem Clean.transferAllFrom (h : Clean s lists) (hne : i ≠ eq) (heq : lists eq ≠ []) :
    ∃ s', s.transferAllFrom i eq = some s' ∧
      Clean s' (Function.update (Function.update lists eq []) i (lists i ++ lists eq)) := by
  have hhead : (s.queues eq).head ≠ none := fun hn => heq ((h.rep.holds eq).head_none_iff.mp hn)
  obtain ⟨first, last, next', hfirst, htail, rfl, hchain, hrep, hk⟩ := h.rep.removeAll hhead
  obtain ⟨s', hpush, hrep', hk'⟩ :=
    h.rep.reattach (i := i) (List.append_nil (lists eq)).symm hrep hk hchain
  rw [Function.update_of_ne hne] at hrep'
  refine ⟨s', by simp [Store.transferAllFrom, hfirst, htail, hpush],
    h.of_kept hrep' hk' (fun y hy hys j hyj => ?_) fun y hy hn => ?_⟩
  · by_cases hj : j = i ∨ j = eq
    · rcases hj with rfl | rfl
      · exact hys (List.mem_append_left _ hyj)
      · exact hys (List.mem_append_right _ hyj)
    · push Not at hj
      exact hy j (by rwa [Function.update_of_ne hj.1, Function.update_of_ne hj.2])
  · exact absurd (by rwa [Function.update_self]) (hn i)

end QueueStore

end UThreads
