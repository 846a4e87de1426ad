import UThreads.Lib.Family
import UThreads.Lib.Segment
import Mathlib.Data.List.Basic

/-!
# `IntrusiveQueue`

A queue of elements that carry their own `next` pointer. All queues of one element type share the
store `next`. A function returns `none` where the code would go through a null pointer.

`Holds next q l` says that the queue `q` holds the elements `l`, from the front to the back. Each
operation has one specification over `Holds`, with the pointers it leaves alone.
-/

namespace UThreads

/-- `head` and `tail` -/
structure IntrusiveQueue (E : Type*) where
  head : Option E
  tail : Option E
  deriving DecidableEq

namespace IntrusiveQueue

variable {E : Type*} [DecidableEq E]

/-- The constructor. -/
def new : IntrusiveQueue E := ⟨none, none⟩

/-- `push(first, last)` -/
def pushAll (next : E → Option E) (q : IntrusiveQueue E) (first last : E) :
    Option ((E → Option E) × IntrusiveQueue E) :=
  match q.head with
  | none => some (next, ⟨some first, some last⟩)
  | some x => q.tail.map fun t => (Function.update next t (some first), ⟨some x, some last⟩)

/-- `push(elem)` -/
def push (next : E → Option E) (q : IntrusiveQueue E) (elem : E) :
    Option ((E → Option E) × IntrusiveQueue E) :=
  q.pushAll next elem elem

/-- What both overloads of `pop` do once they have found the last element to remove. -/
def cut (next : E → Option E) (q : IntrusiveQueue E) (last : E) :
    (E → Option E) × IntrusiveQueue E :=
  (Function.update next last none, ⟨next last, if q.tail = some last then none else q.tail⟩)

/-- `pop()` -/
def pop (next : E → Option E) (q : IntrusiveQueue E) :
    Option (E × (E → Option E) × IntrusiveQueue E) :=
  q.head.map fun last => (last, q.cut next last)

/-- The loop of `pop(count)` at `i`, with `n` rounds to go: the last element and the new `count`. -/
def popLoop (next : E → Option E) (last : E) (i : ℕ) : ℕ → E × ℕ
  | 0 => (last, i)
  | n + 1 =>
    match next last with
    | none => (last, i)
    | some x => popLoop next x (i + 1) n

/-- `pop(count)`: the last element removed and the new `count`. -/
def popMany (next : E → Option E) (q : IntrusiveQueue E) (count : ℕ) :
    Option (E × ℕ × (E → Option E) × IntrusiveQueue E) :=
  q.head.map fun first =>
    -- With `count` 0 the loop does not begin.
    let r := if count = 0 then (first, 0) else popLoop next first 1 (count - 1)
    (r.1, r.2, q.cut next r.1)

/-- `transferFrom(eq, count)`: the new `count`, the queue and `eq`. -/
def transferFrom (next : E → Option E) (q eq : IntrusiveQueue E) (count : ℕ) :
    Option (ℕ × (E → Option E) × IntrusiveQueue E × IntrusiveQueue E) := do
  let first ← eq.head
  let (last, n, next, eq) ← eq.popMany next count
  let (next, q) ← q.pushAll next first last
  return (n, next, q, eq)

/-- `removeAll()`: the last element -/
def removeAll (next : E → Option E) (q : IntrusiveQueue E) :
    Option (E × (E → Option E) × IntrusiveQueue E) :=
  q.tail.map fun last => (last, Function.update next last none, new)

/-- `transferAllFrom(eq)` -/
def transferAllFrom (next : E → Option E) (q eq : IntrusiveQueue E) :
    Option ((E → Option E) × IntrusiveQueue E × IntrusiveQueue E) := do
  let first ← eq.head
  let last ← eq.tail
  let (next, q) ← q.pushAll (Function.update next last none) first last
  return (next, q, new)

/-! ## The elements of a queue -/

/-- The queue `q` holds the elements `l`. -/
structure Holds (next : E → Option E) (q : IntrusiveQueue E) (l : List E) : Prop where
  segment : Segment next q.head l none
  tail : q.tail = l.getLast?
  nodup : l.Nodup

variable {next next' : E → Option E} {q eq : IntrusiveQueue E} {l m : List E} {x first last : E}

omit [DecidableEq E] in
theorem holds_new : Holds next new [] := ⟨rfl, rfl, List.nodup_nil⟩

omit [DecidableEq E] in
theorem Holds.congr (h : Holds next q l) (hc : ∀ x ∈ l, next' x = next x) : Holds next' q l :=
  ⟨h.segment.congr hc, h.tail, h.nodup⟩

omit [DecidableEq E] in
theorem Holds.head_eq (h : Holds next q l) : q.head = l.head? := h.segment.head?

omit [DecidableEq E] in
/-- `empty()` -/
theorem Holds.head_none_iff (h : Holds next q l) : q.head = none ↔ l = [] := by
  rw [h.head_eq, List.head?_eq_none_iff]

omit [DecidableEq E] in
theorem Holds.eq_new (h : Holds next q []) : q = new := by
  obtain ⟨head, tail⟩ := q
  have hhead : head = none := h.segment
  have htail : tail = none := h.tail
  rw [hhead, htail, new]

/-- A chain of elements is appended. -/
theorem pushAll_spec (h : Holds next q l) (hm : Segment next (some first) m none)
    (hlast : m.getLast? = some last) (hnodup : m.Nodup) (hdisj : l.Disjoint m) :
    ∃ next' q', q.pushAll next first last = some (next', q') ∧ Holds next' q' (l ++ m) ∧
      ∀ x, x ∉ l → next' x = next x := by
  have hboth : (l ++ m).Nodup := List.nodup_append'.mpr ⟨h.nodup, hnodup, hdisj⟩
  have htail : (l ++ m).getLast? = some last := by simp [List.getLast?_append, hlast]
  rcases List.eq_nil_or_concat' l with rfl | ⟨l, t, rfl⟩
  · refine ⟨next, ⟨some first, some last⟩, ?_, ⟨hm, htail.symm, hboth⟩, fun _ _ => rfl⟩
    simp [pushAll, h.head_none_iff.mpr rfl]
  · have htl : q.tail = some t := by simp [h.tail]
    have hnot : t ∉ l := by
      have hn := h.nodup
      rw [List.nodup_append] at hn
      exact fun hmem => hn.2.2 t hmem t (by simp) rfl
    have htm : t ∉ m := hdisj (by simp)
    obtain ⟨y, hy⟩ : ∃ y, q.head = some y := by
      rw [← Option.ne_none_iff_exists', Ne, h.head_none_iff]
      simp
    refine ⟨Function.update next t (some first), ⟨some y, some last⟩, by simp [pushAll, hy, htl],
      ⟨?_, htail.symm, hboth⟩, fun x hx => Function.update_of_ne ?_ ..⟩
    · rw [Segment.append]
      refine ⟨some first, ?_, hm.update htm⟩
      rw [← hy]
      exact h.segment.update_last hnot
    · rintro rfl
      simp at hx

/-- An element is appended. -/
theorem push_spec (h : Holds next q l) (hx : x ∉ l) (hnull : next x = none) :
    ∃ next' q', q.push next x = some (next', q') ∧ Holds next' q' (l ++ [x]) ∧
      ∀ y, y ∉ l → next' y = next y :=
  pushAll_spec h (m := [x]) (by simp [hnull]) rfl (List.nodup_singleton x) (by simp [hx])

/-- The first elements, up to `last`, are removed. -/
theorem cut_spec (h : Holds next q (l ++ last :: m)) :
    Holds (q.cut next last).1 (q.cut next last).2 m ∧
      Segment (q.cut next last).1 q.head (l ++ [last]) none ∧
      ∀ y, y ≠ last → (q.cut next last).1 y = next y := by
  have hsplit : l ++ last :: m = (l ++ [last]) ++ m := by simp
  have hn := h.nodup
  rw [hsplit, List.nodup_append'] at hn
  obtain ⟨hfirst, hrest, hdisj⟩ := hn
  have hl : last ∉ l := by
    rw [List.nodup_append'] at hfirst
    exact fun hmem => hfirst.2.2 hmem (by simp)
  have hm : last ∉ m := hdisj (by simp)
  have hseg := h.segment
  rw [hsplit, Segment.append] at hseg
  obtain ⟨b, hfront, hback⟩ := hseg
  have hb : next last = b := (Segment.concat.mp hfront).2
  refine ⟨⟨?_, ?_, hrest⟩, hfront.update_last hl, fun y hy => Function.update_of_ne hy ..⟩
  · show Segment (Function.update next last none) (next last) m none
    rw [hb]
    exact hback.update hm
  · show (if q.tail = some last then none else q.tail) = m.getLast?
    rw [h.tail, hsplit]
    rcases List.eq_nil_or_concat' m with rfl | ⟨m, z, rfl⟩
    · simp
    · have hz : z ≠ last := by
        rintro rfl
        simp at hm
      rw [← List.append_assoc, List.getLast?_concat, List.getLast?_concat, if_neg]
      simpa using hz

/-- The first element is removed. -/
theorem pop_spec (h : Holds next q (x :: l)) :
    ∃ next' q', q.pop next = some (x, next', q') ∧ Holds next' q' l ∧ next' x = none ∧
      ∀ y, y ≠ x → next' y = next y := by
  obtain ⟨hrest, hfront, hframe⟩ := cut_spec (l := []) h
  refine ⟨_, _, ?_, hrest, (Segment.concat.mp hfront).2, hframe⟩
  simp [pop, h.head_eq]

omit [DecidableEq E] in
/-- The loop walks to the last element to remove. -/
theorem popLoop_spec (h : Segment next (some x) (x :: l) none) (i n : ℕ) :
    ∃ last, popLoop next x i n = (last, i + min n l.length) ∧
      (x :: l).take (n + 1) = (x :: l).take (min n l.length) ++ [last] := by
  induction n generalizing x l i with
  | zero => exact ⟨x, by simp [popLoop], by simp⟩
  | succ n ih =>
    obtain ⟨-, hl⟩ := h
    cases l with
    | nil => exact ⟨x, by simp [popLoop, show next x = none from hl], by simp⟩
    | cons y l =>
      obtain ⟨last, hloop, htake⟩ := ih ⟨rfl, hl.2⟩ (i + 1)
      refine ⟨last, ?_, ?_⟩
      · rw [popLoop, hl.1]
        simp only [hloop, List.length_cons]
        congr 1
        omega
      · rw [List.take_succ_cons, htake, List.length_cons,
          show min (n + 1) (l.length + 1) = min n l.length + 1 by omega, List.take_succ_cons,
          List.cons_append]

/-- The first `count` elements are removed, of which `last` is the last one. -/
theorem Holds.cut_take (h : Holds next q l) {count : ℕ} (htake : l.take count = m ++ [last]) :
    Holds (q.cut next last).1 (q.cut next last).2 (l.drop count) ∧
      Segment (q.cut next last).1 q.head (l.take count) none ∧ (l.take count).getLast? = some last ∧
      ∀ y, y ∉ l.take count → (q.cut next last).1 y = next y := by
  have hsplit : l = m ++ last :: l.drop count := by
    conv_lhs => rw [← List.take_append_drop count l, htake]
    simp
  have hh := h
  rw [hsplit] at hh
  obtain ⟨hrest, hfront, hframe⟩ := cut_spec hh
  rw [← htake] at hfront
  refine ⟨hrest, hfront, by simp [htake], fun y hy => hframe y ?_⟩
  rintro rfl
  simp [htake] at hy

/-- `count` elements are removed, or all if there are fewer. -/
theorem popMany_spec (h : Holds next q l) (hne : l ≠ []) {count : ℕ} (hc : 0 < count) :
    ∃ last next' q', q.popMany next count = some (last, min count l.length, next', q') ∧
      Holds next' q' (l.drop count) ∧ Segment next' q.head (l.take count) none ∧
      (l.take count).getLast? = some last ∧ ∀ y, y ∉ l.take count → next' y = next y := by
  obtain ⟨x, l, rfl⟩ := List.exists_cons_of_ne_nil hne
  have hhead : q.head = some x := h.head_eq
  have hseg := h.segment
  rw [hhead] at hseg
  obtain ⟨last, hloop, htake⟩ := popLoop_spec hseg 1 (count - 1)
  rw [show count - 1 + 1 = count by omega] at htake
  refine ⟨last, _, _, ?_, h.cut_take htake⟩
  have hz : count ≠ 0 := by omega
  simp only [popMany, hhead, hz, hloop, Option.map_some, List.length_cons, if_false]
  rw [show 1 + min (count - 1) l.length = min count (l.length + 1) by omega]

/-- The first `count` elements of `eq`, or all if there are fewer, go to the end of `q`. -/
theorem transferFrom_spec (h : Holds next q m) (he : Holds next eq l) (hne : l ≠ [])
    (hdisj : m.Disjoint l) {count : ℕ} (hc : 0 < count) :
    ∃ next' q' eq', q.transferFrom next eq count = some (min count l.length, next', q', eq') ∧
      Holds next' q' (m ++ l.take count) ∧ Holds next' eq' (l.drop count) ∧
      ∀ y, y ∉ m → y ∉ l → next' y = next y := by
  obtain ⟨last, next₁, eq₁, hpop, hrest, hseg, hlast, hframe⟩ := popMany_spec he hne hc
  obtain ⟨first, l', rfl⟩ := List.exists_cons_of_ne_nil hne
  have hhead : eq.head = some first := he.head_eq
  have hm : Holds next₁ q m :=
    h.congr fun y hy => hframe y fun hmem => hdisj hy (List.mem_of_mem_take hmem)
  rw [hhead] at hseg
  have hdisj' : m.Disjoint ((first :: l').take count) := fun y hy hy' =>
    hdisj hy (List.mem_of_mem_take hy')
  obtain ⟨next₂, q₂, hpush, hq, hframe'⟩ :=
    pushAll_spec hm hseg hlast (he.nodup.sublist (List.take_sublist ..)) hdisj'
  refine ⟨next₂, q₂, eq₁, ?_, hq, hrest.congr fun y hy => hframe' y fun hmem => ?_,
    fun y hy hy' => ?_⟩
  · simp [transferFrom, hhead, hpop, hpush]
  · exact hdisj hmem (List.mem_of_mem_drop hy)
  · rw [hframe' y hy, hframe y fun hmem => hy' (List.mem_of_mem_take hmem)]

/-- All elements are taken out, and are linked to each other still. -/
theorem removeAll_spec (h : Holds next q l) (hne : l ≠ []) :
    ∃ first last next', q.head = some first ∧ q.removeAll next = some (last, next', new) ∧
      Segment next' (some first) l none ∧ l.getLast? = some last ∧ ∀ y,
      y ∉ l → next' y = next y := by
  obtain ⟨l, last, rfl⟩ := (List.eq_nil_or_concat' l).resolve_left hne
  obtain ⟨first, hfirst⟩ : ∃ first, q.head = some first := by
    rw [← Option.ne_none_iff_exists', Ne, h.head_none_iff]
    simp
  have hnot : last ∉ l := by
    have hn := h.nodup
    rw [List.nodup_append'] at hn
    exact fun hmem => hn.2.2 hmem (by simp)
  refine ⟨first, last, Function.update next last none, hfirst, by simp [removeAll, h.tail],
    hfirst ▸ h.segment.update_last hnot, List.getLast?_concat,
    fun y hy => Function.update_of_ne ?_ ..⟩
  rintro rfl
  simp at hy

/-- All elements of `eq` go to the end of `q`. -/
theorem transferAllFrom_spec (h : Holds next q m) (he : Holds next eq l) (hne : l ≠ [])
    (hdisj : m.Disjoint l) :
    ∃ next' q', q.transferAllFrom next eq = some (next', q', new) ∧ Holds next' q' (m ++ l) ∧
      ∀ y, y ∉ m → y ∉ l → next' y = next y := by
  obtain ⟨first, last, next₁, hfirst, hremove, hseg, hlast, hframe₁⟩ := removeAll_spec he hne
  obtain ⟨rfl, htail⟩ : next₁ = Function.update next last none ∧ eq.tail = some last := by
    simp only [removeAll, Option.map_eq_some_iff, Prod.mk.injEq] at hremove
    obtain ⟨_, htail, rfl, rfl, -⟩ := hremove
    exact ⟨rfl, htail⟩
  have hm := h.congr fun y hy => hframe₁ y (hdisj hy)
  obtain ⟨next', q', hpush, hq, hframe⟩ := pushAll_spec hm hseg hlast he.nodup hdisj
  refine ⟨next', q', by simp [transferAllFrom, hfirst, htail, hpush], hq, fun y hy hy' => ?_⟩
  rw [hframe y hy, hframe₁ y hy']

/-! ## Several queues

The queues `queues i` of one element type share the pointers `next`, and are a `Family`. `place x`
is the queue that `x` is on. -/

section Placed

variable {ι : Type*} [DecidableEq ι]

structure Placed (next : E → Option E) (queues : ι → IntrusiveQueue E) (lists : ι → List E)
    (place : E → Option ι) : Prop where
  family : Family (fun i next => Holds next (queues i)) none next lists
  mem : ∀ x i, x ∈ lists i ↔ place x = some i

variable {queues : ι → IntrusiveQueue E} {lists : ι → List E} {place : E → Option ι} {i j : ι}

omit [DecidableEq E] in
theorem framed_holds : Framed fun next => Holds next q := fun _ _ _ h hc => h.congr hc

namespace Placed

omit [DecidableEq E] [DecidableEq ι] in
theorem holds (h : Placed next queues lists place) (i : ι) : Holds next (queues i) (lists i) :=
  h.family.holds i

/-- An element that is on no queue goes to the end of queue `i`. -/
theorem push (h : Placed next queues lists place) (hx : place x = none) :
    ∃ next' q', (queues i).push next x = some (next', q') ∧
      Placed next' (Function.update queues i q') (Function.update lists i (lists i ++ [x]))
        (Function.update place x (some i)) := by
  have hnot : ∀ j, x ∉ lists j := fun j => by simp [h.mem, hx]
  obtain ⟨next', q', hpush, hq, hframe⟩ :=
    push_spec (h.holds i) (hnot i) (h.family.blank x hnot)
  refine ⟨next', q', hpush, ?_, fun y j => ?_⟩
  · refine h.family.change (by simpa using hq) framed_holds (fun j hj => by simp [hj]) ?_ ?_ ?_
    · intro y hy
      rcases List.mem_append.mp hy with hy | hy
      · exact .inl hy
      · exact .inr (List.mem_singleton.mp hy ▸ hnot)
    · intro y hy hnew
      exact absurd (List.mem_append_left _ hy) hnew
    · intro y hy _
      exact hframe y hy
  · by_cases hyx : y = x
    · subst hyx
      by_cases hj : j = i
      · simp [hj]
      · simp [hj, hnot j, Ne.symm hj]
    · by_cases hj : j = i
      · simp [hj, hyx, h.mem]
      · simp [hj, hyx, h.mem]

/-- The first element of queue `i` leaves it. -/
theorem pop (h : Placed next queues lists place) (hl : lists i = x :: l) :
    ∃ next' q', (queues i).pop next = some (x, next', q') ∧
      Placed next' (Function.update queues i q') (Function.update lists i l)
        (Function.update place x none) := by
  have hi := h.holds i
  rw [hl] at hi
  have hplace : place x = some i := by
    rw [← h.mem, hl]
    exact List.mem_cons_self
  have hnot : x ∉ l := (List.nodup_cons.mp hi.nodup).1
  obtain ⟨next', q', hpop, hq, hnull, hframe⟩ := pop_spec hi
  refine ⟨next', q', hpop, ?_, fun y j => ?_⟩
  · refine h.family.change (by simpa using hq) framed_holds (fun j hj => by simp [hj]) ?_ ?_ ?_
    · intro y hy
      exact .inl (hl ▸ List.mem_cons_of_mem _ hy)
    · intro y hy hout
      rw [hl, List.mem_cons] at hy
      rw [hy.resolve_right hout]
      exact hnull
    · intro y hy _
      rw [hl, List.mem_cons, not_or] at hy
      exact hframe y hy.1
  · by_cases hyx : y = x
    · subst hyx
      by_cases hj : j = i
      · simp [hj, hnot]
      · simp [hj, h.mem, hplace, Ne.symm hj]
    · rw [Function.update_of_ne hyx, ← h.mem]
      by_cases hj : j = i
      · simp [hj, hl, hyx]
      · simp [hj]

/-- Elements `l` of queue `j` go to the end of queue `i`, and `m` stay. -/
theorem transfer (h : Placed next queues lists place) (hij : i ≠ j) (hl : lists j = l ++ m)
    {q eq : IntrusiveQueue E} (hq : Holds next' q (lists i ++ l)) (heq : Holds next' eq m)
    (hframe : ∀ y, y ∉ lists i → y ∉ lists j → next' y = next y) :
    Placed next' (Function.update (Function.update queues j eq) i q)
      (Function.update (Function.update lists j m) i (lists i ++ l))
      (fun y => if y ∈ l then some i else place y) := by
  have hnodup := (h.holds j).nodup
  rw [hl, List.nodup_append'] at hnodup
  refine ⟨?_, fun y k => ?_⟩
  · refine h.family.transfer hij hl hnodup.2.2 (by simpa using hq) (by simpa [hij.symm] using heq)
      ⟨framed_holds, framed_holds⟩ (fun k hki hkj => by simp [hki, hkj]) hframe
  · by_cases hy : y ∈ l
    · have hym : y ∉ m := fun hym => hnodup.2.2 hy hym
      have hyj : place y = some j := by
        rw [← h.mem, hl]
        exact List.mem_append_left _ hy
      by_cases hki : k = i
      · simp [hki, hy]
      · by_cases hkj : k = j
        · simp [hkj, hij.symm, hy, hij, hym]
        · simp [hki, hkj, hy, h.mem, hyj, Ne.symm hki, Ne.symm hkj]
    · rw [if_neg hy, ← h.mem]
      by_cases hki : k = i
      · simp [hki, hy]
      · by_cases hkj : k = j
        · simp [hkj, hij.symm, hl, hy]
        · simp [hki, hkj]

end Placed

end Placed

end IntrusiveQueue

end UThreads
