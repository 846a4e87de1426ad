import UThreads.Lib.Segment
import Mathlib.Data.List.Basic

/-!
# `BlockingMPSCQueue`, one operation at a time

The queue of `generic/IntrusiveContainers.h` when no two operations overlap, over the same shared
store `next` as the other containers. The stub is a node like any other; it is somewhere among the
nodes of the queue, and what is behind it was pushed after it was put there. A function returns
`none` where the code would wait for a producer for ever.

**`Holds stub next q l`** says that `l` are the nodes of the queue, the stub included, from the head
to the tail. The elements are the other nodes (`elements`).
-/

namespace UThreads

/-- `head` and `tail`, with the mark of `tail` apart -/
structure MPSCQueue (E : Type*) where
  head : E
  tail : E
  marked : Bool
  deriving DecidableEq

namespace MPSCQueue

variable {E : Type*} [DecidableEq E]

/-- The constructor. -/
def new (stub : E) : MPSCQueue E := ⟨stub, stub, true⟩

/-- `insert(first, last)`, which is `push`: its result, the links and the queue -/
def insert (next : E → Option E) (q : MPSCQueue E) (first last : E) :
    Bool × (E → Option E) × MPSCQueue E :=
  let next := Function.update next last none
  (q.marked, Function.update next q.tail (some first), ⟨q.head, last, false⟩)

/-- The last lines of `pop()` -/
def advance (next : E → Option E) (q : MPSCQueue E) : Option (E × (E → Option E) × MPSCQueue E) :=
  (next q.head).map fun head => (q.head, Function.update next q.head none, { q with head := head })

/-- `pop()`: its result, the links and the queue -/
def pop (stub : E) (next : E → Option E) (q : MPSCQueue E) :
    Option (Option E × (E → Option E) × MPSCQueue E) :=
  if q.head = stub then
    if q.marked then some (none, next, q)
    -- the compare-and-exchange
    else if q.tail = stub then some (none, next, { q with marked := true })
    else
      (next stub).bind fun head =>
        let (_, next, q) := insert next { q with head := head } stub stub
        (advance next q).map fun r => (some r.1, r.2)
  else (advance next q).map fun r => (some r.1, r.2)

/-! ## The nodes of a queue -/

/-- The nodes `l` are linked from the head to the tail. -/
structure Chained (next : E → Option E) (q : MPSCQueue E) (l : List E) : Prop where
  segment : Segment next (some q.head) l none
  tail : l.getLast? = some q.tail
  nodup : l.Nodup

structure Holds (stub : E) (next : E → Option E) (q : MPSCQueue E) (l : List E) : Prop
    extends Chained next q l where
  mem : stub ∈ l
  marked : q.marked = true → l = [stub]

/-- The elements among the nodes of a queue. -/
def elements (stub : E) (l : List E) : List E := l.filter (· ≠ stub)

variable {stub : E} {next next' : E → Option E} {q : MPSCQueue E} {l m : List E} {x first last : E}

omit [DecidableEq E] in
theorem holds_new (h : next stub = none) : Holds stub next (new stub) [stub] :=
  ⟨⟨⟨rfl, h⟩, rfl, List.nodup_singleton _⟩, List.mem_singleton_self _, fun _ => rfl⟩

omit [DecidableEq E] in
theorem Holds.congr (h : Holds stub next q l) (hc : ∀ x ∈ l, next' x = next x) :
    Holds stub next' q l :=
  { h with segment := h.segment.congr hc }

theorem elements_append : elements stub (l ++ m) = elements stub l ++ elements stub m := by
  rw [elements, List.filter_append, elements, elements]

theorem elements_eq_self (h : stub ∉ l) : elements stub l = l := by
  rw [elements, List.filter_eq_self]
  intro x hx
  rw [decide_eq_true_eq]
  rintro rfl
  exact h hx

theorem elements_cons_stub (h : stub ∉ l) : elements stub (stub :: l) = l := by
  rw [elements, List.filter_cons_of_neg (by simp), ← elements, elements_eq_self h]

omit [DecidableEq E] in
/-- The last node of a queue. -/
theorem Chained.concat (h : Chained next q l) : ∃ r, l = r ++ [q.tail] ∧ q.tail ∉ r := by
  obtain ⟨r, hr⟩ := List.getLast?_eq_some_iff.mp h.tail
  refine ⟨r, hr, fun hmem => ?_⟩
  have hn := h.nodup
  rw [hr, List.nodup_append'] at hn
  exact hn.2.2 hmem (List.mem_singleton_self _)

/-- A chain of nodes is appended. -/
theorem Chained.insert (h : Chained next q l) {b : Option E} (hm : Segment next (some first) m b)
    (hlast : m.getLast? = some last) (hnodup : m.Nodup) (hdisj : l.Disjoint m) :
    Chained (q.insert next first last).2.1 (q.insert next first last).2.2 (l ++ m) ∧
      ∀ x, x ∉ l → x ∉ m → (q.insert next first last).2.1 x = next x := by
  obtain ⟨m', rfl⟩ := List.getLast?_eq_some_iff.mp hlast
  obtain ⟨r, hr, hnot⟩ := h.concat
  subst hr
  have hlm' : last ∉ m' := fun hmem => (List.nodup_append'.mp hnodup).2.2 hmem (by simp)
  have hll : last ∉ r ++ [q.tail] := fun hmem => hdisj hmem (by simp)
  have htm : q.tail ∉ m' ++ [last] := hdisj (by simp)
  have hchain : Segment (q.insert next first last).2.1 (some first) (m' ++ [last]) none :=
    (hm.update_last hlm').update htm
  have hold : Segment (q.insert next first last).2.1 (some q.head) (r ++ [q.tail]) (some first) :=
    (h.segment.update hll).update_last hnot
  refine ⟨⟨Segment.append.mpr ⟨_, hold, hchain⟩, ?_, ?_⟩, fun x hx hxm => ?_⟩
  · rw [List.getLast?_append, hlast]
    rfl
  · exact List.nodup_append'.mpr ⟨h.nodup, hnodup, hdisj⟩
  · have hxt : x ≠ q.tail := fun he => hx (by simp [he])
    have hxl : x ≠ last := fun he => hxm (by simp [he])
    simp [MPSCQueue.insert, hxt, hxl]

/-- `push(first, last)` -/
theorem insert_spec (h : Holds stub next q l) {b : Option E} (hm : Segment next (some first) m b)
    (hlast : m.getLast? = some last) (hnodup : m.Nodup) (hdisj : l.Disjoint m) :
    Holds stub (q.insert next first last).2.1 (q.insert next first last).2.2 (l ++ m) ∧
      ∀ x, x ∉ l → x ∉ m → (q.insert next first last).2.1 x = next x := by
  obtain ⟨hchained, hframe⟩ := h.toChained.insert hm hlast hnodup hdisj
  exact ⟨⟨hchained, List.mem_append_left _ h.mem, by simp [insert]⟩, hframe⟩

omit [DecidableEq E] in
theorem Holds.unmarked (h : Holds stub next q l) (hl : l ≠ [stub]) : q.marked = false := by
  rw [Bool.eq_false_iff]
  exact fun hmark => hl (h.marked hmark)

/-- The first node, which is not the stub, is taken out. -/
theorem advance_spec (h : Holds stub next q (x :: l)) (hx : x ≠ stub) :
    ∃ next' q', advance next q = some (x, next', q') ∧ Holds stub next' q' l ∧ next' x = none ∧
      ∀ y, y ≠ x → next' y = next y := by
  have hhead : q.head = x := Option.some.inj h.segment.1
  have hrest := h.segment.2
  obtain ⟨hnot, hnodup⟩ := List.nodup_cons.mp h.nodup
  have hmem : stub ∈ l := (List.mem_cons.mp h.mem).resolve_left (Ne.symm hx)
  have hmark := h.unmarked fun he => hx (List.cons.inj he).1
  obtain ⟨y, r, rfl⟩ := List.exists_cons_of_ne_nil (List.ne_nil_of_mem hmem)
  have hnext : next x = some y := hrest.1
  refine ⟨Function.update next x none, { q with head := y }, by simp [advance, hhead, hnext],
    ⟨⟨?_, ?_, hnodup⟩, hmem, by simp [hmark]⟩, Function.update_self ..,
    fun y hy => Function.update_of_ne hy ..⟩
  · exact Segment.update (hnext ▸ hrest) hnot
  · simpa using h.tail

/-- There is no element. -/
theorem pop_empty (h : Holds stub next q [stub]) :
    ∃ q', pop stub next q = some (none, next, q') ∧ Holds stub next q' [stub] := by
  have hhead : q.head = stub := Option.some.inj h.segment.1
  have htail : q.tail = stub := Option.some.inj h.tail.symm
  by_cases hmark : q.marked = true
  · exact ⟨q, by simp [pop, hhead, hmark], h⟩
  · exact ⟨{ q with marked := true }, by simp [pop, hhead, htail, hmark],
      { h with marked := fun _ => rfl }⟩

/-- The stub, which is the head of a queue with elements, goes to the end. -/
theorem pop_chunk (h : Holds stub next q (stub :: x :: l)) :
    ∃ next' q', pop stub next q = (advance next' q').map (fun r => (some r.1, r.2)) ∧
      Holds stub next' q' (x :: l ++ [stub]) ∧ ∀ y, y ∉ stub :: x :: l → next' y = next y := by
  have hhead : q.head = stub := Option.some.inj h.segment.1
  have hnext : next stub = some x := h.segment.2.1
  obtain ⟨hnot, hnodup⟩ := List.nodup_cons.mp h.nodup
  have hmark := h.unmarked (by simp)
  have htail : (x :: l).getLast? = some q.tail := by simpa using h.tail
  have htailne : q.tail ≠ stub := fun he => hnot (he ▸ List.mem_of_getLast? htail)
  have hchained : Chained next { q with head := x } (x :: l) :=
    ⟨hnext ▸ h.segment.2, htail, hnodup⟩
  obtain ⟨hinsert, hframe⟩ := hchained.insert (m := [stub]) ⟨rfl, rfl⟩ rfl (List.nodup_singleton _)
    (by simpa using hnot)
  refine ⟨_, _, by simp [pop, hhead, hmark, htailne, hnext], ⟨hinsert, by simp, by simp [insert]⟩,
    fun y hy => ?_⟩
  simp only [List.mem_cons, not_or] at hy
  exact hframe y (by simp [hy]) (by simp [hy])

/-- The first element is taken out. -/
theorem pop_spec (h : Holds stub next q l) (hl : elements stub l = x :: m) :
    ∃ next' q' l', pop stub next q = some (some x, next', q') ∧ Holds stub next' q' l' ∧
      elements stub l' = m ∧ (∀ y, y ∈ l ↔ y = x ∨ y ∈ l') ∧ x ∉ l' ∧ next' x = none ∧
      ∀ y, y ∉ l → next' y = next y := by
  cases l with
  | nil => simp [elements] at hl
  | cons y r =>
    obtain ⟨hnot, hnodup⟩ := List.nodup_cons.mp h.nodup
    by_cases hy : y = stub
    · subst hy
      rw [elements_cons_stub hnot] at hl
      subst hl
      simp only [List.mem_cons, not_or] at hnot
      obtain ⟨next₁, q₁, hpop, h₁, hframe₁⟩ := pop_chunk h
      obtain ⟨next₂, q₂, hadvance, h₂, hnull, hframe₂⟩ := advance_spec h₁ (Ne.symm hnot.1)
      refine ⟨next₂, q₂, m ++ [y], by simp [hpop, hadvance], h₂, ?_, fun z => ?_, ?_, hnull,
        fun z hz => ?_⟩
      · rw [elements_append, elements_eq_self hnot.2]
        simp [elements]
      · simp only [List.mem_cons, List.mem_append, List.not_mem_nil, or_false]
        tauto
      · simp [(List.nodup_cons.mp hnodup).1, Ne.symm hnot.1]
      · rw [hframe₂ z fun he => hz (by simp [he]), hframe₁ z hz]
    · have hhead : q.head = y := Option.some.inj h.segment.1
      rw [elements, List.filter_cons_of_pos (by simp [hy]), ← elements, List.cons.injEq] at hl
      obtain ⟨rfl, hm⟩ := hl
      obtain ⟨next', q', hadvance, h', hnull, hframe⟩ := advance_spec h hy
      refine ⟨next', q', r, by simp [pop, hhead, hy, hadvance], h', hm,
        fun z => List.mem_cons, hnot, hnull, fun z hz => hframe z ?_⟩
      rintro rfl
      exact hz List.mem_cons_self

end MPSCQueue

end UThreads
