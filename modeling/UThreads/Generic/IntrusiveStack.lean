import UThreads.Lib.Segment

/-!
# `IntrusiveStack`

A stack of elements that carry their own `next` pointer. `Holds next st l` says that the stack `st`
holds the elements `l`, from the top down.
-/

namespace UThreads

structure IntrusiveStack (E : Type*) where
  head : Option E
  deriving DecidableEq

namespace IntrusiveStack

variable {E : Type*} [DecidableEq E]

/-- The constructor. -/
def new : IntrusiveStack E := ⟨none⟩

/-- `push(elem)` -/
def push (next : E → Option E) (st : IntrusiveStack E) (elem : E) :
    (E → Option E) × IntrusiveStack E :=
  (Function.update next elem st.head, ⟨some elem⟩)

/-- `pop()`; `none` where the code would go through a null pointer. -/
def pop (next : E → Option E) (st : IntrusiveStack E) :
    Option (E × (E → Option E) × IntrusiveStack E) :=
  st.head.map fun last => (last, Function.update next last none, ⟨next last⟩)

/-- The stack `st` holds the elements `l`. -/
structure Holds (next : E → Option E) (st : IntrusiveStack E) (l : List E) : Prop where
  segment : Segment next st.head l none
  nodup : l.Nodup

variable {next next' : E → Option E} {st : IntrusiveStack E} {l : List E} {x : E}

omit [DecidableEq E] in
theorem holds_new : Holds next new [] := ⟨rfl, List.nodup_nil⟩

omit [DecidableEq E] in
theorem Holds.congr (h : Holds next st l) (hc : ∀ x ∈ l, next' x = next x) : Holds next' st l :=
  ⟨h.segment.congr hc, h.nodup⟩

theorem push_spec (h : Holds next st l) (hx : x ∉ l) :
    Holds (st.push next x).1 (st.push next x).2 (x :: l) := by
  refine ⟨?_, List.nodup_cons.mpr ⟨hx, h.nodup⟩⟩
  simp only [push, Segment.cons, Function.update_self, true_and]
  exact h.segment.update hx

theorem pop_spec (h : Holds next st (x :: l)) :
    st.pop next = some (x, Function.update next x none, ⟨next x⟩) ∧
      Holds (Function.update next x none) ⟨next x⟩ l := by
  obtain ⟨hhead, hrest⟩ := h.segment
  obtain ⟨hx, hnodup⟩ := List.nodup_cons.mp h.nodup
  refine ⟨by simp [pop, hhead], ?_, hnodup⟩
  exact hrest.update hx

end IntrusiveStack

end UThreads
