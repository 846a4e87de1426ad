import UThreads.Lib.CountedWalk
import UThreads.Lib.Linked
import UThreads.Lib.Machine

/-!
# Any number of `IntrusiveList`s

The functions of `IntrusiveList`, on the links of all elements and all anchors. The writes are those
of the code, in its order. A function returns `none` where the code would go through a null pointer.

Lists are named by their anchors, so that one list may be both the source and the destination of a
transfer. `front()` and `back()` of an empty list are its anchor.

**Operations** (`Op`, `exec`). Nothing is assumed of the links of the elements when the lists are
constructed.

**Preconditions** (`Pre`). What the code asserts: an element that goes in has null links, a chain
has null at both ends; `next` and `prev` of an insertion and an element that is removed are on a
list; a list that is popped or moved is not empty. Counts are not 0.

**Specification** (`Meets`). What each operation does to the sequences that the lists represent.
-/

namespace UThreads

namespace ListStore

section Functions

variable {N : Type*} [DecidableEq N]

/-- `IntrusiveList()` -/
def construct (L : N → Link N) (anchor : N) : N → Link N :=
  setNext (setPrev L anchor (some anchor)) anchor (some anchor)

/-- `empty()` -/
def empty (L : N → Link N) (anchor : N) : Bool := (L anchor).next = some anchor

/-- `insert_before(next, elem)` -/
def insertBefore (L : N → Link N) (next elem : N) : Option (N → Link N) :=
  (L next).prev.map fun p =>
    let L := setNext L p (some elem)
    let L := setPrev L elem (L next).prev
    let L := setPrev L next (some elem)
    setNext L elem (some next)

/-- `insert_after(prev, first, last)` -/
def insertAfter (L : N → Link N) (prev first last : N) : Option (N → Link N) :=
  (L prev).next.map fun n =>
    let L := setPrev L n (some last)
    let L := setNext L last (L prev).next
    let L := setNext L prev (some first)
    setPrev L first (some prev)

/-- What both overloads of `remove` do with the elements from `first` to `last`. -/
def unlink (L : N → Link N) (first last : N) : Option (N → Link N) :=
  (L first).prev.bind fun p =>
    let L := setNext L p (L last).next
    (L last).next.map fun n =>
      let L := setPrev L n (L first).prev
      let L := setPrev L first none
      setNext L last none

/-- `remove(elem)` -/
def remove (L : N → Link N) (elem : N) : Option (N → Link N) := unlink L elem elem

/-- `remove(first, count)`: the last element removed and the new `count`. The loop tests its bound
`count` times at most. -/
def removeCount (L : N → Link N) (anchor first : N) (count : BitVec 64) :
    Option (N × BitVec 64 × (N → Link N)) :=
  (countedWalk (fun x => (L x).next) (some anchor) (count.toNat + 1) first 1 count).bind
    fun (last, n) => (unlink L first last).map fun L => (last, n, L)

/-- `removeAll()` -/
def removeAll (L : N → Link N) (anchor : N) : Option (N × (N → Link N)) :=
  (L anchor).next.bind fun first =>
    (L anchor).prev.map fun last =>
      let L := setPrev L first none
      (last, setNext L last none)

/-- `push_front(elem)` -/
def pushFront (L : N → Link N) (anchor elem : N) : Option (N → Link N) :=
  (L anchor).next.bind fun front => insertBefore L front elem

/-- `splice_back(first, last)` -/
def spliceBack (L : N → Link N) (anchor first last : N) : Option (N → Link N) :=
  (L anchor).prev.bind fun back => insertAfter L back first last

/-- `push_back(elem)` -/
def pushBack (L : N → Link N) (anchor elem : N) : Option (N → Link N) :=
  spliceBack L anchor elem elem

/-- `pop_front()` -/
def popFront (L : N → Link N) (anchor : N) : Option (N × (N → Link N)) :=
  (L anchor).next.bind fun front => (remove L front).map fun L => (front, L)

/-- `pop_back()` -/
def popBack (L : N → Link N) (anchor : N) : Option (N × (N → Link N)) :=
  (L anchor).prev.bind fun back => (remove L back).map fun L => (back, L)

/-- `transferFrom(el, count)` -/
def transferFrom (L : N → Link N) (anchor el : N) (count : BitVec 64) :
    Option (BitVec 64 × (N → Link N)) :=
  (L el).next.bind fun first =>
    (removeCount L el first count).bind fun (last, n, L) =>
      (spliceBack L anchor first last).map fun L => (n, L)

/-- `transferAllFrom(el)` -/
def transferAllFrom (L : N → Link N) (anchor el : N) : Option (N → Link N) :=
  (L el).next.bind fun first =>
    (L el).prev.bind fun last =>
      let L := setPrev L first none
      let L := setNext L last none
      spliceBack (construct L el) anchor first last

end Functions

/-! ## The operations -/

/-- A `Link`: the anchor of a list, or that of an element. -/
inductive Node (ι E : Type*)
  | anchor (i : ι)
  | elem (e : E)
  deriving DecidableEq

/-- `next` and `prev` of an insertion may be an anchor. -/
inductive Op (ι E : Type*)
  | pushFront (i : ι) (elem : E)
  | pushBack (i : ι) (elem : E)
  | spliceBack (i : ι) (first last : E)
  | insertBefore (next : Node ι E) (elem : E)
  | insertAfter (prev : Node ι E) (elem : E)
  | insertAllAfter (prev : Node ι E) (first last : E)
  | remove (elem : E)
  | removeCount (i : ι) (first : E) (count : BitVec 64)
  | popFront (i : ι)
  | popBack (i : ι)
  | transferFrom (i el : ι) (count : BitVec 64)
  | transferAllFrom (i el : ι)

/-- The pointer that an operation returns, and what it stores in `count`. -/
inductive Res (ι E : Type*)
  | void
  | elem (x : Node ι E)
  | count (n : BitVec 64)
  | chain (last : Node ι E) (n : BitVec 64)

/-- The links of all nodes. -/
abbrev Links (ι E : Type*) := Node ι E → Link (Node ι E)

variable {ι E : Type*} [DecidableEq ι] [DecidableEq E]

def exec (L : Links ι E) : Op ι E → Option (Res ι E × Links ι E)
  | .pushFront i elem => (ListStore.pushFront L (.anchor i) (.elem elem)).map fun L => (.void, L)
  | .pushBack i elem => (ListStore.pushBack L (.anchor i) (.elem elem)).map fun L => (.void, L)
  | .spliceBack i first last =>
    (ListStore.spliceBack L (.anchor i) (.elem first) (.elem last)).map fun L => (.void, L)
  | .insertBefore next elem => (ListStore.insertBefore L next (.elem elem)).map fun L => (.void, L)
  | .insertAfter prev elem =>
    (ListStore.insertAfter L prev (.elem elem) (.elem elem)).map fun L => (.void, L)
  | .insertAllAfter prev first last =>
    (ListStore.insertAfter L prev (.elem first) (.elem last)).map fun L => (.void, L)
  | .remove elem => (ListStore.remove L (.elem elem)).map fun L => (.elem (.elem elem), L)
  | .removeCount i first count =>
    (ListStore.removeCount L (.anchor i) (.elem first) count).map fun (last, n, L) =>
    (.chain last n, L)
  | .popFront i => (ListStore.popFront L (.anchor i)).map fun (x, L) => (.elem x, L)
  | .popBack i => (ListStore.popBack L (.anchor i)).map fun (x, L) => (.elem x, L)
  | .transferFrom i el count =>
    (ListStore.transferFrom L (.anchor i) (.anchor el) count).map fun (n, L) => (.count n, L)
  | .transferAllFrom i el =>
    (ListStore.transferAllFrom L (.anchor i) (.anchor el)).map fun L => (.void, L)

/-- All lists are constructed; the links of the elements are any. -/
def machine (ι E : Type*) [DecidableEq ι] [DecidableEq E] : Machine (Links ι E) (Op ι E) where
  init L := ∀ i, L (.anchor i) = ⟨some (.anchor i), some (.anchor i)⟩
  step L op := (exec L op).map Prod.snd

/-! ## Preconditions

`valid i` says that list `i` may be used. -/

/-- The node is on a list. -/
def OnList (valid : ι → Bool) (L : Links ι E) (x : Node ι E) : Prop :=
  ∃ i l, valid i = true ∧ LinkRing L (.anchor i) l ∧ x ∈ .anchor i :: l

/-- The elements from `first` to `last` are linked to each other, with null at both ends. -/
def Detached (L : Links ι E) (first : E) (m : List E) (last : E) : Prop :=
  LinkedChain L (.elem first) (m.map .elem) (.elem last)

/-- What the code asserts, for a member function of its own list. -/
def Pre (valid : ι → Bool) (L : Links ι E) : Op ι E → Prop
  | .pushFront i elem | .pushBack i elem => valid i = true ∧ L (.elem elem) = ⟨none, none⟩
  | .spliceBack i first last => valid i = true ∧ ∃ m, Detached L first m last
  | .insertBefore next elem => L (.elem elem) = ⟨none, none⟩ ∧ OnList valid L next
  | .insertAfter prev elem => L (.elem elem) = ⟨none, none⟩ ∧ OnList valid L prev
  | .insertAllAfter prev first last => (∃ m, Detached L first m last) ∧ OnList valid L prev
  | .remove elem => OnList valid L (.elem elem)
  | .removeCount i first count =>
    valid i = true ∧ (∃ l, LinkRing L (.anchor i) l ∧ .elem first ∈ l) ∧ count ≠ 0
  | .popFront i | .popBack i => valid i = true ∧ empty L (.anchor i) = false
  | .transferFrom i el count =>
    valid i = true ∧ valid el = true ∧ empty L (.anchor el) = false ∧ count ≠ 0
  | .transferAllFrom i el => valid i = true ∧ valid el = true ∧ empty L (.anchor el) = false

/-! ## Lists as sequences -/

/-- List `i` represents the sequence `lists i`, and no element is on two lists. -/
structure Rep (valid : ι → Bool) (L : Links ι E) (lists : ι → List E) : Prop where
  ring : ∀ i, valid i = true → LinkRing L (.anchor i) ((lists i).map .elem)
  one : ∀ ⦃x i j⦄, x ∈ lists i → x ∈ lists j → i = j
  nil : ∀ i, valid i = false → lists i = []

/-- The nodes of list `i`. -/
def nodes (lists : ι → List E) (i : ι) : List (Node ι E) := .anchor i :: (lists i).map .elem

/-- The nodes that are not in `xs` are as they were. -/
def Kept (L L' : Links ι E) (xs : List (Node ι E)) : Prop := ∀ x, x ∉ xs → L' x = L x

/-- The operations on sequences. -/
def Meets (valid : ι → Bool) (L : Links ι E) (lists : ι → List E) (r : Res ι E) (L' : Links ι E) :
    Op ι E → Prop
  | .pushFront i elem =>
    r = .void ∧ Rep valid L' (Function.update lists i (elem :: lists i)) ∧
      Kept L L' (nodes lists i ++ [.elem elem])
  | .pushBack i elem =>
    r = .void ∧ Rep valid L' (Function.update lists i (lists i ++ [elem])) ∧
      Kept L L' (nodes lists i ++ [.elem elem])
  | .spliceBack i first last =>
    r = .void ∧ ∀ m, Detached L first m last →
      Rep valid L' (Function.update lists i (lists i ++ m)) ∧
      Kept L L' (nodes lists i ++ m.map .elem)
  | .insertBefore next elem =>
    ∃ i l₁ l₂, lists i = l₁ ++ l₂ ∧ (l₂.map Node.elem ++ [Node.anchor i]).head? = some next ∧
      r = .void ∧ Rep valid L' (Function.update lists i (l₁ ++ elem :: l₂)) ∧
      Kept L L' (nodes lists i ++ [.elem elem])
  | .insertAfter prev elem =>
    ∃ i l₁ l₂, lists i = l₁ ++ l₂ ∧ (Node.anchor i :: l₁.map .elem).getLast? = some prev ∧
      r = .void ∧ Rep valid L' (Function.update lists i (l₁ ++ elem :: l₂)) ∧
      Kept L L' (nodes lists i ++ [.elem elem])
  | .insertAllAfter prev first last =>
    ∃ i l₁ l₂, lists i = l₁ ++ l₂ ∧
      (Node.anchor i :: l₁.map .elem).getLast? = some prev ∧ r = .void ∧
      ∀ m, Detached L first m last → Rep valid L' (Function.update lists i (l₁ ++ m ++ l₂)) ∧
        Kept L L' (nodes lists i ++ m.map .elem)
  | .remove elem =>
    ∃ i l₁ l₂, lists i = l₁ ++ elem :: l₂ ∧ r = .elem (.elem elem) ∧
      L' (.elem elem) = ⟨none, none⟩ ∧
      Rep valid L' (Function.update lists i (l₁ ++ l₂)) ∧ Kept L L' (nodes lists i)
  | .removeCount i first count =>
    ∃ l₁ l₂ last, lists i = l₁ ++ l₂ ∧ l₂.head? = some first ∧
      r = .chain (.elem last) (BitVec.ofNat 64 (min count.toNat l₂.length)) ∧
      Detached L' first (l₂.take count.toNat) last ∧
      Rep valid L' (Function.update lists i (l₁ ++ l₂.drop count.toNat)) ∧ Kept L L' (nodes lists i)
  | .popFront i =>
    ∃ elem l, lists i = elem :: l ∧ r = .elem (.elem elem) ∧ L' (.elem elem) = ⟨none, none⟩ ∧
      Rep valid L' (Function.update lists i l) ∧ Kept L L' (nodes lists i)
  | .popBack i =>
    ∃ elem l, lists i = l ++ [elem] ∧ r = .elem (.elem elem) ∧ L' (.elem elem) = ⟨none, none⟩ ∧
      Rep valid L' (Function.update lists i l) ∧ Kept L L' (nodes lists i)
  | .transferFrom i el count =>
    let rest := Function.update lists el ((lists el).drop count.toNat)
    r = .count (BitVec.ofNat 64 (min count.toNat (lists el).length)) ∧
      Rep valid L' (Function.update rest i (rest i ++ (lists el).take count.toNat)) ∧
      Kept L L' (nodes lists i ++ nodes lists el)
  | .transferAllFrom i el =>
    let rest := Function.update lists el []
    r = .void ∧ Rep valid L' (Function.update rest i (rest i ++ lists el)) ∧
      Kept L L' (nodes lists i ++ nodes lists el)

end ListStore

end UThreads
