import Mathlib.Logic.Function.Basic
import Mathlib.Data.List.Nodup
import Mathlib.Tactic.Common

/-!
# Linked chains with gaps

Threads append to a singly linked chain in two steps: first they claim the end of the chain, then
they write the pointer that joins their nodes to it. In between the chain has a *gap*: the pointer
is still null, and exactly one thread has promised to write it.

`GapChain null next pend Q` says that the nodes `Q` form such a chain in the store `next`, where
`pend t = some (a, b)` is thread `t`'s promise to write `next a := b`.

* `GapChain.exchange`: claiming the end appends a whole chain of nodes, behind a new gap.
* `GapChain.link`: writing a promised pointer closes its gap.
* `GapChain.advance`: a non-null pointer of the first node leads to the second.
* `GapChain.frame`: writes to other nodes do not matter.
-/

variable {ν τ : Type*}

/-! ## Neighbours in a list -/

/-- `b` stands right after `a` in the list. -/
def Adjacent : List ν → ν → ν → Prop
  | a :: b :: l, x, y => (x = a ∧ y = b) ∨ Adjacent (b :: l) x y
  | _, _, _ => False

namespace Adjacent

@[simp] theorem nil (x y : ν) : ¬ Adjacent [] x y := id

@[simp] theorem singleton (a x y : ν) : ¬ Adjacent [a] x y := id

theorem cons_cons {a b x y : ν} {l : List ν} :
    Adjacent (a :: b :: l) x y ↔ (x = a ∧ y = b) ∨ Adjacent (b :: l) x y := Iff.rfl

theorem mem {l : List ν} {x y : ν} (h : Adjacent l x y) : x ∈ l ∧ y ∈ l := by
  induction l with
  | nil => exact absurd h (nil x y)
  | cons a l ih =>
    cases l with
    | nil => exact absurd h (singleton a x y)
    | cons b l =>
      rcases h with ⟨rfl, rfl⟩ | h
      · simp
      · exact ⟨List.mem_cons_of_mem _ (ih h).1, List.mem_cons_of_mem _ (ih h).2⟩

/-- Neighbours in `l ++ m`: in `l`, in `m`, or across the seam. -/
theorem append {l m : List ν} {x y : ν} :
    Adjacent (l ++ m) x y ↔
      Adjacent l x y ∨ Adjacent m x y ∨ (l.getLast? = some x ∧ m.head? = some y) := by
  induction l with
  | nil => simp
  | cons a l ih =>
    cases l with
    | nil =>
      cases m with
      | nil => simp
      | cons b m =>
        simp only [List.cons_append, List.nil_append, cons_cons, singleton, false_or,
          List.getLast?_singleton, List.head?_cons, Option.some.injEq]
        constructor
        · rintro (⟨rfl, rfl⟩ | h)
          · exact .inr ⟨rfl, rfl⟩
          · exact .inl h
        · rintro (h | ⟨rfl, rfl⟩)
          · exact .inr h
          · exact .inl ⟨rfl, rfl⟩
    | cons b l =>
      simp only [List.cons_append, cons_cons, List.getLast?_cons_cons] at ih ⊢
      rw [ih, or_assoc]

/-- The last element of a duplicate-free list has no successor. -/
theorem ne_last {l : List ν} {x y : ν} (hl : l.Nodup) (h : Adjacent l x y) :
    l.getLast? ≠ some x := by
  induction l with
  | nil => exact absurd h (nil x y)
  | cons a l ih =>
    cases l with
    | nil => exact absurd h (singleton a x y)
    | cons b l =>
      rw [List.getLast?_cons_cons]
      rcases h with ⟨rfl, rfl⟩ | h
      · intro hlast
        exact (List.nodup_cons.mp hl).1 (List.mem_of_getLast? hlast)
      · exact ih (List.nodup_cons.mp hl).2 h

/-- In a duplicate-free list the successor is unique. -/
theorem right_unique {l : List ν} {x y z : ν} (hl : l.Nodup) (h : Adjacent l x y)
    (h' : Adjacent l x z) : y = z := by
  induction l with
  | nil => exact absurd h (nil x y)
  | cons a l ih =>
    cases l with
    | nil => exact absurd h (singleton a x y)
    | cons b l =>
      have hnd := List.nodup_cons.mp hl
      rcases h with ⟨rfl, rfl⟩ | h <;> rcases h' with ⟨hx, rfl⟩ | h'
      · rfl
      · exact absurd h'.mem.1 hnd.1
      · subst hx; exact absurd h.mem.1 hnd.1
      · exact ih hnd.2 h h'

/-- A relation holds along a list when it holds between neighbours. -/
theorem isChain_iff {R : ν → ν → Prop} {l : List ν} :
    l.IsChain R ↔ ∀ x y, Adjacent l x y → R x y := by
  induction l with
  | nil => simp
  | cons a l ih =>
    cases l with
    | nil => simp
    | cons b l =>
      rw [List.isChain_cons_cons, ih]
      constructor
      · rintro ⟨hab, hl⟩ x y (⟨rfl, rfl⟩ | h)
        · exact hab
        · exact hl x y h
      · exact fun h => ⟨h a b (.inl ⟨rfl, rfl⟩), fun x y hxy => h x y (.inr hxy)⟩

end Adjacent

/-! ## Chains with gaps -/

/-- From `a` the chain goes on to `b`: the pointer is written and nobody is about to write it, or
it is null and a thread has promised to write it. -/
def GapJoined (null : ν) (next : ν → ν) (pend : τ → Option (ν × ν)) (a b : ν) : Prop :=
  (next a = b ∧ ∀ t c, pend t ≠ some (a, c)) ∨ (next a = null ∧ ∃ t, pend t = some (a, b))

/-- The nodes `Q` form a chain, up to the gaps that the promises `pend` will close. -/
structure GapChain (null : ν) (next : ν → ν) (pend : τ → Option (ν × ν)) (Q : List ν) : Prop where
  nodup : Q.Nodup
  ne_null : ∀ a ∈ Q, a ≠ null
  joined : ∀ a b, Adjacent Q a b → GapJoined null next pend a b
  last : ∀ a, Q.getLast? = some a → next a = null
  /-- A promise joins two neighbours of the chain. -/
  promised : ∀ t a b, pend t = some (a, b) → Adjacent Q a b
  /-- Each gap has one thread that closes it. -/
  unique : ∀ t t' a b b', pend t = some (a, b) → pend t' = some (a, b') → t = t'

namespace GapChain

variable {null : ν} {next next' : ν → ν} {pend : τ → Option (ν × ν)} {Q : List ν}

theorem single {a : ν} (ha : a ≠ null) (hn : next a = null) (hp : ∀ t, pend t = none) :
    GapChain null next pend [a] where
  nodup := List.nodup_singleton a
  ne_null := by simpa using ha
  joined := fun x y h => absurd h (Adjacent.singleton a x y)
  last := fun b hb => by
    obtain rfl : a = b := by simpa using hb
    exact hn
  promised := fun t a b h => by rw [hp t] at h; cases h
  unique := fun t t' a b b' h => by rw [hp t] at h; cases h

/-- No promise is made at a node outside the chain. -/
theorem not_promised (h : GapChain null next pend Q) {a b : ν} (ha : a ∉ Q) (t : τ) :
    pend t ≠ some (a, b) :=
  fun hp => ha (h.promised t a b hp).mem.1

/-- A promised pointer is still null. -/
theorem null_of_promised (h : GapChain null next pend Q) {t : τ} {a b : ν}
    (ht : pend t = some (a, b)) : next a = null := by
  rcases h.joined a b (h.promised t a b ht) with ⟨-, hfree⟩ | ⟨hn, -⟩
  · exact absurd ht (hfree t b)
  · exact hn

/-- Writes to nodes outside the chain keep it. -/
theorem frame (h : GapChain null next pend Q) (heq : ∀ a ∈ Q, next' a = next a) :
    GapChain null next' pend Q where
  nodup := h.nodup
  ne_null := h.ne_null
  joined := fun a b hab => by
    unfold GapJoined
    rw [heq a hab.mem.1]
    exact h.joined a b hab
  last := fun a ha => by rw [heq a (List.mem_of_getLast? ha)]; exact h.last a ha
  promised := h.promised
  unique := h.unique

/-- A chain whose first node has a non-null pointer goes on to the node it points to. -/
theorem advance (h : GapChain null next pend Q) {a : ν} (ha : Q.head? = some a)
    (hn : next a ≠ null) : ∃ R, Q = a :: next a :: R ∧ GapChain null next pend (next a :: R) := by
  match Q, ha with
  | [x], ha =>
    obtain rfl : x = a := by simpa using ha
    exact absurd (h.last x rfl) hn
  | x :: b :: R, ha =>
    obtain rfl : x = a := by simpa using ha
    have hnd := List.nodup_cons.mp h.nodup
    obtain ⟨rfl, hfree⟩ := (h.joined x b (.inl ⟨rfl, rfl⟩)).resolve_right fun hg => hn hg.1
    refine ⟨R, rfl, ⟨hnd.2, fun c hc => h.ne_null c (List.mem_cons_of_mem _ hc),
      fun c d hcd => h.joined c d (.inr hcd), fun c hc => h.last c ?_, fun t c d ht => ?_,
      h.unique⟩⟩
    · rw [List.getLast?_cons_cons]; exact hc
    -- No promise is left at the node that goes away.
    · rcases h.promised t c d ht with ⟨rfl, rfl⟩ | hcd
      · exact absurd ht (hfree t _)
      · exact hcd

variable [DecidableEq τ]

/-- **Claiming the end.** A linked chain of fresh nodes is appended behind a new gap, which the
claiming thread promises to close. -/
theorem exchange (h : GapChain null next pend Q) {t : τ} {c : List ν} {a b : ν}
    (ha : Q.getLast? = some a) (hb : c.head? = some b) (ht : pend t = none) (hc : c.Nodup)
    (hdisj : ∀ x ∈ c, x ∉ Q) (hnull : ∀ x ∈ c, x ≠ null)
    (hlink : ∀ x y, Adjacent c x y → next x = y)
    (hlast : ∀ x, c.getLast? = some x → next x = null) :
    GapChain null next (Function.update pend t (some (a, b))) (Q ++ c) where
  nodup := List.nodup_append.mpr ⟨h.nodup, hc, fun x hx y hy hxy => hdisj y hy (hxy ▸ hx)⟩
  ne_null := fun x hx => (List.mem_append.mp hx).elim (h.ne_null x) (hnull x)
  joined := fun x y hxy => by
    rcases Adjacent.append.mp hxy with hQ | hcc | ⟨hx, hy⟩
    · -- An old pair keeps its pointer or its promise; the new promise is at the old end.
      have hxa : x ≠ a := fun e => hQ.ne_last h.nodup (e ▸ ha)
      rcases h.joined x y hQ with ⟨hn, hf⟩ | ⟨hn, t', ht'⟩
      · refine .inl ⟨hn, fun u d => ?_⟩
        by_cases hu : u = t
        · subst hu; rw [Function.update_self]; intro e; exact hxa (by cases e; rfl)
        · rw [Function.update_of_ne hu]; exact hf u d
      · refine .inr ⟨hn, t', ?_⟩
        rw [Function.update_of_ne (by rintro rfl; rw [ht] at ht'; cases ht')]
        exact ht'
    · refine .inl ⟨hlink x y hcc, fun u d => ?_⟩
      by_cases hu : u = t
      · subst hu
        rw [Function.update_self]
        intro e
        obtain rfl : a = x := by cases e; rfl
        exact hdisj a hcc.mem.1 (List.mem_of_getLast? ha)
      · rw [Function.update_of_ne hu]; exact h.not_promised (hdisj x hcc.mem.1) u
    · obtain rfl : a = x := by rw [ha] at hx; cases hx; rfl
      obtain rfl : b = y := by rw [hb] at hy; cases hy; rfl
      exact .inr ⟨h.last a ha, t, Function.update_self ..⟩
  last := fun x hx => by
    have hne : c ≠ [] := by rintro rfl; cases hb
    rw [List.getLast?_append_of_ne_nil _ hne] at hx
    exact hlast x hx
  promised := fun u x y hu => by
    by_cases hut : u = t
    · subst hut
      rw [Function.update_self] at hu
      cases hu
      exact Adjacent.append.mpr (.inr (.inr ⟨ha, hb⟩))
    · rw [Function.update_of_ne hut] at hu
      exact Adjacent.append.mpr (.inl (h.promised u x y hu))
  unique := fun u u' x y y' hu hu' => by
    -- Only the new promise is at the old end of the chain.
    have hend : ∀ v z, v ≠ t → pend v ≠ some (a, z) := fun v z _ hv =>
      (h.promised v a z hv).ne_last h.nodup ha
    by_cases hut : u = t <;> by_cases hut' : u' = t
    · rw [hut, hut']
    · subst hut
      rw [Function.update_self] at hu
      rw [Function.update_of_ne hut'] at hu'
      cases hu
      exact absurd hu' (hend u' y' hut')
    · subst hut'
      rw [Function.update_self] at hu'
      rw [Function.update_of_ne hut] at hu
      cases hu'
      exact absurd hu (hend u y hut)
    · rw [Function.update_of_ne hut] at hu
      rw [Function.update_of_ne hut'] at hu'
      exact h.unique u u' x y y' hu hu'

variable [DecidableEq ν]

/-- **Closing a gap.** A thread writes the pointer it promised. -/
theorem link (h : GapChain null next pend Q) {t : τ} {a b : ν} (ht : pend t = some (a, b)) :
    GapChain null (Function.update next a b) (Function.update pend t none) Q where
  nodup := h.nodup
  ne_null := h.ne_null
  joined := fun x y hxy => by
    have hab := h.promised t a b ht
    by_cases hx : x = a
    · subst hx
      obtain rfl : y = b := hxy.right_unique h.nodup hab
      refine .inl ⟨Function.update_self .., fun u d => ?_⟩
      by_cases hu : u = t
      · subst hu; rw [Function.update_self]; exact nofun
      · rw [Function.update_of_ne hu]
        exact fun hp => hu (h.unique u t x d y hp ht)
    · unfold GapJoined
      rw [Function.update_of_ne hx]
      rcases h.joined x y hxy with ⟨hn, hf⟩ | ⟨hn, t', ht'⟩
      · refine .inl ⟨hn, fun u d => ?_⟩
        by_cases hu : u = t
        · subst hu; rw [Function.update_self]; exact nofun
        · rw [Function.update_of_ne hu]; exact hf u d
      · refine .inr ⟨hn, t', ?_⟩
        rw [Function.update_of_ne (by rintro rfl; rw [ht] at ht'; cases ht'; exact hx rfl)]
        exact ht'
  last := fun x hx => by
    rw [Function.update_of_ne]
    · exact h.last x hx
    · rintro rfl; exact (h.promised t x b ht).ne_last h.nodup hx
  promised := fun u x y hu => by
    by_cases hut : u = t
    · subst hut; rw [Function.update_self] at hu; cases hu
    · rw [Function.update_of_ne hut] at hu; exact h.promised u x y hu
  unique := fun u u' x y y' hu hu' => by
    by_cases hut : u = t
    · subst hut; rw [Function.update_self] at hu; cases hu
    · by_cases hut' : u' = t
      · subst hut'; rw [Function.update_self] at hu'; cases hu'
      · rw [Function.update_of_ne hut] at hu
        rw [Function.update_of_ne hut'] at hu'
        exact h.unique u u' x y y' hu hu'

end GapChain
