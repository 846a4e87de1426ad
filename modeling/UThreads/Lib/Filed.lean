import Mathlib.Data.List.Nodup
import Mathlib.Logic.ExistsUnique
import Mathlib.Tactic.Common

/-!
# Items in lists

A family of lists in which each item is once: in one of the lists, and there once. What is in a
list and is no item may be in several of them. The rules are for an item that moves (`Transfer`),
one that enters, one that leaves, and for changes of what is no item.
-/

/-- Each of the items is in one of the lists, and no list has anything twice. -/
structure Filed {T P : Type*} (items : P → List T) (item : T → Prop) : Prop where
  one : ∀ t, item t → ∃! p, t ∈ items p
  nodup : ∀ p, (items p).Nodup

/-- `t` is taken out of the list at `p` and put into the list at `q`. -/
structure Transfer {T P : Type*} (items items' : P → List T) (t : T) (p q : P) : Prop where
  ne : p ≠ q
  out : (items p).Perm (t :: items' p)
  into : (items' q).Perm (t :: items q)
  other : ∀ r, r ≠ p → r ≠ q → items' r = items r

variable {T P : Type*} {items items' : P → List T} {item item' : T → Prop} {t x : T} {p q r : P}

namespace Filed

theorem unique (h : Filed items item) (ht : item t) (hp : t ∈ items p) (hq : t ∈ items q) : p = q :=
  (h.one t ht).unique hp hq

/-- **No item changes its place.** -/
theorem congr (h : Filed items item) (hmem : ∀ t, item t → ∀ p, t ∈ items' p ↔ t ∈ items p)
    (hn : ∀ p, (items' p).Nodup) : Filed items' item := by
  refine ⟨fun t ht => ?_, hn⟩
  obtain ⟨p, hp, hunique⟩ := h.one t ht
  exact ⟨p, (hmem t ht p).mpr hp, fun q hq => hunique q ((hmem t ht q).mp hq)⟩

/-- **An item enters.** -/
theorem enter (h : Filed items item) (hnew : ∀ p, t ∉ items p)
    (hitem : ∀ x, item' x ↔ item x ∨ x = t) (hq : (items' q).Perm (t :: items q))
    (hother : ∀ r, r ≠ q → items' r = items r) : Filed items' item' := by
  have hmem : ∀ x r, x ∈ items' r ↔ x = t ∧ r = q ∨ x ∈ items r := by
    intro x r
    by_cases hr : r = q
    · subst hr
      simp [hq.mem_iff]
    · simp [hother r hr, hr]
  refine ⟨fun x hx => ?_, fun r => ?_⟩
  · by_cases hxt : x = t
    · subst hxt
      refine ⟨q, (hmem x q).mpr (.inl ⟨rfl, rfl⟩), fun r hr => ?_⟩
      exact (((hmem x r).mp hr).resolve_right (hnew r)).2
    · obtain ⟨p, hp, hunique⟩ := h.one x (((hitem x).mp hx).resolve_right hxt)
      refine ⟨p, (hmem x p).mpr (.inr hp), fun r hr => hunique r ?_⟩
      exact ((hmem x r).mp hr).resolve_left fun he => hxt he.1
  · by_cases hr : r = q
    · subst hr
      exact hq.nodup_iff.mpr (List.nodup_cons.mpr ⟨hnew r, h.nodup r⟩)
    · rw [hother r hr]
      exact h.nodup r

/-- **An item leaves.** -/
theorem leave (h : Filed items item) (hitem : ∀ x, item' x → item x ∧ x ≠ t)
    (hp : (items p).Perm (t :: items' p)) (hother : ∀ r, r ≠ p → items' r = items r) :
    Filed items' item' := by
  have hmem : ∀ x r, x ≠ t → (x ∈ items' r ↔ x ∈ items r) := by
    intro x r hx
    by_cases hr : r = p
    · subst hr
      simp [hp.mem_iff, hx]
    · rw [hother r hr]
  refine ⟨fun x hx => ?_, fun r => ?_⟩
  · obtain ⟨hold, hne⟩ := hitem x hx
    obtain ⟨r, hr, hunique⟩ := h.one x hold
    exact ⟨r, (hmem x r hne).mpr hr, fun r' hr' => hunique r' ((hmem x r' hne).mp hr')⟩
  · by_cases hr : r = p
    · subst hr
      exact (List.nodup_cons.mp (hp.nodup_iff.mp (h.nodup r))).2
    · rw [hother r hr]
      exact h.nodup r

end Filed

namespace Transfer

theorem mem (h : Transfer items items' t p q) : t ∈ items p := h.out.mem_iff.mpr (by simp)

theorem mem_new (h : Transfer items items' t p q) : t ∈ items' q := h.into.mem_iff.mpr (by simp)

theorem mem_iff_of_ne (h : Transfer items items' t p q) (hx : x ≠ t) :
    x ∈ items' r ↔ x ∈ items r := by
  by_cases hp : r = p
  · subst hp
    simp [h.out.mem_iff, hx]
  · by_cases hq : r = q
    · subst hq
      simp [h.into.mem_iff, hx]
    · rw [h.other r hp hq]

theorem eq_of_mem (h : Transfer items items' t p q) (hf : Filed items item) (ht : item t)
    (hr : t ∈ items' r) : r = q := by
  by_contra hq
  by_cases hp : r = p
  · subst hp
    exact (List.nodup_cons.mp (h.out.nodup_iff.mp (hf.nodup r))).1 hr
  · rw [h.other r hp hq] at hr
    exact hp (hf.unique ht hr h.mem)

/-- **An item moves.** -/
theorem filed (h : Transfer items items' t p q) (hf : Filed items item) (ht : item t) :
    Filed items' item := by
  refine ⟨fun x hx => ?_, fun r => ?_⟩
  · by_cases hxt : x = t
    · subst hxt
      exact ⟨q, h.mem_new, fun r hr => h.eq_of_mem hf ht hr⟩
    · obtain ⟨r, hr, hunique⟩ := hf.one x hx
      exact ⟨r, (h.mem_iff_of_ne hxt).mpr hr, fun r' hr' =>
        hunique r' ((h.mem_iff_of_ne hxt).mp hr')⟩
  · by_cases hp : r = p
    · subst hp
      exact (List.nodup_cons.mp (h.out.nodup_iff.mp (hf.nodup r))).2
    · by_cases hq : r = q
      · subst hq
        refine h.into.nodup_iff.mpr (List.nodup_cons.mpr ⟨fun hr => ?_, hf.nodup r⟩)
        exact h.ne (hf.unique ht h.mem hr)
      · rw [h.other r hp hq]
        exact hf.nodup r

end Transfer
