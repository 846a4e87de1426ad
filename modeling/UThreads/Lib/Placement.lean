import Mathlib.Logic.ExistsUnique
import Mathlib.Tactic.Common

/-!
# Placements

Items that are each at one place, and the rules for an item that moves and for items that enter.
-/

/-- Each of the items is at one place, and nothing else is at any. -/
structure Placement {T P : Type*} (At : T → P → Prop) (item : T → Prop) : Prop where
  one : ∀ t, item t → ∃! p, At t p
  item : ∀ t p, At t p → item t

namespace Placement

variable {T P : Type*} {At At' : T → P → Prop} {item item' : T → Prop} {t : T} {p q : P}

theorem unique (h : Placement At item) (hp : At t p) (hq : At t q) : p = q :=
  (h.one t (h.item t p hp)).unique hp hq

/-- No item changes its place. -/
theorem frame (h : Placement At item) (hat : ∀ t p, At' t p ↔ At t p) : Placement At' item := by
  have he : At' = At := funext fun t => funext fun p => propext (hat t p)
  rw [he]
  exact h

/-- Item `t` moves from `p` to `q`. -/
theorem move (h : Placement At item) (hp : At t p)
    (hat : ∀ x y, At' x y ↔ x = t ∧ y = q ∨ At x y ∧ ¬(x = t ∧ y = p)) : Placement At' item := by
  refine ⟨fun x hx => ?_, fun x y hxy => ?_⟩
  · by_cases hxt : x = t
    · subst hxt
      refine ⟨q, (hat x q).mpr (.inl ⟨rfl, rfl⟩), fun y hy => ?_⟩
      rcases (hat x y).mp hy with ⟨-, hyq⟩ | ⟨hy, hne⟩
      · exact hyq
      · exact absurd ⟨rfl, h.unique hy hp⟩ hne
    · obtain ⟨y, hy, hunique⟩ := h.one x hx
      refine ⟨y, (hat x y).mpr (.inr ⟨hy, fun he => hxt he.1⟩), fun z hz => hunique z ?_⟩
      rcases (hat x z).mp hz with ⟨he, -⟩ | ⟨hz, -⟩
      · exact absurd he hxt
      · exact hz
  · rcases (hat x y).mp hxy with ⟨rfl, -⟩ | ⟨hxy, -⟩
    · exact h.item _ _ hp
    · exact h.item x y hxy

/-- The items in `S`, which are all at `p`, move to `q`. -/
theorem transfer (h : Placement At item) (hpq : p ≠ q) (S : T → Prop) (hS : ∀ x, S x → At x p)
    (hout : ∀ x, At' x p ↔ At x p ∧ ¬S x) (hin : ∀ x, At' x q ↔ At x q ∨ S x)
    (hother : ∀ x r, r ≠ p → r ≠ q → (At' x r ↔ At x r)) : Placement At' item := by
  have hold : ∀ x y, At' x y → S x ∧ y = q ∨ ¬S x ∧ At x y := by
    intro x y hxy
    by_cases hp : y = p
    · subst hp
      exact .inr ((hout x).mp hxy).symm
    · by_cases hq : y = q
      · subst hq
        by_cases hx : S x
        · exact .inl ⟨hx, rfl⟩
        · exact .inr ⟨hx, ((hin x).mp hxy).resolve_right hx⟩
      · have hat := (hother x y hp hq).mp hxy
        exact .inr ⟨fun hx => hp (h.unique hat (hS x hx)), hat⟩
  refine ⟨fun x hx => ?_, fun x y hxy => ?_⟩
  · by_cases hxS : S x
    · refine ⟨q, (hin x).mpr (.inr hxS), fun y hy => ?_⟩
      exact ((hold x y hy).resolve_right fun hn => hn.1 hxS).2
    · obtain ⟨y, hy, hunique⟩ := h.one x hx
      refine ⟨y, ?_, fun z hz => hunique z ((hold x z hz).resolve_left fun hn => hxS hn.1).2⟩
      by_cases hp : y = p
      · subst hp
        exact (hout x).mpr ⟨hy, hxS⟩
      · by_cases hq : y = q
        · subst hq
          exact (hin x).mpr (.inl hy)
        · exact (hother x y hp hq).mpr hy
  · rcases hold x y hxy with ⟨hx, -⟩ | ⟨-, hxy⟩
    · exact h.item x p (hS x hx)
    · exact h.item x y hxy

/-- New items enter, all at `q`. -/
theorem enter (h : Placement At item) (new : T → Prop) (hnew : ∀ x, new x → ¬item x)
    (hitem : ∀ x, item' x ↔ item x ∨ new x) (hat : ∀ x y, At' x y ↔ new x ∧ y = q ∨ At x y) :
    Placement At' item' := by
  refine ⟨fun x hx => ?_, fun x y hxy => ?_⟩
  · rcases (hitem x).mp hx with hold | hx
    · obtain ⟨y, hy, hunique⟩ := h.one x hold
      refine ⟨y, (hat x y).mpr (.inr hy), fun z hz => hunique z ?_⟩
      exact ((hat x z).mp hz).resolve_left fun hn => hnew x hn.1 hold
    · refine ⟨q, (hat x q).mpr (.inl ⟨hx, rfl⟩), fun y hy => ?_⟩
      rcases (hat x y).mp hy with ⟨-, hyq⟩ | hy
      · exact hyq
      · exact absurd (h.item x y hy) (hnew x hx)
  · rcases (hat x y).mp hxy with ⟨hx, -⟩ | hxy
    · exact (hitem x).mpr (.inr hx)
    · exact (hitem x).mpr (.inl (h.item x y hxy))

end Placement
