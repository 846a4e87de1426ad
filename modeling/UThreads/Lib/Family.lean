import Mathlib.Data.List.Nodup
import Mathlib.Logic.Function.Basic
import Mathlib.Tactic.Common

/-!
# Structures that share one store

Nodes carry their own links, and any number of structures is built from them. A structure of the
family is a predicate on the links and on the list of its nodes. Every node is in one structure at
most (`Parts`); in a `Family` the links of a node that is in none are blank.

* `Parts.change`, `Family.change`: one structure changes; nodes enter it and leave it.
* `Family.transfer`: nodes go from one structure to another.
-/

variable {ι N L : Type*}

/-- The structure depends on the links of its own nodes only. -/
def Framed (rep : (N → L) → List N → Prop) : Prop :=
  ∀ ⦃m m' l⦄, rep m l → (∀ x ∈ l, m' x = m x) → rep m' l

/-- Every structure has its nodes, and no node is in two. -/
structure Parts (rep : ι → (N → L) → List N → Prop) (m : N → L) (nodes : ι → List N) : Prop where
  framed : ∀ i, Framed (rep i)
  holds : ∀ i, rep i m (nodes i)
  one : ∀ ⦃x i j⦄, x ∈ nodes i → x ∈ nodes j → i = j

/-- Structure `i` changes. The nodes that it gets were in no structure. -/
theorem Parts.change [DecidableEq ι] {rep rep' : ι → (N → L) → List N → Prop} {m m' : N → L}
    {nodes : ι → List N} {i : ι} {l : List N} (h : Parts rep m nodes) (hi : rep' i m' l)
    (hframed : Framed (rep' i)) (hrep : ∀ j, j ≠ i → rep' j = rep j)
    (hnew : ∀ x ∈ l, x ∈ nodes i ∨ ∀ j, x ∉ nodes j)
    (hframe : ∀ x, x ∉ nodes i → x ∉ l → m' x = m x) :
    Parts rep' m' (Function.update nodes i l) := by
  have hother : ∀ {x j}, j ≠ i → x ∈ nodes j → x ∉ nodes i ∧ x ∉ l := by
    intro x j hj hx
    have hxi : x ∉ nodes i := fun hxi => hj (h.one hx hxi)
    exact ⟨hxi, fun hxl => (hnew x hxl).elim hxi fun hno => hno j hx⟩
  have hmem : ∀ {x j}, x ∈ Function.update nodes i l j → j = i ∧ x ∈ l ∨ j ≠ i ∧ x ∈ nodes j := by
    intro x j hx
    by_cases hj : j = i
    · subst hj
      exact .inl ⟨rfl, by simpa using hx⟩
    · exact .inr ⟨hj, by simpa [hj] using hx⟩
  refine ⟨fun j => ?_, fun j => ?_, fun x j k hxj hxk => ?_⟩
  · by_cases hj : j = i
    · exact hj ▸ hframed
    · exact hrep j hj ▸ h.framed j
  · by_cases hj : j = i
    · subst hj
      rwa [Function.update_self]
    · rw [Function.update_of_ne hj, hrep j hj]
      exact h.framed j (h.holds j) fun x hx => hframe x (hother hj hx).1 (hother hj hx).2
  · rcases hmem hxj with ⟨hj, hxl⟩ | ⟨hj, hxj⟩
    · rcases hmem hxk with ⟨hk, -⟩ | ⟨hk, hxk⟩
      · rw [hj, hk]
      · exact absurd hxl (hother hk hxk).2
    · rcases hmem hxk with ⟨-, hxl⟩ | ⟨hk, hxk⟩
      · exact absurd hxl (hother hj hxj).2
      · exact h.one hxj hxk

structure Family (rep : ι → (N → L) → List N → Prop) (blank : L) (m : N → L) (nodes : ι → List N) :
    Prop where
  framed : ∀ i, Framed (rep i)
  holds : ∀ i, rep i m (nodes i)
  one : ∀ ⦃x i j⦄, x ∈ nodes i → x ∈ nodes j → i = j
  blank : ∀ x, (∀ i, x ∉ nodes i) → m x = blank

namespace Family

variable [DecidableEq ι] {rep rep' : ι → (N → L) → List N → Prop} {blank : L} {m m' : N → L}
  {nodes : ι → List N} {i j : ι} {l r : List N}

omit [DecidableEq ι] in
theorem disjoint (h : Family rep blank m nodes) (hij : i ≠ j) : (nodes i).Disjoint (nodes j) :=
  fun _ hi hj => hij (h.one hi hj)

omit [DecidableEq ι] in
theorem parts (h : Family rep blank m nodes) : Parts rep m nodes := ⟨h.framed, h.holds, h.one⟩

/-- Structure `i` changes. The nodes that it gets were in no structure, those that it loses are
blank. -/
theorem change (h : Family rep blank m nodes) (hi : rep' i m' l) (hframed : Framed (rep' i))
    (hrep : ∀ j, j ≠ i → rep' j = rep j) (hnew : ∀ x ∈ l, x ∈ nodes i ∨ ∀ j, x ∉ nodes j)
    (hout : ∀ x ∈ nodes i, x ∉ l → m' x = blank)
    (hframe : ∀ x, x ∉ nodes i → x ∉ l → m' x = m x) :
    Family rep' blank m' (Function.update nodes i l) := by
  obtain ⟨hf, hh, hone⟩ := h.parts.change hi hframed hrep hnew hframe
  refine ⟨hf, hh, hone, fun x hx => ?_⟩
  have hxl : x ∉ l := by simpa using hx i
  by_cases hxi : x ∈ nodes i
  · exact hout x hxi hxl
  · rw [hframe x hxi hxl]
    refine h.blank x fun j => ?_
    by_cases hj : j = i
    · exact hj ▸ hxi
    · simpa [hj] using hx j

/-- The nodes `l` go from structure `j` to structure `i`; `r` is what is left. -/
theorem transfer (h : Family rep blank m nodes) (hij : i ≠ j) (hj : nodes j = l ++ r)
    (hdisj : l.Disjoint r) (hi' : rep' i m' (nodes i ++ l)) (hj' : rep' j m' r)
    (hframed : Framed (rep' i) ∧ Framed (rep' j)) (hrep : ∀ k, k ≠ i → k ≠ j → rep' k = rep k)
    (hframe : ∀ x, x ∉ nodes i → x ∉ nodes j → m' x = m x) :
    Family rep' blank m' (Function.update (Function.update nodes j r) i (nodes i ++ l)) := by
  have hmem : ∀ {x k}, x ∈ Function.update (Function.update nodes j r) i (nodes i ++ l) k →
      k = i ∧ x ∈ l ∨ x ∈ nodes k ∧ x ∉ l := by
    intro x k hx
    by_cases hki : k = i
    · subst hki
      rw [Function.update_self, List.mem_append] at hx
      by_cases hxl : x ∈ l
      · exact .inl ⟨rfl, hxl⟩
      · exact .inr ⟨hx.resolve_right hxl, hxl⟩
    · rw [Function.update_of_ne hki] at hx
      by_cases hkj : k = j
      · subst hkj
        rw [Function.update_self] at hx
        exact .inr ⟨hj ▸ List.mem_append_right _ hx, fun hxl => hdisj hxl hx⟩
      · rw [Function.update_of_ne hkj] at hx
        exact .inr ⟨hx, fun hxl => hkj (h.one hx (hj ▸ List.mem_append_left _ hxl))⟩
  refine ⟨fun k => ?_, fun k => ?_, fun x k k' hk hk' => ?_, fun x hx => ?_⟩
  · by_cases hki : k = i
    · exact hki ▸ hframed.1
    · by_cases hkj : k = j
      · exact hkj ▸ hframed.2
      · exact hrep k hki hkj ▸ h.framed k
  · by_cases hki : k = i
    · subst hki
      rwa [Function.update_self]
    · rw [Function.update_of_ne hki]
      by_cases hkj : k = j
      · subst hkj
        rwa [Function.update_self]
      · rw [Function.update_of_ne hkj, hrep k hki hkj]
        exact h.framed k (h.holds k) fun x hx =>
          hframe x (fun hxi => hki (h.one hx hxi)) fun hxj => hkj (h.one hx hxj)
  · rcases hmem hk with ⟨rfl, hxl⟩ | ⟨hk, hxl⟩
    · rcases hmem hk' with ⟨rfl, -⟩ | ⟨-, hnl⟩
      · rfl
      · exact absurd hxl hnl
    · rcases hmem hk' with ⟨-, hl⟩ | ⟨hk', -⟩
      · exact absurd hl hxl
      · exact h.one hk hk'
  · have hxi : x ∉ nodes i ∧ x ∉ l := by simpa using hx i
    have hxj : x ∉ nodes j := by
      have hr : x ∉ r := by simpa [hij.symm] using hx j
      simp [hj, hxi.2, hr]
    rw [hframe x hxi.1 hxj]
    refine h.blank x fun k => ?_
    by_cases hki : k = i
    · exact hki ▸ hxi.1
    · by_cases hkj : k = j
      · exact hkj ▸ hxj
      · simpa [hki, hkj] using hx k

end Family
