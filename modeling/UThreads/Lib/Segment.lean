import Mathlib.Logic.Function.Basic
import Mathlib.Data.List.Nodup
import Mathlib.Tactic.Common

/-!
# Segments of linked nodes

`Segment next a l b` says that following `next` from the pointer `a` visits the nodes `l` and
arrives at the pointer `b`. `none` is the null pointer.

* `Segment.append`: a segment is split at any of its nodes.
* `Segment.walk_eq`: the walk along a segment visits its nodes.
* `Segment.unique`, `Segment.nodup`: the segment up to the null pointer, or to a fence, is
  determined by its start, so that it visits no node twice.
* `Segment.congr`, `Segment.update`: a segment depends on the pointers of its own nodes only.
-/

variable {ν : Type*}

/-- Following `next` from `a` visits the nodes `l` and arrives at `b`. -/
def Segment (next : ν → Option ν) : Option ν → List ν → Option ν → Prop
  | a, [], b => a = b
  | a, x :: l, b => a = some x ∧ Segment next (next x) l b

/-- The first `n` nodes that following `next` from `a` visits. -/
def walk (next : ν → Option ν) : ℕ → Option ν → List ν
  | 0, _ | _ + 1, none => []
  | n + 1, some x => x :: walk next n (next x)

namespace Segment

variable {next next' : ν → Option ν} {a b c : Option ν} {x : ν} {l m : List ν}

@[simp] theorem nil : Segment next a [] b ↔ a = b := Iff.rfl

@[simp] theorem cons : Segment next a (x :: l) b ↔ a = some x ∧ Segment next (next x) l b := Iff.rfl

theorem append : Segment next a (l ++ m) c ↔ ∃ b, Segment next a l b ∧ Segment next b m c := by
  induction l generalizing a with
  | nil => simp
  | cons x l ih => simp [ih, and_assoc]

theorem concat : Segment next a (l ++ [x]) b ↔ Segment next a l (some x) ∧ next x = b := by
  simp [append]

theorem start (h : Segment next a l b) : a = l.head?.or b := by
  cases l with
  | nil => exact h
  | cons x l => exact h.1

theorem head? (h : Segment next a l none) : a = l.head? := by
  rw [h.start, Option.or_none]

theorem walk_eq (h : Segment next a l none) (n : ℕ) : walk next n a = l.take n := by
  induction n generalizing a l with
  | zero => simp [walk]
  | succ n ih =>
    cases l with
    | nil => simp [walk, show a = none from h]
    | cons x l => simp [walk, h.1, ih h.2]

/-- Two walks from `a` that stop when they get to `b` for the first time. -/
theorem unique (h : Segment next a l b) (h' : Segment next a m b) (hl : ∀ y ∈ l, some y ≠ b)
    (hm : ∀ y ∈ m, some y ≠ b) : l = m := by
  induction l generalizing a m with
  | nil =>
    cases m with
    | nil => rfl
    | cons y m =>
      obtain rfl : a = b := h
      exact absurd h'.1.symm (hm y List.mem_cons_self)
  | cons x l ih =>
    obtain ⟨rfl, hl'⟩ := h
    cases m with
    | nil => exact absurd h' (hl x List.mem_cons_self)
    | cons y m =>
      obtain ⟨hy, hm'⟩ := h'
      obtain rfl : x = y := Option.some.inj hy
      rw [ih hl' hm' (fun z hz => hl z (List.mem_cons_of_mem _ hz)) fun z hz =>
        hm z (List.mem_cons_of_mem _ hz)]

theorem right_unique (h : Segment next a l none) (h' : Segment next a m none) : l = m :=
  h.unique h' (by simp) (by simp)

theorem nodup (h : Segment next a l none) : l.Nodup := by
  induction l generalizing a with
  | nil => exact List.nodup_nil
  | cons x l ih =>
    refine List.nodup_cons.mpr ⟨fun hx => ?_, ih h.2⟩
    -- What follows the second visit of `x` is what follows the first.
    obtain ⟨p, q, rfl⟩ := List.append_of_mem hx
    obtain ⟨b, -, rfl, hq⟩ := append.mp h.2
    have hlen := congrArg List.length (hq.right_unique h.2)
    simp only [List.length_append, List.length_cons] at hlen
    omega

theorem congr (h : Segment next a l b) (hc : ∀ x ∈ l, next' x = next x) : Segment next' a l b := by
  induction l generalizing a with
  | nil => exact h
  | cons x l ih =>
    refine ⟨h.1, ?_⟩
    rw [hc x List.mem_cons_self]
    exact ih h.2 fun y hy => hc y (List.mem_cons_of_mem _ hy)

/-- A pointer of another node is written. -/
theorem update [DecidableEq ν] (h : Segment next a l b) (hx : x ∉ l) :
    Segment (Function.update next x c) a l b := by
  refine h.congr fun y hy => Function.update_of_ne ?_ ..
  rintro rfl
  exact hx hy

/-- The pointer of the last node is written. -/
theorem update_last [DecidableEq ν] (h : Segment next a (l ++ [x]) b) (hx : x ∉ l) :
    Segment (Function.update next x c) a (l ++ [x]) c :=
  concat.mpr ⟨(concat.mp h).1.update hx, Function.update_self ..⟩

end Segment
