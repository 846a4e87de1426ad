import Mathlib.Tactic.Common
import Mathlib.Data.BitVec

/-!
# Machine words

Objects stand at even, non-zero addresses, so the low bit of a pointer word is free to carry a
mark. `mark` and `unmark` set and clear it, `marked` reads it.

The lemmas on `toNat` say when a word that is counted up or down does not wrap.
-/

/-- A 64-bit machine word. -/
abbrev Word := BitVec 64

namespace Word

/-- The low bit is set: `(w & 1) != 0`. -/
def marked (w : Word) : Bool := w &&& 1#64 != 0#64

/-- Set the low bit: `w | 1`. -/
def mark (w : Word) : Word := w ||| 1#64

/-- Clear the low bit: `w & ~1`. -/
def unmark (w : Word) : Word := w &&& ~~~1#64

/-- The address of an object: not null, and the low bit is free. -/
structure IsAddr (w : Word) : Prop where
  ne_zero : w ≠ 0#64
  even : w.marked = false

instance (w : Word) : Decidable w.IsAddr :=
  decidable_of_iff (w ≠ 0#64 ∧ w.marked = false) ⟨fun h => ⟨h.1, h.2⟩, fun h => ⟨h.1, h.2⟩⟩

/-- An object address, with the proof that it is one. -/
abbrev Addr := {w : Word // w.IsAddr}

theorem marked_eq_getLsbD (w : Word) : w.marked = w.getLsbD 0 := by
  have hbit : (w &&& 1#64).getLsbD 0 = w.getLsbD 0 := by simp
  cases hw : w.getLsbD 0 with
  | true =>
    have hne : w &&& 1#64 ≠ 0#64 := by
      intro h
      rw [h, hw] at hbit
      simp at hbit
    simpa [marked] using hne
  | false =>
    have h0 : w &&& 1#64 = 0#64 := by
      ext i hi
      rcases Nat.eq_zero_or_pos i with rfl | hpos
      · simpa using hw
      · simp [BitVec.getElem_one, Nat.pos_iff_ne_zero.mp hpos]
    simp [marked, h0]

@[simp] theorem marked_mark (w : Word) : w.mark.marked = true := by
  simp [marked_eq_getLsbD, mark]

theorem unmark_of_even {w : Word} (h : w.marked = false) : w.unmark = w := by
  rw [marked_eq_getLsbD] at h
  ext i hi
  rcases Nat.eq_zero_or_pos i with rfl | hpos
  · simpa [unmark] using h
  · simp only [unmark, BitVec.getElem_and, BitVec.getElem_not, BitVec.getElem_one]
    simp [Nat.pos_iff_ne_zero.mp hpos]

theorem unmark_mark {w : Word} (h : w.marked = false) : w.mark.unmark = w := by
  rw [marked_eq_getLsbD] at h
  ext i hi
  rcases Nat.eq_zero_or_pos i with rfl | hpos
  · simpa [unmark, mark] using h
  · simp only [unmark, mark, BitVec.getElem_and, BitVec.getElem_or, BitVec.getElem_not,
      BitVec.getElem_one]
    simp [Nat.pos_iff_ne_zero.mp hpos]

/-! ## Without a wrap -/

theorem toNat_sub_ofNat {a : Word} (n : ℕ) (hn : n < 2 ^ 64) (h : n ≤ a.toNat) :
    (a - BitVec.ofNat 64 n).toNat + n = a.toNat := by
  have hofNat : (BitVec.ofNat 64 n).toNat = n := by
    rw [BitVec.toNat_ofNat]
    omega
  have hle : BitVec.ofNat 64 n ≤ a := by
    rw [BitVec.le_def, hofNat]
    exact h
  rw [BitVec.toNat_sub_of_le hle, hofNat]
  omega

theorem toNat_pos {a : Word} (h : a ≠ 0) : 0 < a.toNat := by
  rw [Nat.pos_iff_ne_zero]
  exact fun h0 => h (BitVec.eq_of_toNat_eq h0)

theorem toNat_sub_one {a : Word} (h : 0 < a.toNat) : (a - 1).toNat + 1 = a.toNat :=
  toNat_sub_ofNat 1 (by decide) h

theorem toNat_add_one {a : Word} (h : a.toNat + 1 < 2 ^ 64) : (a + 1).toNat = a.toNat + 1 := by
  rw [BitVec.toNat_add]
  exact Nat.mod_eq_of_lt h

end Word
