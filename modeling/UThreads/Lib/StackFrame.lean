import UThreads.Lib.Word
import Mathlib.Data.List.Basic
import Mathlib.Logic.Function.Basic

/-!
# Frames of words on a stack

A memory of words, each known by its address; the next word is 8 bytes up. `Frame mem a vs` says
that the words `vs` stand in memory from address `a` up. `Within lo top a` says that the word at `a`
is inside the stack from `lo` to `top`.

* `Frame.append`: a frame is split at any of its words.
* `Frame.congr`: a frame inside a stack depends on the words of that stack only.
* `frame_storeAll`: words that are stored one above the other are a frame.
-/

/-- The word at `a` is between `lo` and `top`. -/
def Within (lo top a : Word) : Prop := lo.toNat ≤ a.toNat ∧ a.toNat + 8 ≤ top.toNat

instance (lo top a : Word) : Decidable (Within lo top a) := inferInstanceAs (Decidable (_ ∧ _))

/-- The words from address `a` up are `vs`. -/
def Frame (mem : Word → Word) : Word → List Word → Prop
  | _, [] => True
  | a, v :: vs => mem a = v ∧ Frame mem (a + 8#64) vs

/-- The words `vs` are stored from address `a` up. -/
def storeAll (mem : Word → Word) : Word → List Word → Word → Word
  | _, [] => mem
  | a, v :: vs => storeAll (Function.update mem a v) (a + 8#64) vs

theorem toNat_add_eight {a : Word} {n : ℕ} (h : a.toNat + 8 ≤ n) (hn : n < 2 ^ 64) :
    (a + 8#64).toNat = a.toNat + 8 := by
  rw [BitVec.toNat_add]
  simp only [BitVec.toNat_ofNat]
  omega

namespace Frame

variable {mem mem' : Word → Word} {a : Word} {v : Word} {vs ws : List Word}

@[simp] theorem nil : Frame mem a [] := trivial

@[simp] theorem cons : Frame mem a (v :: vs) ↔ mem a = v ∧ Frame mem (a + 8#64) vs := Iff.rfl

theorem append : Frame mem a (vs ++ ws) ↔
    Frame mem a vs ∧ Frame mem (a + BitVec.ofNat 64 (8 * vs.length)) ws := by
  induction vs generalizing a with
  | nil => simp
  | cons v vs ih =>
    have hoff : a + 8#64 + BitVec.ofNat 64 (8 * vs.length) =
        a + BitVec.ofNat 64 (8 * (v :: vs).length) := by
      rw [List.length_cons, BitVec.add_assoc]
      congr 1
      apply BitVec.eq_of_toNat_eq
      simp
      omega
    rw [List.cons_append, cons, ih, cons, hoff, and_assoc]

/-- The words from `lo` up are the same. -/
theorem congr {lo top : Word} (h : Frame mem a vs) (hlo : lo.toNat ≤ a.toNat)
    (htop : a.toNat + 8 * vs.length ≤ top.toNat) (hc : ∀ b, Within lo top b → mem' b = mem b) :
    Frame mem' a vs := by
  induction vs generalizing a with
  | nil => trivial
  | cons v vs ih =>
    rw [List.length_cons] at htop
    have hlt := top.isLt
    refine ⟨?_, ?_⟩
    · rw [hc a ⟨hlo, by omega⟩]
      exact h.1
    · cases vs with
      | nil => trivial
      | cons w ws =>
        rw [List.length_cons] at htop
        have hnext : (a + 8#64).toNat = a.toNat + 8 := toNat_add_eight (by omega) hlt
        apply ih h.2
        · omega
        · rw [List.length_cons]
          omega

end Frame

variable {mem : Word → Word} {a top : Word} {vs : List Word}

theorem storeAll_of_not_within (htop : a.toNat + 8 * vs.length ≤ top.toNat) {b : Word}
    (hb : ¬Within a top b) : storeAll mem a vs b = mem b := by
  induction vs generalizing mem a with
  | nil => rfl
  | cons v vs ih =>
    rw [List.length_cons] at htop
    have hba : b ≠ a := by
      rintro rfl
      exact hb ⟨le_refl _, by omega⟩
    rw [storeAll]
    cases vs with
    | nil => exact Function.update_of_ne hba ..
    | cons w ws =>
      rw [List.length_cons] at htop
      have hnext : (a + 8#64).toNat = a.toNat + 8 := toNat_add_eight (by omega) top.isLt
      rw [ih]
      · exact Function.update_of_ne hba ..
      · rw [List.length_cons]
        omega
      · intro hw
        exact hb ⟨by have := hw.1; omega, hw.2⟩

theorem frame_storeAll (htop : a.toNat + 8 * vs.length ≤ top.toNat) :
    Frame (storeAll mem a vs) a vs := by
  induction vs generalizing mem a with
  | nil => trivial
  | cons v vs ih =>
    rw [List.length_cons] at htop
    cases vs with
    | nil => exact ⟨Function.update_self .., trivial⟩
    | cons w ws =>
      rw [List.length_cons] at htop
      have hnext : (a + 8#64).toNat = a.toNat + 8 := toNat_add_eight (by omega) top.isLt
      have hroom : (a + 8#64).toNat + 8 * (w :: ws).length ≤ top.toNat := by
        rw [List.length_cons]
        omega
      refine ⟨?_, ih hroom⟩
      rw [storeAll, storeAll_of_not_within hroom]
      · exact Function.update_self ..
      · intro hw
        have := hw.1
        omega
