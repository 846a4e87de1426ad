import UThreads.Lib.Segment
import Mathlib.Data.BitVec

/-!
# Counted walks

The loop

    for (i = 1; i < count; i += 1) if (next(*last) == fence) count = i; else last = next(*last);

over machine words. It ends itself by writing its own bound.

* `countedWalk_one`: along a segment that ends at the fence it stops at the `count`-th node, or at
  the last one, and `count` is then the number of nodes that it has seen.
-/

variable {ν : Type*} {w : ℕ} [DecidableEq ν]

/-- The loop from `i` on: the node at which it stops and the new `count`. Each test of `i < count`
takes one unit of fuel. -/
def countedWalk (next : ν → Option ν) (fence : Option ν) :
    ℕ → ν → BitVec w → BitVec w → Option (ν × BitVec w)
  | 0, _, _, _ => none
  | fuel + 1, last, i, count =>
    if i < count then
      if next last = fence then countedWalk next fence fuel last (i + 1) i
      else (next last).bind fun x => countedWalk next fence fuel x (i + 1) count
    else some (last, count)

variable {next : ν → Option ν} {fence : Option ν} {x : ν} {l : List ν}

/-- The loop with `n` rounds to go. -/
theorem countedWalk_spec (h : Segment next (some x) (x :: l) fence) (hf : ∀ y ∈ l, some y ≠ fence)
    {i n fuel : ℕ} (hin : i + n < 2 ^ w) (hfuel : n < fuel) :
    ∃ last, countedWalk next fence fuel x (BitVec.ofNat w i) (BitVec.ofNat w (i + n)) =
        some (last, BitVec.ofNat w (i + min n l.length)) ∧
      (x :: l).take (n + 1) = (x :: l).take (min n l.length) ++ [last] := by
  induction n generalizing x l i fuel with
  | zero =>
    obtain ⟨fuel, rfl⟩ : ∃ k, fuel = k + 1 := ⟨fuel - 1, by omega⟩
    exact ⟨x, by simp [countedWalk], by simp⟩
  | succ n ih =>
    obtain ⟨fuel, rfl⟩ : ∃ k, fuel = k + 1 := ⟨fuel - 1, by omega⟩
    have hlt : BitVec.ofNat w i < BitVec.ofNat w (i + (n + 1)) := by
      rw [BitVec.lt_def, BitVec.toNat_ofNat, BitVec.toNat_ofNat, Nat.mod_eq_of_lt,
        Nat.mod_eq_of_lt] <;>
        omega
    have hsucc : BitVec.ofNat w i + 1 = BitVec.ofNat w (i + 1) := by rw [BitVec.ofNat_add]; rfl
    obtain ⟨-, hl⟩ := h
    rw [countedWalk, if_pos hlt, hsucc]
    cases l with
    | nil =>
      -- The bound is now `i`, so that the next test fails.
      obtain ⟨fuel, rfl⟩ : ∃ k, fuel = k + 1 := ⟨fuel - 1, by omega⟩
      have hge : ¬BitVec.ofNat w (i + 1) < BitVec.ofNat w i := by
        rw [BitVec.lt_def, BitVec.toNat_ofNat, BitVec.toNat_ofNat, Nat.mod_eq_of_lt,
          Nat.mod_eq_of_lt] <;>
          omega
      refine ⟨x, ?_, by simp⟩
      rw [if_pos (show next x = fence from hl), countedWalk, if_neg hge]
      simp
    | cons y l =>
      have hy : next x = some y := hl.1
      obtain ⟨last, hwalk, htake⟩ :=
        ih ⟨rfl, hl.2⟩ (fun z hz => hf z (List.mem_cons_of_mem _ hz)) (i := i + 1) (by omega)
          (show n < fuel by omega)
      refine ⟨last, ?_, ?_⟩
      · rw [hy, if_neg (hf y List.mem_cons_self), Option.bind_some,
          show i + (n + 1) = i + 1 + n by omega,
          hwalk, List.length_cons, show i + 1 + min n l.length = i + min (n + 1) (l.length + 1) by
            omega]
      · rw [List.take_succ_cons, htake, List.length_cons,
          show min (n + 1) (l.length + 1) = min n l.length + 1 by omega, List.take_succ_cons,
          List.cons_append]

/-- The whole loop. It tests its bound no more often than the fuel allows, whatever the count. -/
theorem countedWalk_one (h : Segment next (some x) (x :: l) fence) (hf : ∀ y ∈ l, some y ≠ fence)
    {count : BitVec w} (hc : count ≠ 0) :
    ∃ m last, countedWalk next fence (count.toNat + 1) x 1 count =
        some (last, BitVec.ofNat w (min count.toNat (x :: l).length)) ∧
      (x :: l).take count.toNat = m ++ [last] := by
  have hpos : 0 < count.toNat := by
    rw [Nat.pos_iff_ne_zero]
    intro hz
    exact hc (BitVec.eq_of_toNat_eq (by simpa using hz))
  obtain ⟨n, hn⟩ : ∃ n, count.toNat = 1 + n := ⟨count.toNat - 1, by omega⟩
  obtain ⟨last, hwalk, htake⟩ :=
    countedWalk_spec (i := 1) h hf (hn ▸ count.isLt) (show n < count.toNat + 1 by omega)
  rw [← hn, BitVec.ofNat_toNat, BitVec.setWidth_eq] at hwalk
  refine ⟨_, last, ?_, by rw [hn, Nat.add_comm, htake]⟩
  rw [List.length_cons, hn, show min (1 + n) (l.length + 1) = 1 + min n l.length by omega, ← hn]
  exact hwalk
