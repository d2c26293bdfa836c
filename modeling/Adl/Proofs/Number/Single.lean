import Adl.Number.Double
import Mathlib.Algebra.Group.Int.Defs
import Mathlib.Algebra.Group.Nat.Defs
import Mathlib.Tactic.SplitIfs

/-!
# Single — integers and the range of 32 bit numbers

An integer of at most 128 bits, with its sign, is rounded to a double that is finite in 32 bits
(`ofInt_overflowsSingle`): its magnitude is at most `2 ^ 127`.
-/

namespace Adl.Double

theorem roundHalfEven_le (num den : Nat) : roundHalfEven num den ≤ num / den + 1 := by
  unfold roundHalfEven
  dsimp only
  split_ifs <;> omega

variable {n : Nat}

theorem floorLog2_one (hn : n ≠ 0) : floorLog2 n 1 = n.log2 := by
  have hle : 2 ^ n.log2 ≤ n := Nat.log2_self_le hn
  have hone : Nat.log2 1 = 0 := by decide
  have hexp : (n.log2 : Int) - ((0 : Nat) : Int) = n.log2 := by omega
  unfold floorLog2 scaleBinary
  dsimp only
  rw [hone, hexp]
  split_ifs with h0 h1 h1
  · rw [show n.log2 = 0 by omega] at h1
    simp at h1
    exact absurd h1 hn
  · rfl
  · have hcast : (- -(n.log2 : Int)).toNat = n.log2 := by omega
    rw [hcast, Nat.one_shiftLeft] at h1
    omega
  · rfl

/-- The significand of an integer has 53 bits before rounding. -/
theorem scaleBinary_div_lt (n : Nat) :
    (scaleBinary n 1 (-((n.log2 : Int) - 52))).1 / (scaleBinary n 1 (-((n.log2 : Int) - 52))).2 <
      2 ^ 53 := by
  have hlt : n < 2 ^ (n.log2 + 1) := Nat.lt_log2_self
  unfold scaleBinary
  split_ifs with h
  · have hexp : (-((n.log2 : Int) - 52)).toNat = 52 - n.log2 := by omega
    rw [hexp, Nat.shiftLeft_eq, Nat.div_one]
    calc n * 2 ^ (52 - n.log2) < 2 ^ (n.log2 + 1) * 2 ^ (52 - n.log2) :=
          Nat.mul_lt_mul_of_pos_right hlt (Nat.two_pow_pos _)
      _ = 2 ^ 53 := by rw [← Nat.pow_add]; congr 1; omega
  · have hexp : (- -((n.log2 : Int) - 52)).toNat = n.log2 - 52 := by omega
    rw [hexp, Nat.one_shiftLeft]
    refine (Nat.div_lt_iff_lt_mul (Nat.two_pow_pos _)).mpr ?_
    rw [← Nat.pow_add]
    exact Nat.lt_of_lt_of_le hlt (Nat.pow_le_pow_right (by omega) (by omega))

/-- The bits of an integer below `2 ^ 127` are at most those of `2 ^ 127`. -/
theorem roundBits_one_le (hn : n < 2 ^ 127) : roundBits n 1 ≤ 1150 * 2 ^ 52 := by
  by_cases h0 : n = 0
  · rw [h0]
    decide
  · have hlog : n.log2 < 127 := (Nat.log2_lt h0).mpr hn
    have hq : max ((n.log2 : Int) - 52) (-1074) = n.log2 - 52 := by omega
    have hround := roundHalfEven_le (scaleBinary n 1 (-((n.log2 : Int) - 52))).1
      (scaleBinary n 1 (-((n.log2 : Int) - 52))).2
    have hlt := scaleBinary_div_lt n
    unfold roundBits implicitBit
    rw [if_neg h0, floorLog2_one h0]
    dsimp only
    rw [hq]
    refine Nat.le_trans (Nat.min_le_right _ _) ?_
    omega

theorem bits_ofInt_lt {i : Int} (hle : -(2 ^ 127) ≤ i) (hlt : i < 2 ^ 127) :
    (ofInt i).bits < singleOverflowBits := by
  rcases Nat.lt_or_ge i.natAbs (2 ^ 127) with h | h
  · exact Nat.lt_of_le_of_lt (roundBits_one_le h) (by decide)
  · obtain rfl : i = -(2 ^ 127) := by omega
    decide +kernel

/-- An integer of at most 128 bits has a finite neighbour in 32 bits. -/
theorem ofInt_overflowsSingle {i : Int} (hle : -(2 ^ 127) ≤ i) (hlt : i < 2 ^ 127) :
    (ofInt i).overflowsSingle = false := by
  have hbits := bits_ofInt_lt hle hlt
  rw [overflowsSingle, decide_eq_false (Nat.not_le_of_lt hbits), Bool.and_false]

/-- An integer of at most 128 bits has a finite neighbour. -/
theorem ofInt_isFinite {i : Int} (hle : -(2 ^ 127) ≤ i) (hlt : i < 2 ^ 127) :
    (ofInt i).isFinite :=
  decide_eq_true (Nat.lt_trans (bits_ofInt_lt hle hlt) (by decide))

end Adl.Double
