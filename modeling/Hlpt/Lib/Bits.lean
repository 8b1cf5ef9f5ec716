import Mathlib.Data.BitVec

/-!
# `Hlpt.Lib.Bits`: flags in a machine word

Setting and keeping the bits of one mask, seen through another mask.
-/

set_option autoImplicit false

namespace Hlpt.Lib

variable {w : ℕ} {x a b : BitVec w}

/-- A disjoint mask does not see the bits that are set. -/
theorem or_and_of_disjoint (h : a &&& b = 0#w) : (x ||| a) &&& b = x &&& b := by
  rw [BitVec.and_or_distrib_right, h, BitVec.or_zero]

/-- The mask of the bits that are set sees all of them. -/
theorem or_and_self (x a : BitVec w) : (x ||| a) &&& a = a := by
  ext i hi
  simp only [BitVec.getElem_and, BitVec.getElem_or]
  cases a[i] <;> simp

/-- A mask sees of the bits that are kept only its own. -/
theorem and_and_of_le (h : a &&& b = b) : (x &&& a) &&& b = x &&& b := by
  rw [BitVec.and_assoc, h]

/-- Setting bits does not hide the ones that are set. -/
theorem or_and_ne_zero (h : x &&& b ≠ 0#w) : (x ||| a) &&& b ≠ 0#w := by
  rw [BitVec.and_or_distrib_right]
  intro h0
  exact h (BitVec.or_eq_zero_iff.mp h0).1

/-- A mask of one bit sees nothing or itself. -/
theorem and_twoPow_eq (x : BitVec w) (i : ℕ) :
    x &&& BitVec.twoPow w i = 0#w ∨ x &&& BitVec.twoPow w i = BitVec.twoPow w i := by
  rw [BitVec.and_twoPow]
  split
  · exact .inr rfl
  · exact .inl rfl

/-- A power of two less one has the bits below. -/
theorem getLsbD_twoPow_sub_one {k : ℕ} (hk : k < w) (i : ℕ) :
    (BitVec.twoPow w k - 1#w).getLsbD i = decide (i < k) := by
  have hlt : 2 ^ k < 2 ^ w := Nat.pow_lt_pow_right (by decide) hk
  have hone : (1#w).toNat = 1 := BitVec.toNat_one (by omega)
  have hpow : (BitVec.twoPow w k).toNat = 2 ^ k := by
    rw [BitVec.toNat_twoPow, Nat.mod_eq_of_lt hlt]
  have hle : 1#w ≤ BitVec.twoPow w k := by
    rw [BitVec.le_def, hone, hpow]
    exact Nat.one_le_two_pow
  rw [BitVec.getLsbD, BitVec.toNat_sub_of_le hle, hpow, hone]
  exact Nat.testBit_two_pow_sub_one k i

/-- Rounding down to a multiple of a power of two. -/
theorem toNat_and_not {k : ℕ} (hk : k < w) (x : BitVec w) :
    (x &&& ~~~(BitVec.twoPow w k - 1#w)).toNat = x.toNat / 2 ^ k * 2 ^ k := by
  have hshift : x &&& ~~~(BitVec.twoPow w k - 1#w) = (x >>> k) <<< k := by
    apply BitVec.eq_of_getLsbD_eq
    intro i hi
    rw [BitVec.getLsbD_and, BitVec.getLsbD_not, getLsbD_twoPow_sub_one hk,
      BitVec.getLsbD_shiftLeft, BitVec.getLsbD_ushiftRight]
    by_cases hik : i < k
    · simp [hi, hik]
    · have hadd : k + (i - k) = i := by omega
      simp [hi, hik, hadd]
  rw [hshift, BitVec.toNat_shiftLeft, BitVec.toNat_ushiftRight, Nat.shiftRight_eq_div_pow,
    Nat.shiftLeft_eq]
  exact Nat.mod_eq_of_lt (lt_of_le_of_lt (Nat.div_mul_le_self _ _) x.isLt)

end Hlpt.Lib
