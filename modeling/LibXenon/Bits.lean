/-
LibXenon/Bits.lean

Words as numbers.

A mask of low bits takes a remainder, its complement rounds down, a small
number has no high bits, and digits are shifted in.  The lemmas are about words of any width; masks are
given by their value `2 ^ k - 1`, so that a named constant can be used without
being unfolded.
-/
import Mathlib.Data.BitVec

namespace Bits

variable {w k i : Nat} {x y mask : BitVec w}

theorem toNat_and_mask (hmask : mask.toNat = 2 ^ k - 1) : (x &&& mask).toNat = x.toNat % 2 ^ k := by
  rw [BitVec.toNat_and, hmask, Nat.and_two_pow_sub_one_eq_mod]

theorem getLsbD_mask (hmask : mask.toNat = 2 ^ k - 1) : mask.getLsbD i = decide (i < k) := by
  rw [BitVec.getLsbD, hmask, Nat.testBit_two_pow_sub_one]

theorem toNat_and_not_mask (hmask : mask.toNat = 2 ^ k - 1) :
    (x &&& ~~~mask).toNat = x.toNat / 2 ^ k * 2 ^ k := by
  have hbits : x &&& ~~~mask = x >>> k <<< k := by
    apply BitVec.eq_of_getLsbD_eq
    intro i hi
    rw [BitVec.getLsbD_and, BitVec.getLsbD_not, getLsbD_mask hmask, BitVec.getLsbD_shiftLeft,
      BitVec.getLsbD_ushiftRight]
    by_cases hik : i < k
    · simp [hik]
    · have hback : k + (i - k) = i := by omega
      simp [hik, hi, hback]
  have hle : x.toNat / 2 ^ k * 2 ^ k < 2 ^ w := (Nat.div_mul_le_self _ _).trans_lt x.isLt
  rw [hbits, BitVec.toNat_shiftLeft, BitVec.toNat_ushiftRight, Nat.shiftRight_eq_div_pow,
    Nat.shiftLeft_eq, Nat.mod_eq_of_lt hle]

theorem toNat_shiftLeft_or (hx : x.toNat * 2 ^ k < 2 ^ w) (hy : y.toNat < 2 ^ k) :
    (x <<< k ||| y).toNat = x.toNat * 2 ^ k + y.toNat := by
  have hshift : (x <<< k).toNat = x.toNat <<< k := by
    rw [BitVec.toNat_shiftLeft, Nat.mod_eq_of_lt]
    rwa [Nat.shiftLeft_eq]
  rw [BitVec.toNat_or, hshift, ← Nat.shiftLeft_add_eq_or_of_lt hy, Nat.shiftLeft_eq]

theorem getLsbD_of_toNat_lt (hx : x.toNat < 2 ^ k) (hi : k ≤ i) : x.getLsbD i = false :=
  Nat.testBit_lt_two_pow (hx.trans_le (Nat.pow_le_pow_right Nat.two_pos hi))

theorem toNat_ofNat_two_pow (hk : k < w) : (BitVec.ofNat w (2 ^ k)).toNat = 2 ^ k := by
  rw [BitVec.toNat_ofNat, Nat.mod_eq_of_lt (Nat.pow_lt_pow_right Nat.one_lt_two hk)]

theorem toNat_sdiv_of_nonneg (hx : x.msb = false) (hy : y.msb = false) :
    (x.sdiv y).toNat = x.toNat / y.toNat := by
  rw [BitVec.sdiv_eq, hx, hy]
  exact BitVec.toNat_udiv

end Bits
