import Mathlib.Data.Nat.Bitwise
import Mathlib.Tactic.Ring

/-! Masks and shifts of machine words read digits: a mask of leading ones and
a comparison test the leading digit, a mask of trailing ones the trailing one,
and both followed by a shift cut a run of digits out of the word. -/
namespace Foundations.WordDigits

variable {w : Nat}

/-- Trailing ones keep the remainder. -/
theorem and_trailing_ones (x : BitVec w) (k : Nat) :
    (x &&& BitVec.ofNat w (2 ^ k - 1)).toNat = x.toNat % 2 ^ k := by
  rcases Nat.lt_or_ge k w with small | large
  · have fits : 2 ^ k - 1 < 2 ^ w := by
      have smaller := Nat.pow_lt_pow_right (by decide : 1 < 2) small
      have positive := Nat.two_pow_pos k
      omega
    rw [BitVec.toNat_and, BitVec.toNat_ofNat, Nat.mod_eq_of_lt fits, Nat.and_two_pow_sub_one_eq_mod]
  · have whole : BitVec.ofNat w (2 ^ k - 1) = BitVec.allOnes w := by
      apply BitVec.eq_of_getLsbD_eq
      intro i bound
      simp only [BitVec.getLsbD_ofNat, BitVec.getLsbD_allOnes, Nat.testBit_two_pow_sub_one, bound]
      simp only [decide_true, Bool.true_and, decide_eq_true_eq]
      omega
    rw [whole, BitVec.and_allOnes, Nat.mod_eq_of_lt]
    exact Nat.lt_of_lt_of_le x.isLt (Nat.pow_le_pow_right (by decide) large)

/-- Leading ones keep the quotient. -/
theorem and_leading_ones (x : BitVec w) (k : Nat) :
    x &&& (BitVec.allOnes w <<< k) = (x >>> k) <<< k := by
  apply BitVec.eq_of_getLsbD_eq
  intro i bound
  simp only [BitVec.getLsbD_and, BitVec.getLsbD_shiftLeft, BitVec.getLsbD_allOnes,
    BitVec.getLsbD_ushiftRight, bound, decide_true, Bool.true_and]
  by_cases low : i < k
  · simp [low]
  · have inside : i - k < w := by omega
    have restored : k + (i - k) = i := by omega
    simp [low, inside, restored]

/-- Comparing the leading digit under a mask compares the quotient. -/
theorem leading_digit_iff (x : BitVec w) (k d : Nat) (fits : d * 2 ^ k < 2 ^ w) :
    x &&& (BitVec.allOnes w <<< k) = BitVec.ofNat w (d * 2 ^ k) ↔ x.toNat / 2 ^ k = d := by
  have positive : 0 < 2 ^ k := Nat.two_pow_pos k
  have quotient : ((x >>> k) <<< k).toNat = x.toNat / 2 ^ k * 2 ^ k := by
    rw [BitVec.toNat_shiftLeft, BitVec.toNat_ushiftRight, Nat.shiftLeft_eq, Nat.shiftRight_eq_div_pow]
    exact Nat.mod_eq_of_lt (Nat.lt_of_le_of_lt (Nat.div_mul_le_self _ _) x.isLt)
  rw [and_leading_ones, ← BitVec.toNat_inj, quotient, BitVec.toNat_ofNat, Nat.mod_eq_of_lt fits]
  exact Nat.mul_left_inj (Nat.ne_of_gt positive)

/-- Comparing the trailing digit under a mask compares the remainder. -/
theorem trailing_digit_iff (x : BitVec w) (k d : Nat) (fits : d < 2 ^ w) :
    x &&& BitVec.ofNat w (2 ^ k - 1) = BitVec.ofNat w d ↔ x.toNat % 2 ^ k = d := by
  rw [← BitVec.toNat_inj, and_trailing_ones, BitVec.toNat_ofNat, Nat.mod_eq_of_lt fits]

/-- A run of ones shifted down from the top is a run of trailing ones. -/
theorem ones_shifted_down (l : Nat) :
    BitVec.allOnes w >>> l = BitVec.ofNat w (2 ^ (w - l) - 1) := by
  apply BitVec.eq_of_getLsbD_eq
  intro i bound
  simp only [BitVec.getLsbD_ushiftRight, BitVec.getLsbD_allOnes, BitVec.getLsbD_ofNat,
    Nat.testBit_two_pow_sub_one, bound, decide_true, Bool.true_and, decide_eq_decide]
  omega

/-- Cutting off `l` leading and `r` trailing bits leaves the bits between. -/
theorem cut_digits (x : BitVec w) (l r : Nat) :
    ((x &&& (BitVec.allOnes w >>> l)) >>> r).toNat = x.toNat % 2 ^ (w - l) / 2 ^ r := by
  rw [BitVec.toNat_ushiftRight, ones_shifted_down, and_trailing_ones, Nat.shiftRight_eq_div_pow]

/-- Digits between two positions, as the remainder of a quotient. -/
theorem mod_div_digits (base n a b : Nat) (ordered : b ≤ a) :
    n % base ^ a / base ^ b = n / base ^ b % base ^ (a - b) := by
  obtain ⟨c, rfl⟩ := Nat.exists_eq_add_of_le ordered
  rw [Nat.add_sub_cancel_left, Nat.pow_add, Nat.mod_mul_right_div_self]

/-- Shifting the first byte up and adding the second joins them. -/
theorem joined_bytes (high low : BitVec 8) :
    high.setWidth 16 <<< 8 + low.setWidth 16 = high ++ low := by
  apply BitVec.eq_of_toNat_eq
  have highBound := high.isLt
  have lowBound := low.isLt
  rw [BitVec.toNat_append, ← Nat.shiftLeft_add_eq_or_of_lt lowBound, BitVec.toNat_add,
    BitVec.toNat_shiftLeft, BitVec.toNat_setWidth, BitVec.toNat_setWidth, Nat.shiftLeft_eq,
    Nat.shiftLeft_eq]
  omega

theorem append_toNat (high low : BitVec 8) : (high ++ low).toNat = high.toNat * 256 + low.toNat := by
  rw [BitVec.toNat_append, ← Nat.shiftLeft_add_eq_or_of_lt low.isLt, Nat.shiftLeft_eq]

/-- A mask over the low digit of the high byte, read as a number. -/
theorem middle_digit (x : BitVec 16) : ((x &&& 0x0F00#16) >>> 8).toNat = x.toNat / 256 % 16 := by
  have mask : 0x0F00#16 >>> 8 = BitVec.ofNat 16 (2 ^ 4 - 1) := by decide
  rw [BitVec.ushiftRight_and_distrib, mask, and_trailing_ones, BitVec.toNat_ushiftRight,
    Nat.shiftRight_eq_div_pow]
  rfl

end Foundations.WordDigits
