import Chip8Emulator.InstructionSet
import Chip8Emulator.Foundations.WordDigits

/-! The operands handlers cut out of an opcode. A range of hex digits is tested
at its first and its last index alone. The last one wraps, so a range can pass
that ends before it starts, and no digit is left of it. -/
namespace Chip8Emulator
open Foundations.Loops Foundations.WordDigits

theorem in_bounds_iff (value : SizeT) : isInBounds value 0 4 = decide (value.toNat < 4) := by
  simp [isInBounds, BitVec.le_def, BitVec.lt_def]

/-- A digit is four bits, as half a byte. -/
theorem digit_shift (count : SizeT) (small : count.toNat < 4) : (count * 8 / 2).toNat = 4 * count.toNat := by
  have product : (count * 8).toNat = count.toNat * 8 := by bv_omega
  rw [BitVec.toNat_udiv, product]
  change count.toNat * 8 / 2 = _
  omega

/-! ## Both ends -/

section Ends
variable (value : DByte) (start len : SizeT)

theorem extract_rejects (outside : ¬ (start.toNat < 4 ∧ (start + len - 1).toNat < 4)) :
    extractSubsequence value start len = .error .invalidArgument := by
  have rejected : (!isInBounds start 0 4 || !isInBounds (start + len - 1) 0 4) = true := by
    rw [in_bounds_iff, in_bounds_iff, ← Bool.not_and, Bool.not_eq_true', ← Bool.decide_and]
    exact decide_eq_false outside
  exact if_pos rejected

/-- With both ends in bounds, what is before the first digit is masked off and
what is after the last one shifted out. -/
theorem extract_accepts (first : start.toNat < 4) (last : (start + len - 1).toNat < 4) :
    ∃ digits, extractSubsequence value start len = .ok digits ∧
      digits.toNat = value.toNat % 16 ^ (4 - start.toNat) / 16 ^ (3 - (start + len - 1).toNat) := by
  have accepted : (!isInBounds start 0 4 || !isInBounds (start + len - 1) 0 4) = false := by
    simp only [in_bounds_iff, first, last, decide_true, Bool.not_true, Bool.or_self]
  have remaining : ((4 : SizeT) - 1 - (start + len - 1)).toNat = 3 - (start + len - 1).toNat := by bv_omega
  have rightShift := digit_shift ((4 : SizeT) - 1 - (start + len - 1)) (by omega)
  have power : ∀ k, 2 ^ (4 * k) = 16 ^ k := fun k => by rw [Nat.pow_mul]
  have width : 16 - 4 * start.toNat = 4 * (4 - start.toNat) := by omega
  refine ⟨_, if_neg (Bool.eq_false_iff.mp accepted), ?_⟩
  rw [cut_digits, digit_shift start first, rightShift, remaining, width, power, power]

end Ends

/-- Inside the opcode, the extracted digits are those of the value. -/
theorem extract_inside (value : DByte) (start len : SizeT) (positive : 1 ≤ len.toNat)
    (within : start.toNat + len.toNat ≤ 4) :
    ∃ digits, extractSubsequence value start len = .ok digits ∧
      digits.toNat = value.toNat / 16 ^ (4 - start.toNat - len.toNat) % 16 ^ len.toNat := by
  have last : (start + len - 1).toNat = start.toNat + len.toNat - 1 := by bv_omega
  obtain ⟨digits, extracted, cut⟩ := extract_accepts value start len (by omega) (by omega)
  have after : 3 - (start.toNat + len.toNat - 1) = 4 - start.toNat - len.toNat := by omega
  have count : 4 - start.toNat - (4 - start.toNat - len.toNat) = len.toNat := by omega
  rw [last, after, mod_div_digits _ _ _ _ (by omega), count] at cut
  exact ⟨digits, extracted, cut⟩

theorem extract_digits (value : DByte) (start len : SizeT) (positive : 1 ≤ len.toNat)
    (within : start.toNat + len.toNat ≤ 4) :
    extractSubsequence value start len =
      .ok (BitVec.ofNat 16 (value.toNat / 16 ^ (4 - start.toNat - len.toNat) % 16 ^ len.toNat)) := by
  obtain ⟨digits, extracted, cut⟩ := extract_inside value start len positive within
  rw [extracted, ← cut, BitVec.ofNat_toNat, BitVec.setWidth_eq]

@[simp] theorem extract_x (opcode : DByte) :
    extractSubsequence opcode 1#64 1#64 = .ok (BitVec.ofNat 16 (xOf opcode).val) :=
  extract_digits opcode 1 1 (by decide) (by decide)

@[simp] theorem extract_y (opcode : DByte) :
    extractSubsequence opcode 2#64 1#64 = .ok (BitVec.ofNat 16 (yOf opcode).val) :=
  extract_digits opcode 2 1 (by decide) (by decide)

@[simp] theorem extract_n (opcode : DByte) :
    extractSubsequence opcode 3#64 1#64 = .ok (BitVec.ofNat 16 (nOf opcode)) := by
  simpa [nOf] using extract_digits opcode 3 1 (by decide) (by decide)

@[simp] theorem extract_kk (opcode : DByte) :
    extractSubsequence opcode 2#64 2#64 = .ok ((kkOf opcode).setWidth 16) := by
  rw [extract_digits opcode 2#64 2#64 (by decide) (by decide)]
  apply congrArg
  apply BitVec.eq_of_toNat_eq
  simp [kkOf]

theorem nnn_toNat (opcode : DByte) : (nnnOf opcode).toNat = opcode.toNat % 4096 :=
  and_trailing_ones opcode 12

@[simp] theorem extract_nnn (opcode : DByte) : extractSubsequence opcode 1#64 3#64 = .ok (nnnOf opcode) := by
  rw [extract_digits opcode 1#64 3#64 (by decide) (by decide)]
  apply congrArg
  apply BitVec.eq_of_toNat_eq
  rw [nnn_toNat]
  have bound := opcode.isLt
  simp
  omega

/-! ## Every range -/

/-- A range of digits that lies in the opcode. -/
def DigitsInside (start len : SizeT) : Prop := 1 ≤ len.toNat ∧ start.toNat + len.toNat ≤ 4

/-- The digits of a range that lies in the opcode are returned, and every other
range is rejected. -/
def ExtractsDigits (value : DByte) (start len : SizeT) : Prop :=
  (DigitsInside start len → ∃ digits, extractSubsequence value start len = .ok digits ∧
    digits.toNat = value.toNat / 16 ^ (4 - start.toNat - len.toNat) % 16 ^ len.toNat) ∧
  (¬ DigitsInside start len → extractSubsequence value start len = .error .invalidArgument)

/-- A range that is empty or runs around the end of the index type, and starts
late enough for its last index to be one of the digits before it. -/
def EndsBefore (start len : SizeT) : Prop :=
  1 ≤ start.toNat ∧ start.toNat ≤ 3 ∧ (len.toNat = 0 ∨ 2 ^ 64 < start.toNat + len.toNat)

section Ranges
variable {start len : SizeT}

theorem ordered_of_inside (inside : DigitsInside start len) : start.toNat ≤ (start + len - 1).toNat := by
  obtain ⟨positive, within⟩ := inside
  bv_omega

/-- Among the ranges that pass the test, those whose last index is not before
the first are the ones in the opcode. -/
theorem inside_of_ends (last : (start + len - 1).toNat < 4)
    (ordered : start.toNat ≤ (start + len - 1).toNat) : DigitsInside start len := by
  constructor <;> bv_omega

/-- The other ranges that pass it are those that end before they start. -/
theorem ends_before_iff :
    EndsBefore start len ↔ start.toNat < 4 ∧ (start + len - 1).toNat < start.toNat := by
  unfold EndsBefore
  bv_omega

end Ranges

/-- A range that ends before it starts is accepted, and nothing of the value is left. -/
theorem extract_ends_before (value : DByte) (before : EndsBefore start len) :
    extractSubsequence value start len = .ok 0 := by
  obtain ⟨first, reversed⟩ := ends_before_iff.mp before
  obtain ⟨digits, extracted, cut⟩ := extract_accepts value start len first (by omega)
  have fewer : value.toNat % 16 ^ (4 - start.toNat) < 16 ^ (3 - (start + len - 1).toNat) := by
    have bound : value.toNat % 16 ^ (4 - start.toNat) < 16 ^ (4 - start.toNat) :=
      Nat.mod_lt _ (Nat.pow_pos (by decide))
    exact Nat.lt_of_lt_of_le bound (Nat.pow_le_pow_right (by decide) (by omega))
  rw [Nat.div_eq_of_lt fewer] at cut
  obtain rfl : digits = 0 := BitVec.eq_of_toNat_eq cut
  exact extracted

/-- Exactly the ranges that end before they start are neither extracted nor rejected. -/
theorem extracts_digits_iff (value : DByte) (start len : SizeT) :
    ExtractsDigits value start len ↔ ¬ EndsBefore start len := by
  constructor
  · rintro ⟨_, rejects⟩ before
    obtain ⟨first, reversed⟩ := ends_before_iff.mp before
    have outside : ¬ DigitsInside start len := fun inside =>
      Nat.not_le.mpr reversed (ordered_of_inside inside)
    have accepted := extract_ends_before value before
    rw [rejects outside] at accepted
    contradiction
  · intro forward
    refine ⟨fun inside => extract_inside value start len inside.1 inside.2, fun outside => ?_⟩
    apply extract_rejects
    rintro ⟨first, last⟩
    rcases Nat.lt_or_ge (start + len - 1).toNat start.toNat with reversed | ordered
    · exact forward (ends_before_iff.mpr ⟨first, reversed⟩)
    · exact outside (inside_of_ends last ordered)

/-- From digit 2 on, the most digits the type can count: the last index wraps to
0, which is in bounds. -/
theorem wrapped_range_accepted :
    ¬ ∀ (value : DByte) (start len : SizeT), ExtractsDigits value start len := by
  intro always
  have rejected := (always 0x1234 2 0xFFFFFFFFFFFFFFFF).2 (by unfold DigitsInside; decide)
  exact absurd rejected (by decide)

end Chip8Emulator
