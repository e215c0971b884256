import Chip8Emulator.InstructionFrames

/-! The arithmetic instructions as arithmetic on numbers. Five of them leave a
bit in `VF`; each is a result and a flag of its operands, and they differ in
which of the two is written last, which shows where `VF` is the destination. -/
namespace Chip8Emulator.Arithmetic
open Foundations.Loops

/-- The instructions that set the flag. -/
inductive FlagInstruction where
  | add
  | sub
  | shiftRight
  | subFrom
  | shiftLeft

namespace FlagInstruction

def perform : FlagInstruction → DByte → Cpu Unit
  | .add => perform8xy4
  | .sub => perform8xy5
  | .shiftRight => perform8xy6
  | .subFrom => perform8xy7
  | .shiftLeft => perform8xyE

def instruction (x y : Fin 16) : FlagInstruction → Instruction
  | .add => .add x y
  | .sub => .sub x y
  | .shiftRight => .shiftRight x
  | .subFrom => .subFrom x y
  | .shiftLeft => .shiftLeft x

def result (vx vy : Byte) : FlagInstruction → Byte
  | .add => vx + vy
  | .sub => vx - vy
  | .shiftRight => vx >>> 1
  | .subFrom => vy - vx
  | .shiftLeft => vx <<< 1

/-- The carry, the missing borrow, or the bit shifted out. -/
def flag (vx vy : Byte) : FlagInstruction → Byte
  | .add => if vx.toNat + vy.toNat > 255 then 1 else 0
  | .sub => if vx < vy then 0 else 1
  | .shiftRight => vx &&& 1
  | .subFrom => if vy < vx then 0 else 1
  | .shiftLeft => vx >>> 7

theorem perform_exact (kind : FlagInstruction) (inputs : TickInputs) (w : World) (opcode : DByte) :
    outcome ((kind.perform opcode).run w) =
      execute inputs w (kind.instruction (xOf opcode) (yOf opcode)) := by
  cases kind with
  | add => exact perform8xy4_exact inputs w opcode
  | sub => exact perform8xy5_exact inputs w opcode
  | shiftRight => exact perform8xy6_exact inputs w opcode
  | subFrom => exact perform8xy7_exact inputs w opcode
  | shiftLeft => exact perform8xyE_exact inputs w opcode

end FlagInstruction

/-- The value of a register as a number. -/
def value (w : World) (r : Fin 16) : Nat := (w.vRegisters r).toNat

/-! ## A destination other than the flag -/

/-- The flag and the result are both there, whichever was written first. -/
theorem flagged_result (kind : FlagInstruction) (w : World) (opcode : DByte) (notFlag : xOf opcode ≠ vF) :
    ∃ next, (kind.perform opcode).run w = .ok () next ∧
      next.vRegisters (xOf opcode) = kind.result (w.vRegisters (xOf opcode)) (w.vRegisters (yOf opcode)) ∧
      next.vRegisters vF = kind.flag (w.vRegisters (xOf opcode)) (w.vRegisters (yOf opcode)) ∧
      ∀ r, r ≠ xOf opcode → r ≠ vF → next.vRegisters r = w.vRegisters r := by
  have exactly := kind.perform_exact (.reading 0) w opcode
  have other : vF ≠ xOf opcode := notFlag.symm
  cases kind with
  | add =>
    refine ⟨_, outcome_eq_ok.mp exactly, write_same _ _ _, ?_, fun r first second => ?_⟩
    · rw [write_elsewhere _ _ other, write_same]
      rfl
    · rw [write_elsewhere _ _ first, write_elsewhere _ _ second]
  | sub | subFrom =>
    refine ⟨_, outcome_eq_ok.mp exactly, ?_, write_same _ _ _, fun r first second => ?_⟩
    · rw [write_elsewhere _ _ notFlag, write_same]
      rfl
    · rw [write_elsewhere _ _ second, write_elsewhere _ _ first]
  | shiftRight | shiftLeft =>
    refine ⟨_, outcome_eq_ok.mp exactly, ?_, ?_, fun r first second => ?_⟩
    · rw [write_same, write_elsewhere _ _ notFlag]
      rfl
    · rw [write_elsewhere _ _ other, write_same]
      rfl
    · rw [write_elsewhere _ _ first, write_elsewhere _ _ second]

/-- What the registers after an instruction have to do with those before it,
as integers. -/
def Exact (vx vy result flag : Nat) : FlagInstruction → Prop
  | .add => result + 256 * flag = vx + vy
  | .sub => (result : Int) = ((vx : Int) - vy) % 256 ∧ (flag = 1 ↔ vy ≤ vx)
  | .shiftRight => vx = 2 * result + flag
  | .subFrom => (result : Int) = ((vy : Int) - vx) % 256 ∧ (flag = 1 ↔ vx ≤ vy)
  | .shiftLeft => 2 * vx = 256 * flag + result

/-- Byte subtraction is subtraction of integers modulo 256. -/
theorem sub_toNat (a b : Byte) : ((a - b).toNat : Int) = ((a.toNat : Int) - b.toNat) % 256 := by
  have first := a.isLt
  have second := b.isLt
  rw [BitVec.toNat_sub]
  omega

theorem no_borrow_iff (a b : Byte) : (if a < b then (0 : Byte) else 1).toNat = 1 ↔ b.toNat ≤ a.toNat := by
  by_cases borrow : a < b
  · rw [if_pos borrow]
    exact iff_of_false (by decide) (Nat.not_le.mpr (BitVec.lt_def.mp borrow))
  · rw [if_neg borrow]
    exact iff_of_true rfl (Nat.not_lt.mp fun less => borrow (BitVec.lt_def.mpr less))

theorem low_bit_toNat (value : Byte) : (value &&& 1).toNat = value.toNat % 2 := by
  rw [BitVec.toNat_and]
  exact Nat.and_one_is_mod _

theorem exact_of_bytes (kind : FlagInstruction) (vx vy : Byte) :
    Exact vx.toNat vy.toNat (kind.result vx vy).toNat (kind.flag vx vy).toNat kind ∧
      (kind.flag vx vy).toNat ≤ 1 := by
  have first := vx.isLt
  have second := vy.isLt
  cases kind with
  | add =>
    simp only [Exact, FlagInstruction.result, FlagInstruction.flag, BitVec.toNat_add]
    split
    · simp
      omega
    · simp
      omega
  | sub =>
    refine ⟨⟨sub_toNat vx vy, no_borrow_iff vx vy⟩, ?_⟩
    simp only [FlagInstruction.flag]
    split <;> simp
  | subFrom =>
    refine ⟨⟨sub_toNat vy vx, no_borrow_iff vy vx⟩, ?_⟩
    simp only [FlagInstruction.flag]
    split <;> simp
  | shiftRight =>
    simp only [Exact, FlagInstruction.result, FlagInstruction.flag, low_bit_toNat, BitVec.toNat_ushiftRight,
      Nat.shiftRight_eq_div_pow]
    omega
  | shiftLeft =>
    simp only [Exact, FlagInstruction.result, FlagInstruction.flag, BitVec.toNat_ushiftRight,
      BitVec.toNat_shiftLeft, Nat.shiftRight_eq_div_pow, Nat.shiftLeft_eq]
    omega

/-- Adding and then subtracting the same register. -/
theorem sub_after_add (w : World) (first second : DByte) (sameX : xOf second = xOf first)
    (sameY : yOf second = yOf first) (notFlag : xOf first ≠ vF) (apart : yOf first ≠ xOf first)
    (operand : yOf first ≠ vF) :
    ∃ added next, (perform8xy4 first).run w = .ok () added ∧ (perform8xy5 second).run added = .ok () next ∧
      next.vRegisters (xOf first) = w.vRegisters (xOf first) ∧ value next vF = 1 - value added vF := by
  obtain ⟨added, adds, sum, carry, kept⟩ := flagged_result .add w first notFlag
  obtain ⟨next, subtracts, difference, borrow, _⟩ := flagged_result .sub added second (sameX ▸ notFlag)
  rw [sameX, sameY, sum, kept _ apart operand] at difference borrow
  refine ⟨added, next, adds, subtracts, ?_, ?_⟩
  · exact difference.trans (BitVec.add_sub_cancel _ _)
  · have left := (w.vRegisters (xOf first)).isLt
    have right := (w.vRegisters (yOf first)).isLt
    unfold value
    rw [borrow, carry]
    simp only [FlagInstruction.flag, FlagInstruction.result, BitVec.lt_def, BitVec.toNat_add]
    split <;> split <;> simp <;> omega

/-- Every arithmetic instruction is exact on the operands before it, and
changes the destination and the flag alone. -/
theorem arithmetic_exact (w : World) (opcode : DByte) (notFlag : xOf opcode ≠ vF) :
    (∀ kind : FlagInstruction, ∃ next, (kind.perform opcode).run w = .ok () next ∧
      Exact (value w (xOf opcode)) (value w (yOf opcode)) (value next (xOf opcode)) (value next vF) kind ∧
      value next vF ≤ 1 ∧ ∀ r, r ≠ xOf opcode → r ≠ vF → next.vRegisters r = w.vRegisters r) ∧
    (∃ next, (perform7xkk opcode).run w = .ok () next ∧
      value next (xOf opcode) = (value w (xOf opcode) + opcode.toNat % 0x100) % 256 ∧
      ∀ r, r ≠ xOf opcode → next.vRegisters r = w.vRegisters r) ∧
    ∀ second, xOf second = xOf opcode → yOf second = yOf opcode → yOf opcode ≠ xOf opcode → yOf opcode ≠ vF →
      ∃ added next, (perform8xy4 opcode).run w = .ok () added ∧ (perform8xy5 second).run added = .ok () next ∧
        next.vRegisters (xOf opcode) = w.vRegisters (xOf opcode) ∧ value next vF = 1 - value added vF := by
  refine ⟨fun kind => ?_, ?_, ?_⟩
  · obtain ⟨next, performs, result, flag, kept⟩ := flagged_result kind w opcode notFlag
    obtain ⟨exact, bit⟩ := exact_of_bytes kind (w.vRegisters (xOf opcode)) (w.vRegisters (yOf opcode))
    refine ⟨next, performs, ?_, ?_, kept⟩
    · rw [value, value, value, value, result, flag]
      exact exact
    · rw [value, flag]
      exact bit
  · refine ⟨_, outcome_eq_ok.mp (perform7xkk_exact (.reading 0) w opcode), ?_, ?_⟩
    · rw [value, write_same, BitVec.toNat_add, kkOf, BitVec.toNat_setWidth]
      rfl
    · exact fun r other => write_elsewhere _ _ other
  · exact fun second sameX sameY => sub_after_add w opcode second sameX sameY notFlag

/-- 200 and 100 make 44 and a carry, and taking 100 away again borrows. -/
theorem arithmetic_exact_carry : ∃ w added next : World, value w 0 = 200 ∧ value w 1 = 100 ∧
    (perform8xy4 0x8014).run w = .ok () added ∧ value added 0 = 44 ∧ value added vF = 1 ∧
    (perform8xy5 0x8015).run added = .ok () next ∧ value next 0 = 200 ∧ value next vF = 0 := by
  let w := ((World.construct 0).writeV 0 200).writeV 1 100
  obtain ⟨each, _, inverse⟩ := arithmetic_exact w 0x8014 (by decide)
  obtain ⟨added, adds, exact, bit, _⟩ := each .add
  obtain ⟨same, next, again, subtracts, restored, borrow⟩ := inverse 0x8015 rfl rfl (by decide) (by decide)
  have both := adds.symm.trans again
  cases both
  have first : value w (xOf 0x8014) = 200 := rfl
  have second : value w (yOf 0x8014) = 100 := rfl
  have byte := (added.vRegisters 0).isLt
  rw [first, second] at exact
  have sum : value added 0 + 256 * value added vF = 300 := exact
  have carried : value added 0 = 44 ∧ value added vF = 1 := by
    unfold value at *
    omega
  refine ⟨w, added, next, rfl, rfl, adds, carried.1, carried.2, subtracts, ?_, ?_⟩
  · exact congrArg BitVec.toNat restored
  · rw [borrow, carried.2]

/-! ## The flag as destination -/

/-- `VF` holds the flag of the operands before, and no other register changed. -/
def FlagHolds (kind : FlagInstruction) (opcode : DByte) (w next : World) : Prop :=
  next.vRegisters vF = kind.flag (w.vRegisters vF) (w.vRegisters (yOf opcode)) ∧
    ∀ r, r ≠ vF → next.vRegisters r = w.vRegisters r

/-- The operands on which the flag is still there after the result. The two
subtractions write it last. -/
def Survives (vf vy : Nat) : FlagInstruction → Prop
  | .add => vf + vy = 0 ∨ vf + vy = 257
  | .sub | .subFrom => True
  | .shiftRight => vf % 2 = 0
  | .shiftLeft => vf < 128

/-- What is left in `VF` where it is the destination: the byte written last. -/
def left (vf vy : Byte) : FlagInstruction → Byte
  | .add => vf + vy
  | .sub => FlagInstruction.sub.flag vf vy
  | .shiftRight => (vf &&& 1) >>> 1
  | .subFrom => FlagInstruction.subFrom.flag vf vy
  | .shiftLeft => (vf >>> 7) <<< 1

theorem flagged_in_place (kind : FlagInstruction) (w : World) (opcode : DByte) (toFlag : xOf opcode = vF) :
    ∃ next, (kind.perform opcode).run w = .ok () next ∧
      next.vRegisters vF = left (w.vRegisters vF) (w.vRegisters (yOf opcode)) kind ∧
      ∀ r, r ≠ vF → next.vRegisters r = w.vRegisters r := by
  have exactly := kind.perform_exact (.reading 0) w opcode
  rw [toFlag] at exactly
  cases kind with
  | add | sub | subFrom =>
    refine ⟨_, outcome_eq_ok.mp exactly, write_same _ _ _, fun r other => ?_⟩
    rw [write_elsewhere _ _ other, write_elsewhere _ _ other]
  | shiftRight | shiftLeft =>
    refine ⟨_, outcome_eq_ok.mp exactly, ?_, fun r other => ?_⟩
    · rw [write_same, write_same]
      rfl
    · rw [write_elsewhere _ _ other, write_elsewhere _ _ other]

theorem left_eq_flag_iff (kind : FlagInstruction) (vf vy : Byte) :
    left vf vy kind = kind.flag vf vy ↔ Survives vf.toNat vy.toNat kind := by
  have first := vf.isLt
  have second := vy.isLt
  rw [← BitVec.toNat_inj]
  cases kind with
  | add =>
    simp only [left, FlagInstruction.flag, Survives, BitVec.toNat_add]
    split
    · simp
      omega
    · simp
      omega
  | sub | subFrom => exact iff_of_true rfl trivial
  | shiftRight =>
    simp only [left, FlagInstruction.flag, Survives, BitVec.toNat_ushiftRight, low_bit_toNat,
      Nat.shiftRight_eq_div_pow]
    omega
  | shiftLeft =>
    simp only [left, FlagInstruction.flag, Survives, BitVec.toNat_ushiftRight, BitVec.toNat_shiftLeft,
      Nat.shiftRight_eq_div_pow, Nat.shiftLeft_eq]
    omega

/-- With `VF` as destination the flag survives exactly on these operands. -/
theorem flag_survives_iff (kind : FlagInstruction) (w : World) (opcode : DByte) (toFlag : xOf opcode = vF) :
    ∃ next, (kind.perform opcode).run w = .ok () next ∧
      (FlagHolds kind opcode w next ↔ Survives (value w vF) (value w (yOf opcode)) kind) := by
  obtain ⟨next, performs, written, kept⟩ := flagged_in_place kind w opcode toFlag
  refine ⟨next, performs, ?_⟩
  rw [FlagHolds, written, left_eq_flag_iff]
  exact and_iff_left kept

/-- Three taken from two in `VF`: the borrow is there, not the difference. -/
theorem flag_survives_iff_borrow : ∃ w next : World, value w vF = 2 ∧ value w 0 = 3 ∧
    (perform8xy5 0x8F05).run w = .ok () next ∧ FlagHolds .sub 0x8F05 w next ∧ next.vRegisters vF = 0 := by
  let w := ((World.construct 0).writeV vF 2).writeV 0 3
  obtain ⟨next, performs, survives⟩ := flag_survives_iff .sub w 0x8F05 (by decide)
  have holds := survives.mpr trivial
  exact ⟨w, next, rfl, rfl, performs, holds, holds.1.trans (by decide)⟩

/-- `8F04` with one in `VF` and zero in `V0`: no carry, and the sum stays. -/
theorem sum_overwrites_flag :
    ¬ ∀ (kind : FlagInstruction) (w : World) (opcode : DByte), xOf opcode = vF →
      ∃ next, (kind.perform opcode).run w = .ok () next ∧ FlagHolds kind opcode w next := by
  intro always
  obtain ⟨next, performs, holds⟩ := always .add ((World.construct 0).writeV vF 1) 0x8F04 (by decide)
  obtain ⟨same, again, written, _⟩ := flagged_in_place .add ((World.construct 0).writeV vF 1) 0x8F04 (by decide)
  rw [performs] at again
  cases again
  exact absurd (written.symm.trans holds.1) (by decide)

end Chip8Emulator.Arithmetic
