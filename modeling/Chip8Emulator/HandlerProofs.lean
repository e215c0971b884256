import Chip8Emulator.Operands

/-! Each handler of `chip8_pc.cpp` computes the effect of its instruction, and
the ones that can fault do so exactly where the instruction set says. Accesses
first, then one lemma for each handler. -/
namespace Chip8Emulator
open Foundations.Loops Foundations.Memory Foundations.WordDigits

/-! ## Accesses -/

theorem memory_at_of_lt (memory : Fin 4096 → Byte) (bound : address < 4096) :
    memoryAt memory address = .ok (readAt memory address) := by
  rw [memoryAt, dif_pos bound, read_at_of_lt memory bound]

theorem memory_at_of_ge (memory : Fin 4096 → Byte) (outside : 4096 ≤ address) :
    memoryAt memory address = .error .ramOutOfRange :=
  dif_neg (Nat.not_lt.mpr outside)

theorem run_ramAt (w : World) (bound : address < 4096) :
    (ramAt address).run w = .ok (readAt w.ram address) w := by
  simp [ramAt, memory_at_of_lt w.ram bound]

theorem run_ramAt_outside (w : World) (outside : 4096 ≤ address) :
    (ramAt address).run w = .error .ramOutOfRange w := by
  simp [ramAt, memory_at_of_ge w.ram outside]

theorem run_setRamAt (w : World) (value : Byte) (bound : address < 4096) :
    (setRamAt address value).run w =
      .ok () { w with ram := Function.update w.ram ⟨address, bound⟩ value } := by
  simp [setRamAt, bound]

theorem run_setRamAt_outside (w : World) (value : Byte) (outside : 4096 ≤ address) :
    (setRamAt address value).run w = .error .ramOutOfRange w := by
  simp [setRamAt, Nat.not_lt.mpr outside]

@[simp] theorem run_readVRegister (w : World) (x : Fin 16) :
    (readVRegister x.val).run w = .ok (w.vRegisters x) w := by
  rw [readVRegister, dif_pos x.isLt]
  rfl

@[simp] theorem run_setVRegister (w : World) (x : Fin 16) (value : Byte) :
    (setVRegister x.val value).run w = .ok () (w.writeV x value) := by
  simp [setVRegister, emit, World.writeV]

@[simp] theorem run_setVRegister_flag (w : World) (value : Byte) :
    (setVRegister 0xF value).run w = .ok () (w.writeV 15 value) :=
  run_setVRegister w 15 value

@[simp] theorem run_emit (w : World) (signal : Signal) :
    (emit signal).run w = .ok () { w with emitted := signal :: w.emitted } := rfl

theorem run_keyStatus (w : World) (bound : i < 16) :
    (keyStatus i).run w = .ok (w.interestedKeysStatuses ⟨i, bound⟩) w := by
  rw [keyStatus, dif_pos bound]
  rfl

theorem run_keyStatus_outside (w : World) (outside : 16 ≤ i) :
    (keyStatus i).run w = .error .keyStatusOverrun w := by
  simp [keyStatus, Nat.not_lt.mpr outside]

/-- An extracted digit keeps its value as a word. -/
@[simp] theorem register_mod (x : Fin 16) : x.val % 65536 = x.val := by omega
@[simp] theorem rows_mod (opcode : DByte) : nOf opcode % 65536 = nOf opcode := by
  unfold nOf
  omega

/-! ## Handlers that always complete -/

@[simp] theorem run_skip_if (w : World) (condition : Prop) [Decidable condition] :
    (if condition then skipNext else pure ()).run w = .ok () (w.skipWhen condition) := by
  by_cases holds : condition <;> simp [holds, skipNext, World.skipWhen]

@[simp] theorem run_skip_unless (w : World) (condition : Prop) [Decidable condition] :
    (if condition then pure () else skipNext).run w = .ok () (w.skipWhen ¬condition) := by
  by_cases holds : condition <;> simp [holds, skipNext, World.skipWhen]

/-- Bytes widened to words are equal as bytes. -/
@[simp] theorem widened_eq_iff (a b : Byte) : a.setWidth 16 = b.setWidth 16 ↔ a = b := by
  constructor
  · intro same
    have values := congrArg BitVec.toNat same
    simp only [BitVec.toNat_setWidth] at values
    exact BitVec.eq_of_toNat_eq (by omega)
  · rintro rfl
    rfl

/-- A byte widened to a word keeps its value. -/
theorem widened_toNat (a : Byte) : (a.setWidth 16).toNat = a.toNat := by
  rw [BitVec.toNat_setWidth]
  omega

/-- A sum of widened bytes is exact. -/
theorem widened_sum (a b : Byte) : (a.setWidth 16 + b.setWidth 16).toNat = a.toNat + b.toNat := by
  rw [BitVec.toNat_add, widened_toNat, widened_toNat]
  omega

/-- Cutting the widened sum gives the byte sum. -/
theorem widened_sum_cut (a b : Byte) : (a.setWidth 16 + b.setWidth 16).setWidth 8 = a + b := by
  apply BitVec.eq_of_toNat_eq
  rw [BitVec.toNat_setWidth, widened_sum, BitVec.toNat_add]

-- Every handler is compared with the effect of its instruction.
attribute [local simp] execute

section Completing
variable (inputs : TickInputs) (w : World) (opcode : DByte)

theorem perform00E0_exact :
    outcome ((perform00E0 opcode).run w) = execute inputs w .clear := rfl

theorem perform1nnn_exact :
    outcome ((perform1nnn opcode).run w) = execute inputs w (.jump (nnnOf opcode)) := by
  simp [perform1nnn]

theorem perform3xkk_exact :
    outcome ((perform3xkk opcode).run w) = execute inputs w (.skipIfByte (xOf opcode) (kkOf opcode)) := by
  simp [perform3xkk]

theorem perform4xkk_exact :
    outcome ((perform4xkk opcode).run w) =
      execute inputs w (.skipUnlessByte (xOf opcode) (kkOf opcode)) := by
  simp [perform4xkk]

theorem perform5xy0_exact :
    outcome ((perform5xy0 opcode).run w) = execute inputs w (.skipIfSame (xOf opcode) (yOf opcode)) := by
  simp [perform5xy0]

theorem perform9xy0_exact :
    outcome ((perform9xy0 opcode).run w) =
      execute inputs w (.skipUnlessSame (xOf opcode) (yOf opcode)) := by
  simp [perform9xy0]

theorem perform6xkk_exact :
    outcome ((perform6xkk opcode).run w) = execute inputs w (.setByte (xOf opcode) (kkOf opcode)) := by
  simp [perform6xkk]

theorem perform7xkk_exact :
    outcome ((perform7xkk opcode).run w) = execute inputs w (.addByte (xOf opcode) (kkOf opcode)) := by
  simp [perform7xkk, widened_sum_cut]

theorem perform8xy0_exact :
    outcome ((perform8xy0 opcode).run w) = execute inputs w (.copy (xOf opcode) (yOf opcode)) := by
  simp [perform8xy0]

theorem perform8xy1_exact :
    outcome ((perform8xy1 opcode).run w) = execute inputs w (.or (xOf opcode) (yOf opcode)) := by
  simp [perform8xy1]

theorem perform8xy2_exact :
    outcome ((perform8xy2 opcode).run w) = execute inputs w (.and (xOf opcode) (yOf opcode)) := by
  simp [perform8xy2]

theorem perform8xy3_exact :
    outcome ((perform8xy3 opcode).run w) = execute inputs w (.xor (xOf opcode) (yOf opcode)) := by
  simp [perform8xy3]

theorem perform8xy4_exact :
    outcome ((perform8xy4 opcode).run w) = execute inputs w (.add (xOf opcode) (yOf opcode)) := by
  have overflow : (255#16 < (w.vRegisters (xOf opcode)).setWidth 16 + (w.vRegisters (yOf opcode)).setWidth 16) ↔
      255 < (w.vRegisters (xOf opcode)).toNat + (w.vRegisters (yOf opcode)).toNat := by
    rw [BitVec.lt_def, widened_sum]
    rfl
  by_cases carry : 255 < (w.vRegisters (xOf opcode)).toNat + (w.vRegisters (yOf opcode)).toNat <;>
    simp [perform8xy4, overflow, carry, widened_sum_cut]

theorem perform8xy5_exact :
    outcome ((perform8xy5 opcode).run w) = execute inputs w (.sub (xOf opcode) (yOf opcode)) := by
  by_cases borrow : w.vRegisters (xOf opcode) < w.vRegisters (yOf opcode) <;>
    simp [perform8xy5, borrow]

theorem perform8xy6_exact :
    outcome ((perform8xy6 opcode).run w) = execute inputs w (.shiftRight (xOf opcode)) := by
  simp [perform8xy6]

theorem perform8xy7_exact :
    outcome ((perform8xy7 opcode).run w) = execute inputs w (.subFrom (xOf opcode) (yOf opcode)) := by
  by_cases borrow : w.vRegisters (yOf opcode) < w.vRegisters (xOf opcode) <;>
    simp [perform8xy7, borrow]

/-- Masking the leading bit before shifting it down changes nothing. -/
theorem leading_bit (value : Byte) : (value &&& 128#8) >>> 7 = value >>> 7 := by
  apply BitVec.eq_of_getLsbD_eq
  intro i bound
  simp only [BitVec.getLsbD_ushiftRight, BitVec.getLsbD_and]
  rcases Nat.eq_zero_or_pos i with rfl | positive
  · simp
  · simp [BitVec.getLsbD_of_ge value (7 + i) (by omega)]

theorem perform8xyE_exact :
    outcome ((perform8xyE opcode).run w) = execute inputs w (.shiftLeft (xOf opcode)) := by
  simp [perform8xyE, leading_bit]

theorem performAnnn_exact :
    outcome ((performAnnn opcode).run w) = execute inputs w (.setIndex (nnnOf opcode)) := by
  simp [performAnnn, World.writeIndex]

theorem performBnnn_exact :
    outcome ((performBnnn opcode).run w) = execute inputs w (.jumpOffset (nnnOf opcode)) := by
  have v0 : ∀ w : World, (readVRegister 0).run w = .ok (w.vRegisters 0) w := fun w => run_readVRegister w 0
  simp [performBnnn, World.offsetTarget, v0]

theorem performCxkk_exact :
    outcome ((performCxkk inputs.rand opcode).run w) =
      execute inputs w (.random (xOf opcode) (kkOf opcode)) := by
  simp [performCxkk]

theorem performFx07_exact :
    outcome ((performFx07 opcode).run w) = execute inputs w (.readDelay (xOf opcode)) := by
  simp [performFx07]

theorem performFx15_exact :
    outcome ((performFx15 opcode).run w) = execute inputs w (.setDelay (xOf opcode)) := by
  simp [performFx15]

theorem performFx1E_exact :
    outcome ((performFx1E opcode).run w) = execute inputs w (.addIndex (xOf opcode)) := by
  simp [performFx1E, World.writeIndex]

theorem performFx29_exact :
    outcome ((performFx29 opcode).run w) = execute inputs w (.glyph (xOf opcode)) := by
  simp [performFx29, fonts, Nat.mul_comm]

end Completing

/-! ## The stack -/

section Stack
variable (inputs : TickInputs) (w : World) (opcode : DByte)

theorem run_ramAt_stack (pointer : Byte) :
    (ramAt pointer.toNat).run w = .ok (readAt w.ram pointer.toNat) w :=
  run_ramAt w (by omega)

theorem run_setRamAt_stack (pointer value : Byte) :
    (setRamAt pointer.toNat value).run w =
      .ok () { w with ram := Function.update w.ram (stackCell pointer) value } :=
  run_setRamAt w value (by omega)

theorem perform00EE_exact :
    outcome ((perform00EE opcode).run w) = execute inputs w .ret := by
  have pointer : w.stackPointer - 1#8 - 1#8 = w.stackPointer - 2#8 := by bv_omega
  simp [perform00EE, run_ramAt_stack, World.poppedAddress, pointer, joined_bytes,
    -BitVec.toNat_sub]

theorem pushed_high (address : DByte) :
    ((address &&& 3840#16) >>> 8).setWidth 8 = highByte address := by
  apply BitVec.eq_of_toNat_eq
  rw [BitVec.toNat_setWidth, middle_digit, highByte, BitVec.toNat_ofNat]

theorem pushed_low (address : DByte) : address.setWidth 8 &&& 255#8 = lowByte address :=
  BitVec.and_allOnes

theorem perform2nnn_exact :
    outcome ((perform2nnn opcode).run w) = execute inputs w (.call (nnnOf opcode)) := by
  have pointer : w.stackPointer + 1#8 + 1#8 = w.stackPointer + 2#8 := by bv_omega
  simp [perform2nnn, run_setRamAt_stack, World.pushAndJump, pointer, pushed_high, pushed_low,
    nnnOf, -BitVec.toNat_add]

end Stack

/-! ## Timer and monitor -/

section Timer
variable (w : World)

@[simp] theorem run_startCpu : startCpu.run w = .ok () w.startTimer := by
  by_cases missing : w.mainProcessTimer = none <;> simp [startCpu, World.startTimer, missing]

@[simp] theorem run_stopCpu : stopCpu.run w = .ok () w.stopTimer := by
  cases timer : w.mainProcessTimer with
  | none =>
    simp [stopCpu, World.stopTimer, timer]
    rw [← timer]
  | some active => simp [stopCpu, World.stopTimer, timer]

@[simp] theorem run_sendSignalToMonitor (checkPeriod : CheckPeriod) (readings : SteadyReadings) :
    (sendSignalToMonitor checkPeriod readings).run w = .ok () (w.refresh checkPeriod readings) := by
  by_cases shown : milliseconds (readings.now - w.lastUpdated.getD readings.first) > 100 ∨ checkPeriod = .no
  · simp [sendSignalToMonitor, World.refresh, World.Shows, shown]
  · simp [sendSignalToMonitor, World.refresh, World.Shows, shown]

@[simp] theorem run_updateDelayTimer (now : Time) :
    (updateDelayTimer now).run w = .ok () { w with delayTimer := w.delayAfter now } := by
  by_cases expired : sixtieths (now - w.lastTime) > w.delayTimer
  · simp [updateDelayTimer, World.delayAfter, expired]
  · simp [updateDelayTimer, World.delayAfter, expired]

end Timer

end Chip8Emulator
