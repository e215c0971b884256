import Chip8Emulator.Keypad

/-! Where a tick leads, by opcode and in numbers: the address is never wrapped,
since a tick that completes fetched a whole instruction below 4096. The two
members of a pair of skips with the same operands decide the other way. -/
namespace Chip8Emulator.ControlFlow
open Foundations.Memory Foundations.Runs Foundations.WordDigits FaultCharacterisation Keypad

/-- The address after the opcode at the program counter. -/
def target (w : World) : Nat :=
  let opcode := w.opcodeAt.toNat
  let next := w.programCounter.toNat
  let vx := (w.vRegisters (xOf w.opcodeAt)).toNat
  let vy := (w.vRegisters (yOf w.opcodeAt)).toNat
  if opcode = 0x00EE then
    256 * (readAt w.ram ((w.stackPointer.toNat + 255) % 256)).toNat + (readAt w.ram w.stackPointer.toNat).toNat
  else
    match opcode / 0x1000 with
    | 0x1 | 0x2 => opcode % 0x1000
    | 0x3 => next + if vx = opcode % 0x100 then 4 else 2
    | 0x4 => next + if vx ≠ opcode % 0x100 then 4 else 2
    | 0x5 => next + if vx = vy then 4 else 2
    | 0x9 => next + if vx ≠ vy then 4 else 2
    | 0xB => opcode % 0x1000 + (w.vRegisters v0).toNat
    | 0xE =>
      if opcode % 0x100 = 0x9E then next + if readAt w.interestedKeysStatuses vx = 1 then 4 else 2
      else next + if readAt w.interestedKeysStatuses vx = 0 then 4 else 2
    | _ => next + 2

theorem not_return {opcode : DByte} (lead : opcode.toNat / 0x1000 ≠ 0) : opcode.toNat ≠ 0x00EE := by
  omega

theorem popped_toNat (w : World) : w.poppedAddress.toNat =
    256 * (readAt w.ram ((w.stackPointer.toNat + 255) % 256)).toNat +
      (readAt w.ram w.stackPointer.toNat).toNat := by
  have below : (w.stackPointer - 1).toNat = (w.stackPointer.toNat + 255) % 256 := by
    rw [BitVec.toNat_sub, Nat.add_comm]
    rfl
  rw [World.poppedAddress, append_toNat, below, Nat.mul_comm]

theorem offset_target_toNat (w : World) (opcode : DByte) :
    (w.offsetTarget (nnnOf opcode)).toNat = opcode.toNat % 0x1000 + (w.vRegisters 0).toNat := by
  have base := nnn_toNat opcode
  have small := (w.vRegisters 0).isLt
  rw [World.offsetTarget, BitVec.toNat_add, base, widened_toNat]
  omega

theorem eq_kk_iff (value : Byte) (opcode : DByte) : value = kkOf opcode ↔ value.toNat = opcode.toNat % 0x100 := by
  rw [← BitVec.toNat_inj, kkOf, BitVec.toNat_setWidth]

theorem skip_leads {w : World} (fits : w.programCounter.toNat ≤ 4094) {condition test : Prop} [Decidable condition]
    [Decidable test] (same : condition ↔ test) :
    (w.fetched.skipWhen condition).programCounter.toNat = w.programCounter.toNat + if test then 4 else 2 := by
  rw [skip_target fits, if_congr same rfl rfl]

/-- A completed tick leads to the target. -/
theorem target_of_tick (ticked : Ticked inputs w instruction next) : next.programCounter.toNat = target w := by
  have encoded := decode_iff.mp ticked.decoded
  have straight (lead : w.opcodeAt.toNat / 0x1000 ∉ [0x0, 0x1, 0x2, 0x3, 0x4, 0x5, 0x9, 0xB, 0xE]) :
      (w.programCounter + 2).toNat = target w := by
    simp only [List.mem_cons, List.not_mem_nil, or_false, not_or] at lead
    rw [next_word ticked.fits]
    unfold target
    simp only [not_return lead.1, ↓reduceIte]
    split <;> simp_all
  rw [ticked.programCounter]
  cases instruction with
  | ret =>
    have whole : w.opcodeAt.toNat = 0x00EE := encoded
    simp only [target, whole, ↓reduceIte]
    exact popped_toNat w
  | nop | clear =>
    refine (next_word ticked.fits).trans ?_
    simp only [Instruction.Encoding] at encoded
    simp [target, encoded]
  | jump address | call address =>
    obtain ⟨lead, rfl⟩ := encoded
    refine (nnn_toNat _).trans ?_
    simp [target, lead, not_return]
  | jumpOffset base =>
    obtain ⟨lead, rfl⟩ := encoded
    refine (offset_target_toNat w _).trans ?_
    simp [target, lead, not_return]
  | skipIfByte x kk =>
    obtain ⟨lead, rfl, rfl⟩ := encoded
    refine (skip_leads ticked.fits (eq_kk_iff _ _)).trans ?_
    simp only [target, lead, not_return, ne_eq, OfNat.ofNat_ne_zero, not_false_eq_true, ↓reduceIte]
    rfl
  | skipUnlessByte x kk =>
    obtain ⟨lead, rfl, rfl⟩ := encoded
    refine (skip_leads ticked.fits (not_congr (eq_kk_iff _ _))).trans ?_
    simp only [target, lead, not_return, ne_eq, OfNat.ofNat_ne_zero, not_false_eq_true, ↓reduceIte]
    rfl
  | skipIfSame x y =>
    obtain ⟨lead, rfl, rfl⟩ := encoded
    refine (skip_leads ticked.fits BitVec.toNat_inj.symm).trans ?_
    simp only [target, lead, not_return, ne_eq, OfNat.ofNat_ne_zero, not_false_eq_true, ↓reduceIte]
    rfl
  | skipUnlessSame x y =>
    obtain ⟨lead, rfl, rfl⟩ := encoded
    refine (skip_leads ticked.fits (not_congr BitVec.toNat_inj.symm)).trans ?_
    simp only [target, lead, not_return, ne_eq, OfNat.ofNat_ne_zero, not_false_eq_true, ↓reduceIte]
    rfl
  | skipIfKey x | skipUnlessKey x =>
    obtain ⟨lead, low, rfl⟩ := encoded
    refine (skip_target ticked.fits _).trans ?_
    simp only [target, lead, low, not_return, ne_eq, OfNat.ofNat_ne_zero, not_false_eq_true, ↓reduceIte]
    rfl
  | setByte x kk | addByte x kk | random x kk | setIndex kk =>
    exact straight (by simp [encoded.1])
  | _ => exact straight (by simp [encoded.1])

/-! ## Pairs of skips -/

/-- A skip and its opposite with the same operands. -/
def Opposite (first second : DByte) : Prop :=
  (first.toNat / 0x1000 = 0x3 ∧ second.toNat / 0x1000 = 0x4 ∧ first.toNat % 0x1000 = second.toNat % 0x1000) ∨
    (first.toNat / 0x1000 = 0x5 ∧ second.toNat / 0x1000 = 0x9 ∧
      first.toNat / 0x10 % 0x100 = second.toNat / 0x10 % 0x100)

/-- The two key skips on one register. -/
def OppositeKeys (first second : DByte) : Prop :=
  Pattern first 0xE 0x9E ∧ Pattern second 0xE 0xA1 ∧ xOf first = xOf second

/-- With the same registers one of a pair skips and the other does not. -/
theorem opposite_targets (opposite : Opposite w.opcodeAt v.opcodeAt) (registers : v.vRegisters = w.vRegisters) :
    target w = w.programCounter.toNat + 4 ↔ ¬ target v = v.programCounter.toNat + 4 := by
  rcases opposite with ⟨lead, other, operands⟩ | ⟨lead, other, operands⟩
  · have sameX : xOf v.opcodeAt = xOf w.opcodeAt := by
      apply Fin.ext
      simp only [xOf]
      omega
    have sameByte : v.opcodeAt.toNat % 0x100 = w.opcodeAt.toNat % 0x100 := by omega
    have whole := not_return (lead.trans_ne (by decide))
    have otherWhole := not_return (other.trans_ne (by decide))
    simp only [target, lead, other, whole, otherWhole, ↓reduceIte, registers, sameX, sameByte]
    split <;> simp_all
  · have sameX : xOf v.opcodeAt = xOf w.opcodeAt := by
      apply Fin.ext
      simp only [xOf]
      omega
    have sameY : yOf v.opcodeAt = yOf w.opcodeAt := by
      apply Fin.ext
      simp only [yOf]
      omega
    have whole := not_return (lead.trans_ne (by decide))
    have otherWhole := not_return (other.trans_ne (by decide))
    simp only [target, lead, other, whole, otherWhole, ↓reduceIte, registers, sameX, sameY]
    split <;> simp_all

/-- Where every status is zero or one, so do the two key skips. -/
theorem opposite_key_targets (opposite : OppositeKeys w.opcodeAt v.opcodeAt)
    (registers : v.vRegisters = w.vRegisters) (statuses : v.interestedKeysStatuses = w.interestedKeysStatuses)
    (bits : ∀ i, readAt w.interestedKeysStatuses i = 0 ∨ readAt w.interestedKeysStatuses i = 1) :
    target w = w.programCounter.toNat + 4 ↔ ¬ target v = v.programCounter.toNat + 4 := by
  obtain ⟨⟨lead, low⟩, ⟨other, otherLow⟩, sameX⟩ := opposite
  have whole := not_return (lead.trans_ne (by decide))
  have otherWhole := not_return (other.trans_ne (by decide))
  simp only [target, lead, low, other, otherLow, whole, otherWhole, ↓reduceIte, registers, statuses, ← sameX]
  rcases bits (w.vRegisters (xOf w.opcodeAt)).toNat with bit | bit <;> simp [bit]

/-- A completed tick leads to the target of its opcode; of two opposite skips
with the same operands exactly one skips, of the key skips in every reachable
state. -/
theorem control_flow {keys : QtKeys} {w next : World} {inputs : TickInputs}
    (stepped : step keys w (.tick inputs) = some next) :
    next.programCounter.toNat = target w ∧
    ∀ v other after, step keys v (.tick other) = some after → v.vRegisters = w.vRegisters →
      v.interestedKeysStatuses = w.interestedKeysStatuses →
      Opposite w.opcodeAt v.opcodeAt ∨ (OppositeKeys w.opcodeAt v.opcodeAt ∧
        ∃ now events, Run (step keys) (fun _ _ => True) (.construct now) events w) →
      (next.programCounter.toNat = w.programCounter.toNat + 4 ↔
        ¬ after.programCounter.toNat = v.programCounter.toNat + 4) := by
  obtain ⟨instruction, ticked⟩ := step_tick_iff.mp stepped
  refine ⟨target_of_tick ticked, ?_⟩
  intro v other after otherStepped registers statuses pair
  obtain ⟨opposite, otherTicked⟩ := step_tick_iff.mp otherStepped
  rw [target_of_tick ticked, target_of_tick otherTicked]
  rcases pair with skips | ⟨skips, now, events, run⟩
  · exact opposite_targets skips registers
  · refine opposite_key_targets skips registers statuses fun i => ?_
    unfold readAt
    split
    · rw [(mirrors_of_run run).statuses]
      split
      · exact .inr rfl
      · exact .inl rfl
    · exact .inl rfl

/-- A skip that is taken. -/
theorem control_flow_skip : ∃ w next : World, w.opcodeAt = 0x3000 ∧
    next.programCounter.toNat = target w ∧ target w = 0x204 := by
  obtain ⟨next, run, _⟩ := run_of_test (step .latin) (fun _ _ => True)
    ((World.construct 0).loaded [0x30, 0x00]) [.tick (.reading 0)] (fun _ => true) (by decide)
  have stepped := (run_single.mp run).2
  exact ⟨_, next, by decide, (control_flow stepped).1, by decide⟩

end Chip8Emulator.ControlFlow
