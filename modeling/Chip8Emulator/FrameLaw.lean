import Chip8Emulator.FaultCharacterisation
import Chip8Emulator.InstructionFrames
import Chip8Emulator.Foundations.Runs

/-! The frame law of a tick, by opcode: each component of the machine changes
under its named writers alone, and RAM and the registers only in the places
the opcode and the pointers name. -/
namespace Chip8Emulator.FrameLaw
open Foundations.Runs FaultCharacterisation

/-- The opcode may write the register. A wait writes the one its latch names. -/
def WritesRegister (w : World) (opcode : DByte) (r : Fin 16) : Prop :=
  (opcode.toNat / 0x1000 ∈ [0x6, 0x7, 0xC] ∧ r = xOf opcode) ∨
    (opcode.toNat / 0x1000 = 0x8 ∧ opcode.toNat % 0x10 ∈ [0x0, 0x1, 0x2, 0x3] ∧ r = xOf opcode) ∨
    (opcode.toNat / 0x1000 = 0x8 ∧ opcode.toNat % 0x10 ∈ [0x4, 0x5, 0x6, 0x7, 0xE] ∧
      (r = xOf opcode ∨ r = vF)) ∨
    (Pattern opcode 0xF 0x07 ∧ r = xOf opcode) ∨
    (Pattern opcode 0xF 0x65 ∧ r ≤ xOf opcode) ∨
    (Pattern opcode 0xF 0x0A ∧ r = xOf w.lastOpcode)

/-- The opcode may write the address. A push wraps with the stack pointer. -/
def WritesAddress (w : World) (opcode : DByte) (address : Nat) : Prop :=
  (opcode.toNat / 0x1000 = 0x2 ∧
      (address = (w.stackPointer.toNat + 1) % 256 ∨ address = (w.stackPointer.toNat + 2) % 256)) ∨
    (Pattern opcode 0xF 0x33 ∧ w.indexRegister.toNat ≤ address ∧ address ≤ w.indexRegister.toNat + 2) ∨
    (Pattern opcode 0xF 0x55 ∧ w.indexRegister.toNat ≤ address ∧
      address ≤ w.indexRegister.toNat + (xOf opcode).val)

/-- Every change between two worlds is one the opcode is a writer of. -/
structure OnlyWriters (w : World) (opcode : DByte) (next : World) : Prop where
  ram : ∀ cell, next.ram cell ≠ w.ram cell → WritesAddress w opcode cell.val
  frameBuffer : next.frameBuffer ≠ w.frameBuffer → opcode.toNat = 0x00E0 ∨ opcode.toNat / 0x1000 = 0xD
  stackPointer : next.stackPointer ≠ w.stackPointer → opcode.toNat / 0x1000 = 0x2 ∨ opcode.toNat = 0x00EE
  indexRegister : next.indexRegister ≠ w.indexRegister →
    opcode.toNat / 0x1000 = 0xA ∨ Pattern opcode 0xF 0x1E ∨ Pattern opcode 0xF 0x29
  vRegisters : ∀ r, next.vRegisters r ≠ w.vRegisters r → WritesRegister w opcode r
  delayTimer : w.delayTimer < next.delayTimer → Pattern opcode 0xF 0x15
  keyStatuses : next.interestedKeysStatuses = w.interestedKeysStatuses
  lastActiveKey : next.lastActiveKey = w.lastActiveKey
  latch : next.lastOpcode ≠ w.lastOpcode → Pattern opcode 0xF 0x0A

/-- A store covers the addresses from the index register on. -/
private theorem offsets_within (start count : Nat)
    (member : address ∈ (List.range count).map (start + ·)) : start ≤ address ∧ address < start + count := by
  simp only [List.mem_map, List.mem_range] at member
  obtain ⟨offset, within, rfl⟩ := member
  omega

theorem written_addresses (decoded : decode opcode = some instruction)
    (written : address ∈ instruction.written w.fetched) : WritesAddress w opcode address := by
  have encoded := decode_iff.mp decoded
  cases instruction with
  | call target =>
    have pushed : address ∈ [(w.stackPointer + 1).toNat, (w.stackPointer + 2).toNat] := written
    simp only [List.mem_cons, List.not_mem_nil, or_false, BitVec.toNat_add] at pushed
    exact .inl ⟨encoded.1, pushed⟩
  | bcd x =>
    obtain ⟨lead, low, _⟩ := encoded
    obtain ⟨above, below⟩ := offsets_within w.indexRegister.toNat 3 written
    exact .inr (.inl ⟨⟨lead, low⟩, above, by omega⟩)
  | save x =>
    obtain ⟨lead, low, rfl⟩ := encoded
    obtain ⟨above, below⟩ := offsets_within w.indexRegister.toNat ((xOf opcode).val + 1) written
    exact .inr (.inr ⟨⟨lead, low⟩, above, by omega⟩)
  | _ => exact absurd written List.not_mem_nil

theorem written_registers (decoded : decode opcode = some instruction)
    (written : r ∈ instruction.registersWritten w.fetched) : WritesRegister w opcode r := by
  have encoded := decode_iff.mp decoded
  cases instruction with
  | setByte x | addByte x | random x =>
    obtain ⟨lead, rfl, _⟩ := encoded
    exact .inl ⟨by simp [lead], List.eq_of_mem_singleton written⟩
  | copy x | or x | and x | xor x =>
    obtain ⟨lead, last, rfl, _⟩ := encoded
    exact .inr (.inl ⟨lead, by simp [last], List.eq_of_mem_singleton written⟩)
  | add x | sub x | subFrom x | shiftRight x | shiftLeft x =>
    obtain ⟨lead, last, rfl, _⟩ := encoded
    have either : r = xOf opcode ∨ r = vF := by simpa [Instruction.registersWritten] using written
    exact .inr (.inr (.inl ⟨lead, by simp [last], either⟩))
  | readDelay x =>
    obtain ⟨lead, low, rfl⟩ := encoded
    exact .inr (.inr (.inr (.inl ⟨⟨lead, low⟩, List.eq_of_mem_singleton written⟩)))
  | restore x =>
    obtain ⟨lead, low, rfl⟩ := encoded
    have upTo : r ≤ xOf opcode := by simpa [Instruction.registersWritten] using written
    exact .inr (.inr (.inr (.inr (.inl ⟨⟨lead, low⟩, upTo⟩))))
  | waitKey x =>
    obtain ⟨lead, low, rfl⟩ := encoded
    rw [Instruction.registersWritten] at written
    split at written
    · contradiction
    · exact .inr (.inr (.inr (.inr (.inr ⟨⟨lead, low⟩, List.eq_of_mem_singleton written⟩))))
  | _ => exact absurd written List.not_mem_nil

/-- A tick that completes changes nothing its opcode is not a writer of. -/
theorem only_writers_change {keys : QtKeys} {w next : World} {inputs : TickInputs}
    (stepped : step keys w (.tick inputs) = some next) : OnlyWriters w w.opcodeAt next := by
  obtain ⟨instruction, ticked⟩ := step_tick_iff.mp stepped
  have encoded := decode_iff.mp ticked.decoded
  constructor
  case ram =>
    intro cell changed
    apply written_addresses ticked.decoded
    by_contra elsewhere
    rw [ticked.ram] at changed
    exact changed (ram_elsewhere w.fetched instruction cell elsewhere)
  case frameBuffer =>
    rw [ticked.frameBuffer]
    intro changed
    cases instruction with
    | clear => exact .inl encoded
    | draw x y n => exact .inr encoded.1
    | _ => exact absurd rfl changed
  case stackPointer =>
    rw [ticked.stackPointer]
    intro changed
    cases instruction with
    | call target => exact .inl encoded.1
    | ret => exact .inr encoded
    | _ => exact absurd rfl changed
  case indexRegister =>
    rw [ticked.indexRegister]
    intro changed
    cases instruction with
    | setIndex value => exact .inl encoded.1
    | addIndex x => exact .inr (.inl ⟨encoded.1, encoded.2.1⟩)
    | glyph x => exact .inr (.inr ⟨encoded.1, encoded.2.1⟩)
    | _ => exact absurd rfl changed
  case vRegisters =>
    intro r changed
    apply written_registers ticked.decoded
    by_contra elsewhere
    exact changed (ticked.registers_elsewhere elsewhere)
  case delayTimer =>
    intro increased
    have after := ticked.delayTimer
    rw [BitVec.lt_def] at increased
    cases instruction with
    | setDelay x => exact ⟨encoded.1, encoded.2.1⟩
    | _ =>
      change next.delayTimer.toNat = w.delayTimer.toNat - _ at after
      omega
  case keyStatuses => exact ticked.keyStatuses
  case lastActiveKey => exact ticked.lastActiveKey
  case latch =>
    rw [ticked.latch]
    intro changed
    cases instruction with
    | waitKey x => exact ⟨encoded.1, encoded.2.1⟩
    | _ => exact absurd rfl changed

/-- `6012` on a freshly loaded machine. -/
theorem only_writers_change_set_byte : ∃ w next : World,
    w.opcodeAt = 0x6012 ∧ next.vRegisters 0 = 0x12 ∧ OnlyWriters w w.opcodeAt next := by
  obtain ⟨next, run, ends⟩ := run_of_test (step .latin) (fun _ _ => True)
    ((World.construct 0).loaded [0x60, 0x12]) [.tick (.reading 0)]
    (fun next => next.vRegisters 0 = 0x12) (by decide)
  have stepped := (run_single.mp run).2
  exact ⟨_, next, by decide, of_decide_eq_true ends, only_writers_change stepped⟩

end Chip8Emulator.FrameLaw
