import Chip8Emulator.ProcessRefinement

/-! When `process` fails. The boundary is a condition on the program counter,
the fetched opcode, the index register and one register; sizes need no
invariant of their own, since the vectors never change size. -/
namespace Chip8Emulator.FaultCharacterisation
open Foundations.Loops

/-- The opcodes one of the tests of `process` accepts. -/
def Accepted (opcode : DByte) : Prop :=
  let n := opcode.toNat
  n = 0x0000 ∨ n = 0x00E0 ∨ n = 0x00EE ∨
    n / 0x1000 ∈ [0x1, 0x2, 0x3, 0x4, 0x5, 0x6, 0x7, 0x9, 0xA, 0xB, 0xC, 0xD] ∨
    (n / 0x1000 = 0x8 ∧ n % 0x10 ∈ [0x0, 0x1, 0x2, 0x3, 0x4, 0x5, 0x6, 0x7, 0xE]) ∨
    (n / 0x1000 = 0xE ∧ n % 0x100 ∈ [0x9E, 0xA1]) ∨
    (n / 0x1000 = 0xF ∧ n % 0x100 ∈ [0x07, 0x0A, 0x15, 0x1E, 0x29, 0x33, 0x55, 0x65])

/-- A leading digit and a trailing byte. -/
def Pattern (opcode : DByte) (lead low : Nat) : Prop :=
  opcode.toNat / 0x1000 = lead ∧ opcode.toNat % 0x100 = low

/-- The instructions whose memory range or key leaves its vector. -/
def OutOfRange (w : World) (opcode : DByte) : Prop :=
  (opcode.toNat / 0x1000 = 0xD ∧ 1 ≤ nOf opcode ∧ 4096 < w.indexRegister.toNat + nOf opcode) ∨
    (Pattern opcode 0xF 0x33 ∧ 4093 < w.indexRegister.toNat) ∨
    ((Pattern opcode 0xF 0x55 ∨ Pattern opcode 0xF 0x65) ∧
      4095 < w.indexRegister.toNat + (xOf opcode).val) ∨
    ((Pattern opcode 0xE 0x9E ∨ Pattern opcode 0xE 0xA1) ∧ 16 ≤ (w.vRegisters (xOf opcode)).toNat)

/-- What makes the next tick fail. -/
def FaultCondition (w : World) : Prop :=
  4094 < w.programCounter.toNat ∨ ¬ Accepted w.opcodeAt ∨ OutOfRange w w.opcodeAt

/-- The same boundary, by instruction. -/
def Faults (w : World) : Instruction → Prop
  | .draw _ _ n => 1 ≤ n ∧ 4096 < w.indexRegister.toNat + n
  | .bcd _ => 4093 < w.indexRegister.toNat
  | .save x | .restore x => 4095 < w.indexRegister.toNat + x.val
  | .skipIfKey x | .skipUnlessKey x => 16 ≤ (w.vRegisters x).toNat
  | _ => False

/-- An instruction faults exactly at its boundary, and only on RAM or a key. -/
theorem execute_faults (inputs : TickInputs) (w : World) (instruction : Instruction) :
    ((∃ fault, execute inputs w instruction = .error fault) ↔ Faults w instruction) ∧
      ∀ fault, execute inputs w instruction = .error fault →
        fault = .ramOutOfRange ∨ fault = .keyStatusOverrun := by
  cases instruction with
  | draw x y n =>
    by_cases fits : n = 0 ∨ w.indexRegister.toNat + n ≤ 4096
    · simp [execute, Faults, fits]
      omega
    · simp [execute, Faults, fits]
      omega
  | bcd x =>
    by_cases fits : w.indexRegister.toNat ≤ 4093
    · simp [execute, Faults, fits]
    · simp [execute, Faults, fits, Nat.not_le.mp fits]
  | save x | restore x =>
    by_cases fits : w.indexRegister.toNat + x.val ≤ 4095
    · simp [execute, Faults, fits]
    · simp [execute, Faults, fits, Nat.not_le.mp fits]
  | skipIfKey x | skipUnlessKey x =>
    by_cases bound : (w.vRegisters x).toNat < 16
    · simp [execute, Faults, bound]
    · simp [execute, Faults, bound, Nat.not_lt.mp bound]
  | _ => simp [execute, Faults]

/-- The instructions at their boundary are the ones the patterns name. -/
theorem faults_iff (w : World) (opcode : DByte) :
    (∃ instruction, decode opcode = some instruction ∧ Faults w instruction) ↔ OutOfRange w opcode := by
  constructor
  · rintro ⟨instruction, decoded, faults⟩
    have encoded := decode_iff.mp decoded
    cases instruction <;>
      simp only [Faults, Instruction.Encoding, Instruction.Encoding.Register] at faults encoded
    case draw x y n =>
      obtain ⟨lead, -, -, rfl⟩ := encoded
      exact .inl ⟨lead, faults⟩
    case bcd x => exact .inr (.inl ⟨⟨encoded.1, encoded.2.1⟩, faults⟩)
    case save x =>
      obtain ⟨lead, low, rfl⟩ := encoded
      exact .inr (.inr (.inl ⟨.inl ⟨lead, low⟩, faults⟩))
    case restore x =>
      obtain ⟨lead, low, rfl⟩ := encoded
      exact .inr (.inr (.inl ⟨.inr ⟨lead, low⟩, faults⟩))
    case skipIfKey x =>
      obtain ⟨lead, low, rfl⟩ := encoded
      exact .inr (.inr (.inr ⟨.inl ⟨lead, low⟩, faults⟩))
    case skipUnlessKey x =>
      obtain ⟨lead, low, rfl⟩ := encoded
      exact .inr (.inr (.inr ⟨.inr ⟨lead, low⟩, faults⟩))
  · rintro (⟨lead, faults⟩ | ⟨⟨lead, low⟩, faults⟩ | ⟨⟨lead, low⟩ | ⟨lead, low⟩, faults⟩ |
      ⟨⟨lead, low⟩ | ⟨lead, low⟩, faults⟩)
    · exact ⟨.draw _ _ _, decode_iff.mpr ⟨lead, rfl, rfl, rfl⟩, faults⟩
    · exact ⟨.bcd _, decode_iff.mpr ⟨lead, low, rfl⟩, faults⟩
    · exact ⟨.save _, decode_iff.mpr ⟨lead, low, rfl⟩, faults⟩
    · exact ⟨.restore _, decode_iff.mpr ⟨lead, low, rfl⟩, faults⟩
    · exact ⟨.skipIfKey _, decode_iff.mpr ⟨lead, low, rfl⟩, faults⟩
    · exact ⟨.skipUnlessKey _, decode_iff.mpr ⟨lead, low, rfl⟩, faults⟩

/-- Decoding accepts exactly the listed opcodes. -/
theorem accepted_iff (opcode : DByte) :
    Accepted opcode ↔ ∃ instruction, decode opcode = some instruction := by
  constructor
  · simp only [Accepted, List.mem_cons, List.not_mem_nil, or_false]
    rintro (full | full | full | lead | ⟨lead, last⟩ | ⟨lead, low⟩ | ⟨lead, low⟩)
    · exact ⟨.nop, decode_iff.mpr full⟩
    · exact ⟨.clear, decode_iff.mpr full⟩
    · exact ⟨.ret, decode_iff.mpr full⟩
    · rcases lead with lead | lead | lead | lead | lead | lead | lead | lead | lead | lead | lead | lead <;>
        simp [decode, lead]
    · rcases last with last | last | last | last | last | last | last | last | last <;>
        simp [decode, lead, last]
    · rcases low with low | low <;> simp [decode, lead, low]
    · rcases low with low | low | low | low | low | low | low | low <;> simp [decode, lead, low]
  · rintro ⟨instruction, decoded⟩
    have encoded := decode_iff.mp decoded
    cases instruction <;>
      simp only [Instruction.Encoding, Instruction.Encoding.Arithmetic,
        Instruction.Encoding.Register] at encoded <;>
      simp [Accepted, encoded]

/-- A tick fails exactly where the condition holds, with one of three faults. -/
theorem tick_faults (inputs : TickInputs) (w : World) :
    ((∃ fault, tick inputs w = .error fault) ↔ FaultCondition w) ∧
      ∀ fault, tick inputs w = .error fault →
        fault = .ramOutOfRange ∨ fault = .abort ∨ fault = .keyStatusOverrun := by
  unfold FaultCondition
  by_cases fits : w.programCounter.toNat ≤ 4094
  · rw [accepted_iff, ← faults_iff]
    cases decoded : decode w.opcodeAt with
    | none => simp [tick, fits, decoded, Nat.not_lt.mpr fits]
    | some instruction =>
      have boundary : Faults w.fetched instruction = Faults w instruction := by
        cases instruction <;> rfl
      obtain ⟨exactly, kinds⟩ := execute_faults inputs w.fetched instruction
      rw [boundary] at exactly
      cases effect : execute inputs w.fetched instruction with
      | ok next =>
        simp only [effect, reduceCtorEq, exists_false, false_iff] at exactly
        simp [tick, fits, decoded, effect, Except.map, Nat.not_lt.mpr fits, exactly]
      | error fault =>
        have boundaryHolds := exactly.mp ⟨fault, effect⟩
        have kind := kinds fault effect
        simp only [tick, fits, decoded, effect, Except.map, ↓reduceIte, Except.error.injEq]
        refine ⟨⟨fun _ => .inr (.inr ⟨instruction, rfl, boundaryHolds⟩), fun _ => ⟨fault, rfl⟩⟩, ?_⟩
        rintro _ rfl
        exact kind.elim .inl (fun overrun => .inr (.inr overrun))
  · simp [tick, fits, Nat.not_le.mp fits]

/-- `process` fails exactly when the program counter leaves no whole
instruction, the opcode is unknown, or its range or key leaves its vector; and
what fails is then a read or write of RAM, the abort, or the key lookup. -/
theorem process_faults_iff (inputs : TickInputs) (w : World) :
    ((∃ fault next, (process inputs).run w = .error fault next) ↔ FaultCondition w) ∧
      ∀ fault next, (process inputs).run w = .error fault next →
        fault = .ramOutOfRange ∨ fault = .abort ∨ fault = .keyStatusOverrun := by
  obtain ⟨exactly, kinds⟩ := tick_faults inputs w
  simp only [← process_refines, outcome_eq_error] at exactly kinds
  exact ⟨exactly, fun fault next faulted => kinds fault ⟨next, faulted⟩⟩

end Chip8Emulator.FaultCharacterisation
