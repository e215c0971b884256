import Chip8Emulator.MemoryInstructions
import Chip8Emulator.SpriteDrawing

/-! The instructions whose range from the index register on runs past the end
of RAM. Each checks one byte at a time and writes as it goes, so the part of
the range inside RAM has its effect before the exception. -/
namespace Chip8Emulator.PartialEffects
open Foundations.Memory SpriteDrawing MemoryInstructions

/-- What an instruction that fails could be expected to leave alone. -/
@[ext] structure Contents where
  ram : Fin 4096 → Byte
  vRegisters : Fin 16 → Byte
  indexRegister : DByte
  frameBuffer : FrameBuffer

def contents (w : World) : Contents where
  ram := w.ram
  vRegisters := w.vRegisters
  indexRegister := w.indexRegister
  frameBuffer := w.frameBuffer

/-- The instructions that go through a range of RAM. -/
inductive RangeInstruction where
  | draw
  | bcd
  | save
  | restore

namespace RangeInstruction

def perform : RangeInstruction → DByte → Cpu Unit
  | draw => performDxyn
  | bcd => performFx33
  | save => performFx55
  | restore => performFx65

/-- The number of bytes in the range. -/
def extent (opcode : DByte) : RangeInstruction → Nat
  | draw => nOf opcode
  | bcd => 3
  | save | restore => (xOf opcode).val + 1

/-- The contents after the bytes of the range that lie in RAM. -/
def cutShort (w : World) (opcode : DByte) : RangeInstruction → Contents
  | draw => { contents w with
      frameBuffer := w.drawn (xOf opcode) (yOf opcode) (4096 - w.indexRegister.toNat) }
  | bcd => { contents w with
      ram := storeList w.ram w.indexRegister.toNat (decimalDigits (w.vRegisters (xOf opcode))) }
  | save => { contents w with ram := storeList w.ram w.indexRegister.toNat (w.registersUpTo (xOf opcode)) }
  | restore => { contents w with
      vRegisters := storeList w.vRegisters 0 (w.bytesAtIndex (4096 - w.indexRegister.toNat)) }

/-- The byte at an offset of the range for which the instruction changes nothing there. -/
def settled (w : World) (opcode : DByte) (i : Nat) : RangeInstruction → Byte
  | draw => 0
  | bcd => (decimalDigits (w.vRegisters (xOf opcode))).getD i 0
  | save | restore => readAt w.vRegisters i

end RangeInstruction

/-! ## Effects that leave everything as it was -/

/-- Rows of zeros are all that a draw does not show. -/
theorem drawn_eq_self_iff (w : World) (x y : Fin 16) (few : 4096 - w.indexRegister.toNat ≤ 32) :
    w.drawn x y (4096 - w.indexRegister.toNat) = w.frameBuffer ↔
      ∀ i, w.indexRegister.toNat + i < 4096 → readAt w.ram (w.indexRegister.toNat + i) = 0 := by
  have length := bytes_length w (4096 - w.indexRegister.toNat)
  have same := draw_eq_self_iff (drawOf w x y (4096 - w.indexRegister.toNat)) w.frameBuffer
    (length.trans_le few)
  refine Iff.trans same ?_
  simp only [drawOf, World.bytesAtIndex, List.forall_mem_map, List.mem_range]
  constructor
  · exact fun blank i inside => blank i (by omega)
  · exact fun blank i inside => blank i (by omega)

theorem saved_eq_self_iff (w : World) (x : Fin 16) (covers : 4095 ≤ w.indexRegister.toNat + x.val) :
    storeList w.ram w.indexRegister.toNat (w.registersUpTo x) = w.ram ↔
      ∀ i, w.indexRegister.toNat + i < 4096 →
        readAt w.ram (w.indexRegister.toNat + i) = readAt w.vRegisters i := by
  have length := registers_length w x
  rw [store_covers_eq_self_iff (by omega) 0]
  refine forall_congr' fun i => forall_congr' fun inside => ?_
  rw [List.getD_eq_getElem _ _ (by omega), registers_getElem]

theorem restored_eq_self_iff (w : World) (few : 4096 - w.indexRegister.toNat ≤ 16) :
    storeList w.vRegisters 0 (w.bytesAtIndex (4096 - w.indexRegister.toNat)) = w.vRegisters ↔
      ∀ i, w.indexRegister.toNat + i < 4096 →
        readAt w.ram (w.indexRegister.toNat + i) = readAt w.vRegisters i := by
  have length := bytes_length w (4096 - w.indexRegister.toNat)
  simp only [store_eq_self_iff, bytes_getElem, Nat.zero_add]
  constructor
  · intro held i inside
    have register : i < 16 := by omega
    rw [← held i (by omega) register, read_at_of_lt _ register]
  · intro settled i within register
    rw [settled i (by omega), read_at_of_lt _ register]

/-! ## The exception -/

section Overrun
variable {instruction : RangeInstruction} {w : World} {opcode : DByte}
  (overruns : 4096 < w.indexRegister.toNat + instruction.extent opcode)
include overruns

/-- The exception leaves what the bytes inside RAM make of the contents. -/
theorem overrun_cuts_short (nonempty : 0 < instruction.extent opcode) :
    ∃ next, (instruction.perform opcode).run w = .error .ramOutOfRange next ∧
      contents next = instruction.cutShort w opcode := by
  cases instruction with
  | draw => exact ⟨_, run_performDxyn_fault w opcode (Nat.ne_of_gt nonempty) overruns, rfl⟩
  | bcd =>
    have beyond : 4093 < w.indexRegister.toNat := Nat.lt_of_add_lt_add_right (n := 3) overruns
    exact ⟨_, run_performFx33_fault w opcode beyond, Contents.ext (store_take _ _ _) rfl rfl rfl⟩
  | save =>
    have beyond : 4095 < w.indexRegister.toNat + (xOf opcode).val := Nat.lt_of_succ_lt_succ overruns
    exact ⟨_, run_performFx55_fault w opcode beyond, Contents.ext (store_take _ _ _) rfl rfl rfl⟩
  | restore => exact ⟨_, run_performFx65_fault w opcode (Nat.lt_of_succ_lt_succ overruns), rfl⟩

/-- The bytes inside RAM change nothing exactly where they are settled already. -/
theorem cut_short_eq_iff :
    instruction.cutShort w opcode = contents w ↔
      ∀ i, w.indexRegister.toNat + i < 4096 →
        readAt w.ram (w.indexRegister.toNat + i) = instruction.settled w opcode i := by
  cases instruction with
  | draw =>
    have digit : nOf opcode < 16 := Nat.mod_lt _ (by decide)
    simp only [RangeInstruction.extent] at overruns
    simp only [RangeInstruction.cutShort, Contents.ext_iff, contents, true_and]
    exact drawn_eq_self_iff w _ _ (by omega)
  | bcd =>
    have length := digits_length (w.vRegisters (xOf opcode))
    simp only [RangeInstruction.extent] at overruns
    simp only [RangeInstruction.cutShort, Contents.ext_iff, contents, and_true]
    exact store_covers_eq_self_iff (by omega) 0
  | save =>
    simp only [RangeInstruction.extent] at overruns
    simp only [RangeInstruction.cutShort, Contents.ext_iff, contents, and_true]
    exact saved_eq_self_iff w _ (by omega)
  | restore =>
    have digit := (xOf opcode).isLt
    simp only [RangeInstruction.extent] at overruns
    simp only [RangeInstruction.cutShort, Contents.ext_iff, contents, true_and, and_true]
    exact restored_eq_self_iff w (by omega)

end Overrun

/-- An instruction whose range passes the end of RAM throws after the part of
the range inside RAM has had its effect, which leaves the contents as they
were exactly where that part was settled already. -/
theorem overrun_leaves_part (instruction : RangeInstruction) (w : World) (opcode : DByte)
    (nonempty : 0 < instruction.extent opcode)
    (overruns : 4096 < w.indexRegister.toNat + instruction.extent opcode) :
    ∃ next, (instruction.perform opcode).run w = .error .ramOutOfRange next ∧
      contents next = instruction.cutShort w opcode ∧
      (contents next = contents w ↔ ∀ i, w.indexRegister.toNat + i < 4096 →
        readAt w.ram (w.indexRegister.toNat + i) = instruction.settled w opcode i) := by
  obtain ⟨next, throws, left⟩ := overrun_cuts_short overruns nonempty
  refine ⟨next, throws, left, ?_⟩
  rw [left]
  exact cut_short_eq_iff overruns

/-- Three registers are saved from address 4094 on: the first two are stored,
and the third meets the end of RAM. -/
theorem overrun_leaves_part_two : ∃ w next : World, w.indexRegister = 4094 ∧
    (performFx55 0xF255).run w = .error .ramOutOfRange next ∧ next.ram 4094 = 7 ∧ next.ram 4095 = 8 ∧
      contents next ≠ contents w := by
  let w : World := { World.construct 0 with vRegisters := fun i => .ofNat 8 (i.val + 7), indexRegister := 4094 }
  obtain ⟨next, throws, left, intact⟩ := overrun_leaves_part .save w 0xF255 (by decide) (by decide)
  have first := congrFun (congrArg Contents.ram left) 4094
  have second := congrFun (congrArg Contents.ram left) 4095
  refine ⟨w, next, rfl, throws, first.trans (by decide), second.trans (by decide), fun same => ?_⟩
  have settled := intact.mp same 0 (by decide)
  exact absurd settled (by decide)

/-- `V0` saved to the last byte of RAM before the exception for `V1`. -/
theorem overrun_saves_first :
    ¬ ∀ (instruction : RangeInstruction) (w : World) (opcode : DByte), 0 < instruction.extent opcode →
      4096 < w.indexRegister.toNat + instruction.extent opcode →
      ∃ next, (instruction.perform opcode).run w = .error .ramOutOfRange next ∧ contents next = contents w := by
  intro always
  obtain ⟨next, throws, same⟩ := always .save
    { World.construct 0 with vRegisters := fun _ => 1, indexRegister := 4095 } 0xF155 (by decide) (by decide)
  have stored := throws.symm.trans (run_performFx55_fault _ 0xF155 (by decide))
  cases stored
  have cell := congrFun (congrArg Contents.ram same) 4095
  exact absurd cell (by decide)

end Chip8Emulator.PartialEffects
