import Chip8Emulator.InstructionFrames

/-! The instructions that move bytes between registers and memory, cell by
cell. What one of them stores another reads back, from any address on whose
range lies in RAM. -/
namespace Chip8Emulator.MemoryInstructions
open Foundations.Memory

/-! ## Cells and registers -/

/-- A register of a restored range holds its byte, any other is kept. -/
theorem restored_register (w : World) (count : Nat) (r : Fin 16) :
    (w.restoreUpTo count).vRegisters r =
      if r.val < count then readAt w.ram (w.indexRegister.toNat + r.val) else w.vRegisters r := by
  have length := bytes_length w count
  change storeList w.vRegisters 0 (w.bytesAtIndex count) r = _
  split
  · rw [store_inside w.vRegisters 0 r.val _ r (Nat.zero_add _).symm (by omega), bytes_getElem]
  · exact store_outside w.vRegisters 0 _ r (.inr (by omega))

/-- A saved register lies in its cell. -/
theorem saved_cell (w : World) (x i : Fin 16) (fits : w.indexRegister.toNat + x.val ≤ 4095) (upTo : i ≤ x) :
    readAt (storeList w.ram w.indexRegister.toNat (w.registersUpTo x)) (w.indexRegister.toNat + i.val) =
      w.vRegisters i := by
  have length := registers_length w x
  have stored : Stored (storeList w.ram w.indexRegister.toNat (w.registersUpTo x)) w.indexRegister.toNat
      (w.registersUpTo x) := stored_store (by omega)
  rw [stored i.val (by omega), registers_getElem, read_at_of_lt _ i.isLt]

theorem saved_elsewhere (w : World) (x : Fin 16) (cell : Fin 4096)
    (outside : cell.val < w.indexRegister.toNat ∨ w.indexRegister.toNat + x.val < cell.val) :
    storeList w.ram w.indexRegister.toNat (w.registersUpTo x) cell = w.ram cell := by
  have length := registers_length w x
  exact store_outside w.ram _ _ cell (by omega)

/-! ## Save and restore -/

/-- Restoring what was saved gives the registers back, whatever became of them
in between. -/
theorem restored_after_save (w changed : World) (x : Fin 16) (fits : w.indexRegister.toNat + x.val ≤ 4095)
    (memory : changed.ram = storeList w.ram w.indexRegister.toNat (w.registersUpTo x))
    (index : changed.indexRegister = w.indexRegister) (r : Fin 16) :
    (changed.restoreUpTo (x.val + 1)).vRegisters r = if r ≤ x then w.vRegisters r else changed.vRegisters r := by
  rw [restored_register, memory, index]
  by_cases upTo : r ≤ x
  · rw [if_pos (Nat.lt_succ_of_le upTo), if_pos upTo, saved_cell w x r fits upTo]
  · rw [if_neg (fun within => upTo (Nat.le_of_lt_succ within)), if_neg upTo]

/-- Saving what was restored stores what is there. -/
theorem saved_after_restore (w : World) (x : Fin 16) :
    storeList w.ram w.indexRegister.toNat ((w.restoreUpTo (x.val + 1)).registersUpTo x) = w.ram := by
  rw [store_eq_self_iff]
  intro i within bound
  rw [registers_length] at within
  have register : i < 16 := by omega
  rw [registers_getElem, read_at_of_lt _ register, restored_register, if_pos within, read_at_of_lt _ bound]

/-- `Fx55` stores `V0..Vx` and nothing else; `Fx65` after it restores them from
any change of the registers, and before it leaves RAM as it was. -/
theorem save_restore_inverse (w : World) (opcode : DByte)
    (fits : w.indexRegister.toNat + (xOf opcode).val ≤ 4095) :
    (∃ saved, (performFx55 opcode).run w = .ok () saved ∧ saved.indexRegister = w.indexRegister ∧
      (∀ i, i ≤ xOf opcode → readAt saved.ram (w.indexRegister.toNat + i.val) = w.vRegisters i) ∧
      (∀ cell : Fin 4096, cell.val < w.indexRegister.toNat ∨
        w.indexRegister.toNat + (xOf opcode).val < cell.val → saved.ram cell = w.ram cell) ∧
      ∀ changed back, changed.ram = saved.ram → changed.indexRegister = w.indexRegister →
        xOf back = xOf opcode → ∃ restored, (performFx65 back).run changed = .ok () restored ∧
          restored.indexRegister = w.indexRegister ∧
          ∀ r, restored.vRegisters r = if r ≤ xOf opcode then w.vRegisters r else changed.vRegisters r) ∧
    ∀ back, xOf back = xOf opcode → ∃ restored saved, (performFx65 back).run w = .ok () restored ∧
      (performFx55 opcode).run restored = .ok () saved ∧ saved.ram = w.ram ∧
      restored.indexRegister = w.indexRegister ∧ saved.indexRegister = w.indexRegister := by
  constructor
  · refine ⟨_, run_performFx55 w opcode fits, rfl, fun i upTo => saved_cell w _ i fits upTo,
      fun cell outside => saved_elsewhere w _ cell outside, ?_⟩
    intro changed back memory index same
    refine ⟨_, run_performFx65 changed back (by rw [index, same]; exact fits), index, fun r => ?_⟩
    rw [same]
    exact restored_after_save w changed (xOf opcode) fits memory index r
  · intro back same
    have restores := run_performFx65 w back (by rw [same]; exact fits)
    have saves := run_performFx55 (w.restoreUpTo ((xOf back).val + 1)) opcode fits
    refine ⟨_, _, restores, saves, ?_, rfl, rfl⟩
    rw [same]
    exact saved_after_restore w (xOf opcode)

/-- A machine with the registers 1 to 16 and the index register on the last
sixteen bytes of RAM. -/
def counting : World :=
  { World.construct 0 with vRegisters := fun i => .ofNat 8 (i.val + 1), indexRegister := 4080 }

/-- The registers are saved, cleared and restored. -/
theorem save_restore_inverse_cleared : ∃ saved restored, (performFx55 0xFF55).run counting = .ok () saved ∧
    readAt saved.ram 4095 = 16 ∧
    (performFx65 0xFF65).run { saved with vRegisters := fun _ => 0 } = .ok () restored ∧
    restored.vRegisters = counting.vRegisters := by
  obtain ⟨⟨saved, saves, index, cells, _, inverse⟩, _⟩ := save_restore_inverse counting 0xFF55 (by decide)
  obtain ⟨restored, restores, _, back⟩ := inverse { saved with vRegisters := fun _ => 0 } 0xFF65 rfl index rfl
  refine ⟨saved, restored, saves, cells 15 (by decide), restores, funext fun r => ?_⟩
  have all : r ≤ xOf 0xFF55 := Nat.le_of_lt_succ r.isLt
  rw [back r, if_pos all]

/-! ## Decimal digits -/

/-- The three digits of a byte are decimal and make it up. -/
theorem decimal_digits (value : Byte) :
    (value / 100).toNat ≤ 9 ∧ (value / 10 % 10).toNat ≤ 9 ∧ (value % 10).toNat ≤ 9 ∧
      100 * (value / 100).toNat + 10 * (value / 10 % 10).toNat + (value % 10).toNat = value.toNat := by
  have bound := value.isLt
  simp only [BitVec.toNat_udiv, BitVec.toNat_umod]
  simp
  omega

/-- The machine with the digits of a byte stored. -/
def digitsStored (w : World) (value : Byte) : World :=
  { w with ram := storeList w.ram w.indexRegister.toNat (decimalDigits value) }

/-- A register reads back the digit stored for it. -/
theorem restored_digit (w : World) (value : Byte) (fits : w.indexRegister.toNat ≤ 4093) (r : Fin 16)
    (within : r.val < (decimalDigits value).length) :
    ((digitsStored w value).restoreUpTo 3).vRegisters r = (decimalDigits value)[r.val] := by
  have length := digits_length value
  have stored : Stored (storeList w.ram w.indexRegister.toNat (decimalDigits value)) w.indexRegister.toNat
      (decimalDigits value) := stored_store (by omega)
  rw [restored_register, if_pos (by omega)]
  exact stored r.val within

/-- `Fx33` and then `F265` leave the decimal digits of `Vx` in `V0`, `V1`, `V2`. -/
theorem bcd_round_trip (w : World) (opcode : DByte) (fits : w.indexRegister.toNat ≤ 4093) :
    ∃ stored final, (performFx33 opcode).run w = .ok () stored ∧ (performFx65 0xF265).run stored = .ok () final ∧
      ((final.vRegisters 0).toNat ≤ 9 ∧ (final.vRegisters 1).toNat ≤ 9 ∧ (final.vRegisters 2).toNat ≤ 9 ∧
        100 * (final.vRegisters 0).toNat + 10 * (final.vRegisters 1).toNat + (final.vRegisters 2).toNat =
          (w.vRegisters (xOf opcode)).toNat) ∧
      (∀ cell : Fin 4096, cell.val < w.indexRegister.toNat ∨ w.indexRegister.toNat + 2 < cell.val →
        stored.ram cell = w.ram cell) ∧
      stored = { w with ram := stored.ram } ∧
      (∀ r : Fin 16, 2 < r.val → final.vRegisters r = w.vRegisters r) ∧
      final = { stored with vRegisters := final.vRegisters, emitted := final.emitted } := by
  have digit := restored_digit w (w.vRegisters (xOf opcode)) fits
  have restores : (performFx65 0xF265).run (digitsStored w (w.vRegisters (xOf opcode))) =
      .ok () ((digitsStored w (w.vRegisters (xOf opcode))).restoreUpTo 3) :=
    run_performFx65 _ 0xF265 (show w.indexRegister.toNat + 2 ≤ 4095 by omega)
  refine ⟨_, _, run_performFx33 w opcode fits, restores, ?_, fun cell outside => ?_, rfl, fun r above => ?_, rfl⟩
  · have hundreds : _ = w.vRegisters (xOf opcode) / 100 := digit 0 (show 0 < 3 by decide)
    have tens : _ = w.vRegisters (xOf opcode) / 10 % 10 := digit 1 (show 1 < 3 by decide)
    have ones : _ = w.vRegisters (xOf opcode) % 10 := digit 2 (show 2 < 3 by decide)
    rw [hundreds, tens, ones]
    exact decimal_digits (w.vRegisters (xOf opcode))
  · have length := digits_length (w.vRegisters (xOf opcode))
    exact store_outside w.ram _ _ cell (by omega)
  · exact (restored_register _ 3 r).trans (if_neg (Nat.not_lt.mpr above))

/-- 123 in `V4`, by way of the last three bytes of RAM. -/
theorem bcd_round_trip_last : ∃ w stored final : World, w.vRegisters 4 = 123 ∧ w.indexRegister = 4093 ∧
    (performFx33 0xF433).run w = .ok () stored ∧ (performFx65 0xF265).run stored = .ok () final ∧
    (final.vRegisters 0).toNat = 1 ∧ (final.vRegisters 1).toNat = 2 ∧ (final.vRegisters 2).toNat = 3 ∧
    final.vRegisters 4 = 123 := by
  let w : World := { (World.construct 0).writeV 4 123 with indexRegister := 4093 }
  obtain ⟨stored, final, stores, restores, ⟨hundreds, tens, ones, value⟩, _, _, kept, _⟩ :=
    bcd_round_trip w 0xF433 (by decide)
  have byte : (w.vRegisters (xOf 0xF433)).toNat = 123 := rfl
  rw [byte] at value
  exact ⟨w, stored, final, rfl, rfl, stores, restores, by omega, by omega, by omega, kept 4 (by decide)⟩

end Chip8Emulator.MemoryInstructions
