import Chip8Emulator.HandlerProofs

/-! The handlers with loops over memory, and the ones whose access can fall
outside a vector. A loop that checks one byte at a time completes exactly when
its whole range is in RAM; where it is not, the state it faults in is the one
after the bytes that were. -/
namespace Chip8Emulator
open Foundations.Loops Foundations.Memory Foundations.WordDigits

/-! ## Loops that store -/

namespace World

/-- The first `i` bytes stored from the index register on. -/
def stored (w : World) (bytes : List Byte) (i : Nat) : World :=
  { w with ram := storeList w.ram w.indexRegister.toNat (bytes.take i) }

@[simp] theorem stored_indexRegister (w : World) (bytes : List Byte) (i : Nat) :
    (w.stored bytes i).indexRegister = w.indexRegister := rfl

@[simp] theorem stored_vRegisters (w : World) (bytes : List Byte) (i : Nat) :
    (w.stored bytes i).vRegisters = w.vRegisters := rfl

theorem stored_zero (w : World) (bytes : List Byte) : w.stored bytes 0 = w := by
  simp [stored, store_nil]

theorem stored_all (w : World) (bytes : List Byte) :
    w.stored bytes bytes.length = { w with ram := storeList w.ram w.indexRegister.toNat bytes } := by
  simp [stored]

end World

section Storing
variable {w : World} {bytes : List Byte} {body : Nat → Unit → Cpu Unit}

private theorem store_iteration
    (stores : ∀ i (_ : i < bytes.length), (body i ()).run (w.stored bytes i) =
      (setRamAt (w.indexRegister.toNat + i) bytes[i]).run (w.stored bytes i))
    (i : Nat) (within : i < bytes.length) (bound : w.indexRegister.toNat + i < 4096) :
    (body i ()).run (w.stored bytes i) = .ok () (w.stored bytes (i + 1)) := by
  rw [stores i within, run_setRamAt _ _ bound]
  simp only [World.stored, store_next w.ram _ i bytes within bound]

/-- A loop that stores one byte an iteration, in range. -/
theorem run_store_loop
    (stores : ∀ i (_ : i < bytes.length), (body i ()).run (w.stored bytes i) =
      (setRamAt (w.indexRegister.toNat + i) bytes[i]).run (w.stored bytes i))
    (fits : w.indexRegister.toNat + bytes.length ≤ 4096) :
    (forLoop bytes.length () body).run w =
      .ok () { w with ram := storeList w.ram w.indexRegister.toNat bytes } := by
  have loop := for_loop_ok (fun _ => ()) (w.stored bytes) bytes.length
    (fun i within => store_iteration stores i within (by omega))
  rwa [w.stored_zero, w.stored_all] at loop

/-- The same loop past the end of RAM: the bytes that fit are stored. -/
theorem run_store_loop_fault
    (stores : ∀ i (_ : i < bytes.length), (body i ()).run (w.stored bytes i) =
      (setRamAt (w.indexRegister.toNat + i) bytes[i]).run (w.stored bytes i))
    (overruns : 4096 < w.indexRegister.toNat + bytes.length) (nonempty : 0 < bytes.length) :
    (forLoop bytes.length () body).run w =
      .error .ramOutOfRange (w.stored bytes (4096 - w.indexRegister.toNat)) := by
  have last : 4096 - w.indexRegister.toNat < bytes.length := by omega
  have faults := stores _ last
  rw [run_setRamAt_outside _ _ (by omega)] at faults
  have loop := for_loop_error (fun _ => ()) (w.stored bytes) bytes.length _ last
    (fun i before => store_iteration stores i (by omega) (by omega)) faults
  rwa [w.stored_zero] at loop

end Storing

/-! ## Save and BCD -/

section Memory
variable (inputs : TickInputs) (w : World) (opcode : DByte)

theorem registers_length (x : Fin 16) : (w.registersUpTo x).length = x.val + 1 := by
  simp [World.registersUpTo]

theorem registers_getElem (x : Fin 16) (i : Nat) (within : i < (w.registersUpTo x).length) :
    (w.registersUpTo x)[i] = readAt w.vRegisters i := by
  simp [World.registersUpTo]

private theorem run_saveIteration (x : Fin 16) (i : Nat) (within : i < (w.registersUpTo x).length) :
    (saveIteration i ()).run (w.stored (w.registersUpTo x) i) =
      (setRamAt (w.indexRegister.toNat + i) (w.registersUpTo x)[i]).run
        (w.stored (w.registersUpTo x) i) := by
  have register : i < 16 := by
    rw [registers_length] at within
    omega
  have read := run_readVRegister (w.stored (w.registersUpTo x) i) ⟨i, register⟩
  simp only [World.stored_vRegisters] at read
  simp [saveIteration, read, registers_getElem, read_at_of_lt w.vRegisters register]

/-- `Fx55` with its range in RAM. -/
theorem run_performFx55 (fits : w.indexRegister.toNat + (xOf opcode).val ≤ 4095) :
    (performFx55 opcode).run w = .ok () { w with
      ram := storeList w.ram w.indexRegister.toNat (w.registersUpTo (xOf opcode)) } := by
  have length := registers_length w (xOf opcode)
  have loop := run_store_loop (run_saveIteration w (xOf opcode)) (by rw [length]; omega)
  rw [length] at loop
  simpa [performFx55] using loop

/-- `Fx55` past the end of RAM stores the registers that fit, then faults. -/
theorem run_performFx55_fault (overruns : 4095 < w.indexRegister.toNat + (xOf opcode).val) :
    (performFx55 opcode).run w = .error .ramOutOfRange
      (w.stored (w.registersUpTo (xOf opcode)) (4096 - w.indexRegister.toNat)) := by
  have length := registers_length w (xOf opcode)
  have loop := run_store_loop_fault (run_saveIteration w (xOf opcode)) (by rw [length]; omega)
    (by rw [length]; omega)
  rw [length] at loop
  simpa [performFx55] using loop

theorem performFx55_exact :
    outcome ((performFx55 opcode).run w) = execute inputs w (.save (xOf opcode)) := by
  by_cases fits : w.indexRegister.toNat + (xOf opcode).val ≤ 4095
  · rw [run_performFx55 w opcode fits]
    simp [execute, fits]
  · rw [run_performFx55_fault w opcode (by omega)]
    simp [execute, fits]

theorem digits_length (num : Byte) : (decimalDigits num).length = 3 := rfl

/-- The digits come least significant first and are read back reversed. -/
theorem bcd_digit (num : Byte) (i : Nat) (within : i < (decimalDigits num).length) :
    bcdAt (convertToBcd num) (2 - i) = .ok (decimalDigits num)[i] := by
  have hundreds : num / 10 / 10 % 10 = num / 100 := by
    apply BitVec.eq_of_toNat_eq
    have bound := num.isLt
    have small : num.toNat / 100 < 10 := by omega
    simpa [Nat.div_div_eq_div_mul] using Nat.mod_eq_of_lt small
  rw [digits_length] at within
  match i with
  | 0 => simpa [bcdAt, convertToBcd, bcdDigits, decimalDigits] using hundreds
  | 1 => rfl
  | 2 => rfl

private theorem run_bcdIteration (num : Byte) (i : Nat) (within : i < (decimalDigits num).length) :
    (bcdIteration (convertToBcd num) i ()).run (w.stored (decimalDigits num) i) =
      (setRamAt (w.indexRegister.toNat + i) (decimalDigits num)[i]).run
        (w.stored (decimalDigits num) i) := by
  simp [bcdIteration, bcd_digit num i within]

/-- `Fx33` with its range in RAM. -/
theorem run_performFx33 (fits : w.indexRegister.toNat ≤ 4093) :
    (performFx33 opcode).run w = .ok () { w with
      ram := storeList w.ram w.indexRegister.toNat (decimalDigits (w.vRegisters (xOf opcode))) } := by
  have loop := run_store_loop (run_bcdIteration w (w.vRegisters (xOf opcode)))
    (by rw [digits_length]; omega)
  rw [digits_length] at loop
  simpa [performFx33] using loop

/-- `Fx33` past the end of RAM stores the digits that fit, then faults. -/
theorem run_performFx33_fault (overruns : 4093 < w.indexRegister.toNat) :
    (performFx33 opcode).run w = .error .ramOutOfRange
      (w.stored (decimalDigits (w.vRegisters (xOf opcode))) (4096 - w.indexRegister.toNat)) := by
  have loop := run_store_loop_fault (run_bcdIteration w (w.vRegisters (xOf opcode)))
    (by rw [digits_length]; omega) (by rw [digits_length]; omega)
  rw [digits_length] at loop
  simpa [performFx33] using loop

theorem performFx33_exact :
    outcome ((performFx33 opcode).run w) = execute inputs w (.bcd (xOf opcode)) := by
  by_cases fits : w.indexRegister.toNat ≤ 4093
  · rw [run_performFx33 w opcode fits]
    simp [execute, fits]
  · rw [run_performFx33_fault w opcode (by omega)]
    simp [execute, fits]

end Memory

/-! ## Restore -/

section Restore
variable (inputs : TickInputs) (w : World) (opcode : DByte)

theorem bytes_length (count : Nat) : (w.bytesAtIndex count).length = count := by
  simp [World.bytesAtIndex]

theorem bytes_getElem (count i : Nat) (within : i < (w.bytesAtIndex count).length) :
    (w.bytesAtIndex count)[i] = readAt w.ram (w.indexRegister.toNat + i) := by
  simp [World.bytesAtIndex]

private theorem restored_zero : w.restoreUpTo 0 = w := by
  simp [World.restoreUpTo, World.bytesAtIndex, store_nil]

/-- Restoring one more register is one more announced write. -/
theorem restored_next (i : Nat) (register : i < 16) :
    (w.restoreUpTo i).writeV ⟨i, register⟩ (readAt w.ram (w.indexRegister.toNat + i)) =
      w.restoreUpTo (i + 1) := by
  have front : (w.bytesAtIndex (i + 1)).take i = w.bytesAtIndex i := by
    simp [World.bytesAtIndex, List.range_succ]
  have whole : (w.bytesAtIndex (i + 1)).take (i + 1) = w.bytesAtIndex (i + 1) :=
    List.take_of_length_le (Nat.le_of_eq (bytes_length w (i + 1)))
  have within : i < (w.bytesAtIndex (i + 1)).length := by simp [bytes_length]
  have stored := store_next w.vRegisters 0 i (w.bytesAtIndex (i + 1)) within (by omega)
  have cell : (⟨0 + i, by omega⟩ : Fin 16) = ⟨i, register⟩ := by simp
  rw [front, whole, cell, bytes_getElem] at stored
  simp [World.writeV, World.restoreUpTo, stored, List.range_succ]

/-- What every announced write keeps, restoring registers keeps. -/
theorem restored_keeps (holds : World → Prop) (written : ∀ w x value, holds w → holds (w.writeV x value))
    (start : holds w) (within : count ≤ 16) : holds (w.restoreUpTo count) := by
  induction count with
  | zero =>
    rw [restored_zero]
    exact start
  | succ count ih =>
    rw [← restored_next w count (by omega)]
    exact written _ _ _ (ih (by omega))

private theorem run_restoreIteration (i : Nat) (register : i < 16)
    (bound : w.indexRegister.toNat + i < 4096) :
    (restoreIteration i ()).run (w.restoreUpTo i) = .ok () (w.restoreUpTo (i + 1)) := by
  have read := run_ramAt (w.restoreUpTo i) bound
  have write := run_setVRegister (w.restoreUpTo i) ⟨i, register⟩
  have index : (w.restoreUpTo i).indexRegister = w.indexRegister := rfl
  have memory : (w.restoreUpTo i).ram = w.ram := rfl
  rw [memory] at read
  simp only at write
  simp [restoreIteration, index, read, write, restored_next w i register]

/-- `Fx65` with its range in RAM. -/
theorem run_performFx65 (fits : w.indexRegister.toNat + (xOf opcode).val ≤ 4095) :
    (performFx65 opcode).run w = .ok () (w.restoreUpTo ((xOf opcode).val + 1)) := by
  have digit := (xOf opcode).isLt
  have loop := for_loop_ok (fun _ => ()) w.restoreUpTo ((xOf opcode).val + 1)
    (fun i within => run_restoreIteration w i (by omega) (by omega))
  rw [restored_zero] at loop
  simpa [performFx65] using loop

/-- `Fx65` past the end of RAM restores the registers that fit, then faults. -/
theorem run_performFx65_fault (overruns : 4095 < w.indexRegister.toNat + (xOf opcode).val) :
    (performFx65 opcode).run w =
      .error .ramOutOfRange (w.restoreUpTo (4096 - w.indexRegister.toNat)) := by
  have digit := (xOf opcode).isLt
  have faults : (restoreIteration (4096 - w.indexRegister.toNat) ()).run
      (w.restoreUpTo (4096 - w.indexRegister.toNat)) =
      .error .ramOutOfRange (w.restoreUpTo (4096 - w.indexRegister.toNat)) := by
    have outside : 4096 ≤ w.indexRegister.toNat + (4096 - w.indexRegister.toNat) := by omega
    have read := run_ramAt_outside (w.restoreUpTo (4096 - w.indexRegister.toNat)) outside
    have index : (w.restoreUpTo (4096 - w.indexRegister.toNat)).indexRegister = w.indexRegister := rfl
    simp [restoreIteration, index, read]
  have loop := for_loop_error (fun _ => ()) w.restoreUpTo ((xOf opcode).val + 1) _
    (by omega) (fun i before => run_restoreIteration w i (by omega) (by omega)) faults
  rw [restored_zero] at loop
  simpa [performFx65] using loop

theorem performFx65_exact :
    outcome ((performFx65 opcode).run w) = execute inputs w (.restore (xOf opcode)) := by
  by_cases fits : w.indexRegister.toNat + (xOf opcode).val ≤ 4095
  · rw [run_performFx65 w opcode fits]
    simp [execute, fits]
  · rw [run_performFx65_fault w opcode (by omega)]
    simp [execute, fits]

end Restore

/-! ## Sprites -/

/-- Drawing one more byte draws it on the next row. -/
theorem draw_snoc (buffer : FrameBuffer) (x y : Nat) (bytes : List Byte) (value : Byte) (row : y < 32) :
    drawSprite buffer x y (bytes ++ [value]) =
      drawRow (drawSprite buffer x y bytes) x ((y + bytes.length) % 32) value := by
  induction bytes generalizing buffer y with
  | nil => simp [drawSprite, Nat.mod_eq_of_lt row]
  | cons first rest ih =>
    simp only [List.cons_append, drawSprite, List.length_cons]
    rw [ih _ _ (Nat.mod_lt _ (by decide))]
    have same : ((y + 1) % 32 + rest.length) % 32 = (y + (rest.length + 1)) % 32 := by omega
    rw [same]

section Sprites
variable (inputs : TickInputs) (w : World) (opcode : DByte)

/-- The first `i` rows of a sprite drawn at column `x` and row `y`. -/
def World.drawnRows (w : World) (x y i : Nat) : World :=
  { w with frameBuffer := drawSprite w.frameBuffer x y (w.bytesAtIndex i) }

@[simp] theorem run_xorFrameBuffer (y i : Nat) (value : Byte) (row : y < 32) (column : i < 8) :
    (xorFrameBuffer y i value).run w =
      .ok () { w with frameBuffer := xorByte w.frameBuffer y i value } := by
  simp [xorFrameBuffer, row, column]

private theorem drawn_next (x y i : Nat) (row : y < 32) :
    (w.drawnRows x y (i + 1)).frameBuffer =
      drawRow (w.drawnRows x y i).frameBuffer x ((y + i) % 32) (readAt w.ram (w.indexRegister.toNat + i)) := by
  have next : w.bytesAtIndex (i + 1) = w.bytesAtIndex i ++ [readAt w.ram (w.indexRegister.toNat + i)] := by
    simp [World.bytesAtIndex, List.range_succ]
  simp only [World.drawnRows, next, draw_snoc _ _ _ _ _ row, bytes_length]

private theorem run_drawIteration (x y i : Nat) (column : x < 64) (row : y < 32)
    (bound : w.indexRegister.toNat + i < 4096) :
    (drawIteration x i ((y + i) % 32)).run (w.drawnRows x y i) =
      .ok ((y + (i + 1)) % 32) (w.drawnRows x y (i + 1)) := by
  have read := run_ramAt (w.drawnRows x y i) bound
  have index : (w.drawnRows x y i).indexRegister = w.indexRegister := rfl
  have memory : (w.drawnRows x y i).ram = w.ram := rfl
  have rowBound : (y + i) % 32 < 32 := Nat.mod_lt _ (by decide)
  have left : x / 8 < 8 := by omega
  have right : (x / 8 + 1) % 8 < 8 := Nat.mod_lt _ (by decide)
  have nextRow : ((y + i) % 32 + 1) % 32 = (y + (i + 1)) % 32 := by omega
  have next : w.drawnRows x y (i + 1) = { w.drawnRows x y i with
      frameBuffer := (w.drawnRows x y (i + 1)).frameBuffer } := rfl
  rw [memory] at read
  rw [next, drawn_next w x y i row]
  by_cases aligned : x % 8 = 0
  · simp [drawIteration, index, read, aligned, drawRow, rowBound, left, nextRow, -bind_pure_comp]
  · simp [drawIteration, index, read, aligned, drawRow, rowBound, left, right, nextRow, -bind_pure_comp]

/-- `Dxyn` with its sprite in RAM. -/
theorem run_performDxyn (fits : nOf opcode = 0 ∨ w.indexRegister.toNat + nOf opcode ≤ 4096) :
    (performDxyn opcode).run w =
      .ok () { w with frameBuffer := w.drawn (xOf opcode) (yOf opcode) (nOf opcode) } := by
  have column : (w.vRegisters (xOf opcode)).toNat % 64 < 64 := Nat.mod_lt _ (by decide)
  have row : (w.vRegisters (yOf opcode)).toNat % 32 < 32 := Nat.mod_lt _ (by decide)
  have loop := for_loop_ok _ _ (nOf opcode) fun i within =>
    run_drawIteration w _ _ i column row (by omega)
  have start : w.drawnRows ((w.vRegisters (xOf opcode)).toNat % 64)
      ((w.vRegisters (yOf opcode)).toNat % 32) 0 = w := rfl
  simp only [Nat.add_zero, Nat.mod_eq_of_lt row, start] at loop
  simp [performDxyn, loop, -bind_pure_comp]
  rfl

/-- `Dxyn` past the end of RAM draws the rows that are in it, then faults. -/
theorem run_performDxyn_fault (nonempty : nOf opcode ≠ 0)
    (overruns : 4096 < w.indexRegister.toNat + nOf opcode) :
    (performDxyn opcode).run w = .error .ramOutOfRange
      (w.drawnRows ((w.vRegisters (xOf opcode)).toNat % 64) ((w.vRegisters (yOf opcode)).toNat % 32)
        (4096 - w.indexRegister.toNat)) := by
  have column : (w.vRegisters (xOf opcode)).toNat % 64 < 64 := Nat.mod_lt _ (by decide)
  have row : (w.vRegisters (yOf opcode)).toNat % 32 < 32 := Nat.mod_lt _ (by decide)
  have outside : 4096 ≤ w.indexRegister.toNat + (4096 - w.indexRegister.toNat) := by omega
  have faults : ∀ v : World, v.indexRegister = w.indexRegister →
      ∀ x y, (drawIteration x (4096 - w.indexRegister.toNat) y).run v = .error .ramOutOfRange v := by
    intro v index x y
    simp [drawIteration, index, run_ramAt_outside v outside]
  have loop := for_loop_error _ _ (nOf opcode) (4096 - w.indexRegister.toNat) (by omega)
    (fun i within => run_drawIteration w _ _ i column row (by omega))
    (faults (w.drawnRows _ _ _) rfl _ _)
  have start : w.drawnRows ((w.vRegisters (xOf opcode)).toNat % 64)
      ((w.vRegisters (yOf opcode)).toNat % 32) 0 = w := rfl
  simp only [Nat.add_zero, Nat.mod_eq_of_lt row, start] at loop
  simp [performDxyn, loop, -bind_pure_comp]

theorem performDxyn_exact :
    outcome ((performDxyn opcode).run w) =
      execute inputs w (.draw (xOf opcode) (yOf opcode) (nOf opcode)) := by
  by_cases fits : nOf opcode = 0 ∨ w.indexRegister.toNat + nOf opcode ≤ 4096
  · rw [run_performDxyn w opcode fits]
    simp [execute, fits]
  · rw [run_performDxyn_fault w opcode (by omega) (by omega)]
    simp [execute, fits]

end Sprites

/-! ## Keys -/

section Keys
variable (inputs : TickInputs) (w : World) (opcode : DByte)

theorem performEx9e_exact :
    outcome ((performEx9e opcode).run w) = execute inputs w (.skipIfKey (xOf opcode)) := by
  by_cases bound : (w.vRegisters (xOf opcode)).toNat < 16
  · simp [performEx9e, execute, bound, run_keyStatus w bound]
  · simp [performEx9e, execute, bound, run_keyStatus_outside w (Nat.not_lt.mp bound)]

theorem performExa1_exact :
    outcome ((performExa1 opcode).run w) = execute inputs w (.skipUnlessKey (xOf opcode)) := by
  by_cases bound : (w.vRegisters (xOf opcode)).toNat < 16
  · simp [performExa1, execute, bound, run_keyStatus w bound]
  · simp [performExa1, execute, bound, run_keyStatus_outside w (Nat.not_lt.mp bound)]

theorem run_advanceWait (readings : SteadyReadings) :
    (advanceWait readings opcode).run w =
      .ok () (if w.lastOpcode = 0 then w.beginWait opcode readings else w.completeWait) := by
  by_cases latched : w.lastOpcode = 0#16
  · simp [advanceWait, latched, World.beginWait]
  · simp [advanceWait, latched, World.completeWait]

theorem run_performFx0A (readings : SteadyReadings) (instruction : opcode ≠ 0#16) :
    (performFx0A readings opcode).run w =
      .ok () (if w.lastOpcode = 0 then w.beginWait opcode readings else w.completeWait) := by
  simp [performFx0A, instruction, run_advanceWait]

/-- A key release while the CPU is stopped goes on as the instruction does. -/
theorem run_performFx0A_stopped (readings : SteadyReadings)
    (stopped : w.mainProcessTimer = some { isActive := false }) :
    (performFx0A readings 0).run w =
      .ok () (if w.lastOpcode = 0 then w.beginWait 0 readings else w.completeWait) := by
  simp [performFx0A, isCpuRunning, stopped, run_advanceWait]

theorem run_performFx0A_running (readings : SteadyReadings) (running : w.Running) :
    (performFx0A readings 0).run w = .ok () w := by
  unfold Chip8Pc.Running at running
  simp [performFx0A, isCpuRunning, running]

theorem run_performFx0A_null (readings : SteadyReadings) (null : w.mainProcessTimer = none) :
    (performFx0A readings 0).run w = .error .nullTimer w := by
  simp [performFx0A, isCpuRunning, null]

end Keys

end Chip8Emulator
