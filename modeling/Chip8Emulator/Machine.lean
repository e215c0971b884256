import Chip8Emulator.Foundations.Loops

/-! The emulated machine as `chip8_pc.h` declares it: the object's fields, the
two function-local statics that live outside it, the signals it has emitted,
and the checked accesses every instruction handler goes through. Fixed-size
vectors are functions on their index type, so an access is in range exactly
where the source's `at` does not throw or its unchecked index is defined.
Logging to stdout is assumed to succeed and is left out. -/
namespace Chip8Emulator
open Foundations.Loops

/-- `Byte_t`. -/
abbrev Byte := BitVec 8

/-- `DByte_t`. -/
abbrev DByte := BitVec 16

/-- `size_t`. -/
abbrev SizeT := BitVec 64

/-- A clock reading in nanoseconds, the period of both clocks. -/
abbrev Time := Int

/-- `frame_buffer[graphics_height][graphics_width / 8]`. -/
abbrev FrameBuffer := Fin 32 → Fin 8 → Byte

def userMemoryBase : DByte := 0x0200
def stackPointerBase : DByte := 0x0080 - 1
def ramSize : Nat := 4096

def fonts : List (List Byte) := [
  [0xF0, 0x90, 0x90, 0x90, 0xF0],
  [0xF0, 0x10, 0xF0, 0x80, 0xF0],
  [0x20, 0x60, 0x20, 0x20, 0x70],
  [0xF0, 0x10, 0xF0, 0x10, 0xF0],
  [0x90, 0x90, 0xF0, 0x10, 0x10],
  [0xF0, 0x80, 0xF0, 0x10, 0xF0],
  [0xF0, 0x80, 0xF0, 0x90, 0xF0],
  [0xF0, 0x10, 0x20, 0x40, 0x40],
  [0xF0, 0x90, 0xF0, 0x90, 0xF0],
  [0xF0, 0x90, 0xF0, 0x10, 0xF0],
  [0xF0, 0x90, 0xF0, 0x90, 0x90],
  [0xE0, 0x90, 0xE0, 0x90, 0xE0],
  [0xF0, 0x80, 0x80, 0x80, 0xF0],
  [0xE0, 0x90, 0x90, 0x90, 0xE0],
  [0xF0, 0x80, 0xF0, 0x80, 0xF0],
  [0xF0, 0x80, 0xF0, 0x80, 0x80]]

/-- What the emulator observes of `QTimer`: whether it is running. -/
structure QTimer where
  isActive : Bool
  deriving DecidableEq

/-- The fields of `CHIP8_PC`. -/
structure Chip8Pc where
  /-- `none` is the null pointer the constructor stores. -/
  mainProcessTimer : Option QTimer
  lastTime : Time
  delayTimer : DByte
  vRegisters : Fin 16 → Byte
  indexRegister : DByte
  programCounter : DByte
  stackPointer : Byte
  ram : Fin 4096 → Byte
  frameBuffer : FrameBuffer
  lastActiveKey : Int
  interestedKeysStatuses : Fin 16 → Int

/-- The function-local statics, shared by every object of the process. -/
structure Statics where
  /-- `last_opcode` of `performFx0A`. -/
  lastOpcode : DByte
  /-- `lastUpdated` of `sendSignalToMonitor`, absent before its first call. -/
  lastUpdated : Option Time

inductive Signal where
  /-- The slot reads the buffer during the emission, so the signal carries its
  contents. -/
  | frameBufferChanged (buffer : FrameBuffer)
  | indexRegisterChanged (value : Int)
  | programCounterChanged (value : Int)
  | currentOpcodeChanged (value : Int)
  | vRegisterChanged (i value : Int)

/-- One object, the statics, and the signals emitted so far, newest first. -/
structure World extends Chip8Pc, Statics where
  emitted : List Signal

/-- The ways an entry point fails: the exceptions of the checked accesses,
`abort`, and the accesses the source does not check. -/
inductive Fault where
  /-- `std::out_of_range` from `ram.at`. -/
  | ramOutOfRange
  /-- `std::out_of_range` from `v_registers.at`. -/
  | registerOutOfRange
  /-- `std::out_of_range` from the digits of `convertToBcd`. -/
  | bcdOutOfRange
  /-- `std::invalid_argument` from `extractSubsequence`. -/
  | invalidArgument
  /-- `abort` on an unknown instruction. -/
  | abort
  /-- An index outside `frame_buffer`. -/
  | frameBufferOverrun
  /-- An index outside `interested_keys_statuses`. -/
  | keyStatusOverrun
  /-- `main_process_timer` dereferenced while null. -/
  | nullTimer
  /-- `load` stores past the end of `ram`. -/
  | loadOverrun
  deriving DecidableEq

/-- A member function: it updates the world, and a fault keeps the world it was
raised in. -/
abbrev Cpu := EStateM Fault World

/-- The statics before any call. -/
def Statics.initial : Statics where
  lastOpcode := 0x0000
  lastUpdated := none

/-- `CHIP8_PC::CHIP8_PC`, with the reading of its one clock. The fonts are
copied one after another from address zero. -/
def Chip8Pc.construct (now : Time) : Chip8Pc where
  mainProcessTimer := none
  lastTime := now
  delayTimer := 0
  vRegisters := fun _ => 0
  indexRegister := 0
  programCounter := userMemoryBase
  stackPointer := stackPointerBase.setWidth 8
  ram := fun address => fonts.flatten.getD address 0
  frameBuffer := fun _ _ => 0
  lastActiveKey := 0
  interestedKeysStatuses := fun _ => 0

/-- A freshly constructed machine in a fresh process. -/
def World.construct (now : Time) : World where
  toChip8Pc := Chip8Pc.construct now
  toStatics := Statics.initial
  emitted := []

/-! ## Accesses -/

/-- `memory.at(address)`. -/
def memoryAt (memory : Fin 4096 → Byte) (address : Nat) : Except Fault Byte :=
  if bound : address < 4096 then .ok (memory ⟨address, bound⟩) else .error .ramOutOfRange

/-- Reading `ram.at(address)`. -/
def ramAt (address : Nat) : Cpu Byte := do
  memoryAt (← get).ram address

/-- Assigning to `ram.at(address)`. -/
def setRamAt (address : Nat) (value : Byte) : Cpu Unit :=
  if bound : address < 4096 then
    modify fun w => { w with ram := Function.update w.ram ⟨address, bound⟩ value }
  else throw .ramOutOfRange

def emit (signal : Signal) : Cpu Unit :=
  modify fun w => { w with emitted := signal :: w.emitted }

def setVRegister (i : Nat) (value : Byte) : Cpu Unit := do
  if bound : i < 16 then
    modify fun w => { w with vRegisters := Function.update w.vRegisters ⟨i, bound⟩ value }
  else throw .registerOutOfRange
  emit (.vRegisterChanged i value.toNat)

def readVRegister (i : Nat) : Cpu Byte := do
  if bound : i < 16 then return (← get).vRegisters ⟨i, bound⟩ else throw .registerOutOfRange

/-- `interested_keys_statuses[i]`, which is unchecked. -/
def keyStatus (i : Nat) : Cpu Int := do
  if bound : i < 16 then return (← get).interestedKeysStatuses ⟨i, bound⟩ else throw .keyStatusOverrun

/-- One byte of a picture combined with another. -/
def xorByte (buffer : FrameBuffer) (y i : Nat) (value : Byte) : FrameBuffer :=
  fun row column => if row.val = y ∧ column.val = i then buffer row column ^^^ value else buffer row column

/-- `frame_buffer[y][i] ^= value`, which is unchecked. -/
def xorFrameBuffer (y i : Nat) (value : Byte) : Cpu Unit :=
  if y < 32 ∧ i < 8 then modify fun w => { w with frameBuffer := xorByte w.frameBuffer y i value }
  else throw .frameBufferOverrun

end Chip8Emulator
