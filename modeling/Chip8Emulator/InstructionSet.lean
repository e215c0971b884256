import Chip8Emulator.Process
import Chip8Emulator.Foundations.Memory

/-! The instruction set the interpreter is for, stated without masks, loops or
exceptions in the middle: instructions with their operands, decoding by hex
digits, and the effect of each on the whole machine. `tick` is one timer tick
at this level; that `process` computes it is proved in `ProcessRefinement`. -/
namespace Chip8Emulator
open Foundations.Memory

/-- The accepted instructions with their operands. -/
inductive Instruction where
  | nop
  | clear
  | ret
  | jump (target : DByte)
  | call (target : DByte)
  | skipIfByte (x : Fin 16) (kk : Byte)
  | skipUnlessByte (x : Fin 16) (kk : Byte)
  | skipIfSame (x y : Fin 16)
  | setByte (x : Fin 16) (kk : Byte)
  | addByte (x : Fin 16) (kk : Byte)
  | copy (x y : Fin 16)
  | or (x y : Fin 16)
  | and (x y : Fin 16)
  | xor (x y : Fin 16)
  | add (x y : Fin 16)
  | sub (x y : Fin 16)
  | shiftRight (x : Fin 16)
  | subFrom (x y : Fin 16)
  | shiftLeft (x : Fin 16)
  | skipUnlessSame (x y : Fin 16)
  | setIndex (value : DByte)
  | jumpOffset (base : DByte)
  | random (x : Fin 16) (kk : Byte)
  | draw (x y : Fin 16) (n : Nat)
  | skipIfKey (x : Fin 16)
  | skipUnlessKey (x : Fin 16)
  | readDelay (x : Fin 16)
  | waitKey (x : Fin 16)
  | setDelay (x : Fin 16)
  | addIndex (x : Fin 16)
  | glyph (x : Fin 16)
  | bcd (x : Fin 16)
  | save (x : Fin 16)
  | restore (x : Fin 16)
  deriving DecidableEq

/-! ## Decoding by hex digits -/

def xOf (opcode : DByte) : Fin 16 := ⟨opcode.toNat / 256 % 16, Nat.mod_lt _ (by decide)⟩
def yOf (opcode : DByte) : Fin 16 := ⟨opcode.toNat / 16 % 16, Nat.mod_lt _ (by decide)⟩
def nOf (opcode : DByte) : Nat := opcode.toNat % 16
def kkOf (opcode : DByte) : Byte := opcode.setWidth 8
def nnnOf (opcode : DByte) : DByte := opcode &&& 0x0FFF

/-- The registers instructions use without naming them: `V0`, and the flag `VF`. -/
abbrev v0 : Fin 16 := 0
abbrev vF : Fin 16 := 15

def decode (opcode : DByte) : Option Instruction :=
  let x := xOf opcode
  let y := yOf opcode
  match opcode.toNat / 4096 with
  | 0x0 =>
    if opcode.toNat = 0x0000 then some .nop
    else if opcode.toNat = 0x00E0 then some .clear
    else if opcode.toNat = 0x00EE then some .ret
    else none
  | 0x1 => some (.jump (nnnOf opcode))
  | 0x2 => some (.call (nnnOf opcode))
  | 0x3 => some (.skipIfByte x (kkOf opcode))
  | 0x4 => some (.skipUnlessByte x (kkOf opcode))
  | 0x5 => some (.skipIfSame x y)
  | 0x6 => some (.setByte x (kkOf opcode))
  | 0x7 => some (.addByte x (kkOf opcode))
  | 0x8 =>
    match opcode.toNat % 16 with
    | 0x0 => some (.copy x y)
    | 0x1 => some (.or x y)
    | 0x2 => some (.and x y)
    | 0x3 => some (.xor x y)
    | 0x4 => some (.add x y)
    | 0x5 => some (.sub x y)
    | 0x6 => some (.shiftRight x)
    | 0x7 => some (.subFrom x y)
    | 0xE => some (.shiftLeft x)
    | _ => none
  | 0x9 => some (.skipUnlessSame x y)
  | 0xA => some (.setIndex (nnnOf opcode))
  | 0xB => some (.jumpOffset (nnnOf opcode))
  | 0xC => some (.random x (kkOf opcode))
  | 0xD => some (.draw x y (nOf opcode))
  | 0xE =>
    match opcode.toNat % 256 with
    | 0x9E => some (.skipIfKey x)
    | 0xA1 => some (.skipUnlessKey x)
    | _ => none
  | 0xF =>
    match opcode.toNat % 256 with
    | 0x07 => some (.readDelay x)
    | 0x0A => some (.waitKey x)
    | 0x15 => some (.setDelay x)
    | 0x1E => some (.addIndex x)
    | 0x29 => some (.glyph x)
    | 0x33 => some (.bcd x)
    | 0x55 => some (.save x)
    | 0x65 => some (.restore x)
    | _ => none
  | _ => none

/-- The opcodes that stand for an instruction. -/
def Instruction.Encoding (opcode : DByte) : Instruction → Prop
  | .nop => opcode.toNat = 0x0000
  | .clear => opcode.toNat = 0x00E0
  | .ret => opcode.toNat = 0x00EE
  | .jump target => opcode.toNat / 0x1000 = 0x1 ∧ target = nnnOf opcode
  | .call target => opcode.toNat / 0x1000 = 0x2 ∧ target = nnnOf opcode
  | .skipIfByte x kk => opcode.toNat / 0x1000 = 0x3 ∧ x = xOf opcode ∧ kk = kkOf opcode
  | .skipUnlessByte x kk => opcode.toNat / 0x1000 = 0x4 ∧ x = xOf opcode ∧ kk = kkOf opcode
  | .skipIfSame x y => opcode.toNat / 0x1000 = 0x5 ∧ x = xOf opcode ∧ y = yOf opcode
  | .setByte x kk => opcode.toNat / 0x1000 = 0x6 ∧ x = xOf opcode ∧ kk = kkOf opcode
  | .addByte x kk => opcode.toNat / 0x1000 = 0x7 ∧ x = xOf opcode ∧ kk = kkOf opcode
  | .copy x y => Arithmetic 0x0 x y
  | .or x y => Arithmetic 0x1 x y
  | .and x y => Arithmetic 0x2 x y
  | .xor x y => Arithmetic 0x3 x y
  | .add x y => Arithmetic 0x4 x y
  | .sub x y => Arithmetic 0x5 x y
  | .shiftRight x => Arithmetic 0x6 x (yOf opcode)
  | .subFrom x y => Arithmetic 0x7 x y
  | .shiftLeft x => Arithmetic 0xE x (yOf opcode)
  | .skipUnlessSame x y => opcode.toNat / 0x1000 = 0x9 ∧ x = xOf opcode ∧ y = yOf opcode
  | .setIndex value => opcode.toNat / 0x1000 = 0xA ∧ value = nnnOf opcode
  | .jumpOffset base => opcode.toNat / 0x1000 = 0xB ∧ base = nnnOf opcode
  | .random x kk => opcode.toNat / 0x1000 = 0xC ∧ x = xOf opcode ∧ kk = kkOf opcode
  | .draw x y n => opcode.toNat / 0x1000 = 0xD ∧ x = xOf opcode ∧ y = yOf opcode ∧ n = nOf opcode
  | .skipIfKey x => Register 0xE 0x9E x
  | .skipUnlessKey x => Register 0xE 0xA1 x
  | .readDelay x => Register 0xF 0x07 x
  | .waitKey x => Register 0xF 0x0A x
  | .setDelay x => Register 0xF 0x15 x
  | .addIndex x => Register 0xF 0x1E x
  | .glyph x => Register 0xF 0x29 x
  | .bcd x => Register 0xF 0x33 x
  | .save x => Register 0xF 0x55 x
  | .restore x => Register 0xF 0x65 x
where
  /-- `8xy_` with its last digit. -/
  Arithmetic (last : Nat) (x y : Fin 16) : Prop :=
    opcode.toNat / 0x1000 = 0x8 ∧ opcode.toNat % 0x10 = last ∧ x = xOf opcode ∧ y = yOf opcode
  /-- A leading digit, a register and a trailing byte. -/
  Register (lead low : Nat) (x : Fin 16) : Prop :=
    opcode.toNat / 0x1000 = lead ∧ opcode.toNat % 0x100 = low ∧ x = xOf opcode

theorem decode_of_encoding (encoded : Instruction.Encoding opcode instruction) :
    decode opcode = some instruction := by
  cases instruction <;>
    simp only [Instruction.Encoding, Instruction.Encoding.Arithmetic,
      Instruction.Encoding.Register] at encoded <;>
    simp [decode, encoded]

theorem encoding_of_decode (decoded : decode opcode = some instruction) :
    Instruction.Encoding opcode instruction := by
  unfold decode at decoded
  repeat' split at decoded
  all_goals first
    | contradiction
    | cases decoded
      simp_all [Instruction.Encoding, Instruction.Encoding.Arithmetic, Instruction.Encoding.Register]

/-- Decoding finds an instruction exactly where the opcode encodes it. -/
theorem decode_iff : decode opcode = some instruction ↔ Instruction.Encoding opcode instruction :=
  ⟨encoding_of_decode, decode_of_encoding⟩

/-- The opcode a pending wait for `Vx` is remembered by. -/
def waitOpcode (x : Fin 16) : DByte := BitVec.ofNat 16 (0xF00A + 256 * x.val)

/-! ## Effects -/

/-- One sprite byte combined with row `y` from column `x` on, the right part
of a byte that does not fall on a boundary wrapping within the row. -/
def drawRow (buffer : FrameBuffer) (x y : Nat) (value : Byte) : FrameBuffer :=
  if x % 8 = 0 then xorByte buffer y (x / 8) value
  else xorByte (xorByte buffer y (x / 8) (value >>> (x % 8))) y ((x / 8 + 1) % 8) (value <<< (8 - x % 8))

/-- Sprite bytes on successive rows, from row `y` on and wrapping. -/
def drawSprite (buffer : FrameBuffer) (x y : Nat) : List Byte → FrameBuffer
  | [] => buffer
  | value :: rest => drawSprite (drawRow buffer x y value) x ((y + 1) % 32) rest

/-- The cell of `ram` a stack pointer points at. -/
def stackCell (pointer : Byte) : Fin 4096 := ⟨pointer.toNat, by omega⟩

/-- The bytes a call pushes: the high one keeps four bits of the address. -/
def highByte (address : DByte) : Byte := BitVec.ofNat 8 (address.toNat / 256 % 16)
def lowByte (address : DByte) : Byte := address.setWidth 8

/-- Hundreds, tens and ones. -/
def decimalDigits (value : Byte) : List Byte := [value / 100, value / 10 % 10, value % 10]

namespace World

/-- `Vx` written and announced. -/
def writeV (w : World) (x : Fin 16) (value : Byte) : World :=
  { w with
    vRegisters := Function.update w.vRegisters x value
    emitted := .vRegisterChanged x.val value.toNat :: w.emitted }

/-- The index register written and announced. -/
def writeIndex (w : World) (value : DByte) : World :=
  { w with
    indexRegister := value
    emitted := .indexRegisterChanged value.toNat :: w.emitted }

/-- A skip that is taken when its condition holds. -/
def skipWhen (w : World) (condition : Prop) [Decidable condition] : World :=
  { w with programCounter := if condition then w.programCounter + 2 else w.programCounter }

/-- The low twelve bits of the program counter pushed, high byte first, and
control at `target`. The stack pointer wraps at eight bits. -/
def pushAndJump (w : World) (target : DByte) : World :=
  { w with
    ram := Function.update
      (Function.update w.ram (stackCell (w.stackPointer + 1)) (highByte w.programCounter))
      (stackCell (w.stackPointer + 2)) (lowByte w.programCounter)
    stackPointer := w.stackPointer + 2
    programCounter := target }

/-- The target of a jump offset by `V0`. -/
def offsetTarget (w : World) (base : DByte) : DByte := base + (w.vRegisters 0).setWidth 16

/-- The address popped: the byte below the stack pointer, then the one at it. -/
def poppedAddress (w : World) : DByte :=
  readAt w.ram (w.stackPointer - 1).toNat ++ readAt w.ram w.stackPointer.toNat

/-- `count` bytes from the index register on. -/
def bytesAtIndex (w : World) (count : Nat) : List Byte :=
  (List.range count).map fun i => readAt w.ram (w.indexRegister.toNat + i)

/-- The picture with the `n` sprite bytes drawn at the coordinates in `Vx`, `Vy`. -/
def drawn (w : World) (x y : Fin 16) (n : Nat) : FrameBuffer :=
  drawSprite w.frameBuffer ((w.vRegisters x).toNat % 64) ((w.vRegisters y).toNat % 32) (w.bytesAtIndex n)

/-- The registers `V0..Vx` in order. -/
def registersUpTo (w : World) (x : Fin 16) : List Byte :=
  (List.range (x.val + 1)).map fun i => readAt w.vRegisters i

/-- `V0..Vx` loaded from the index register on, each announced. -/
def restoreUpTo (w : World) (count : Nat) : World :=
  { w with
    vRegisters := storeList w.vRegisters 0 (w.bytesAtIndex count)
    emitted := ((List.range count).reverse.map fun (i : Nat) =>
      Signal.vRegisterChanged i (readAt w.ram (w.indexRegister.toNat + i)).toNat) ++ w.emitted }

def stopTimer (w : World) : World :=
  { w with mainProcessTimer := w.mainProcessTimer.map fun _ => { isActive := false } }

def startTimer (w : World) : World :=
  { w with mainProcessTimer := some { isActive := true } }

/-- Whether the picture is handed to the monitor: the throttle allows it or is
skipped. -/
def Shows (w : World) (checkPeriod : CheckPeriod) (readings : SteadyReadings) : Prop :=
  milliseconds (readings.now - w.lastUpdated.getD readings.first) > 100 ∨ checkPeriod = .no

instance (w : World) (checkPeriod : CheckPeriod) (readings : SteadyReadings) :
    Decidable (w.Shows checkPeriod readings) := inferInstanceAs (Decidable (_ ∨ _))

def refresh (w : World) (checkPeriod : CheckPeriod) (readings : SteadyReadings) : World :=
  { w with
    lastUpdated := some (if w.Shows checkPeriod readings then readings.now
      else w.lastUpdated.getD readings.first)
    emitted := if w.Shows checkPeriod readings then .frameBufferChanged w.frameBuffer :: w.emitted
      else w.emitted }

/-- A wait entered with `opcode` latched. -/
def beginWait (w : World) (opcode : DByte) (readings : SteadyReadings) : World :=
  (refresh { w with lastOpcode := opcode } .no readings).stopTimer

/-- A latched wait completed with the last active key. -/
def completeWait (w : World) : World :=
  { (w.writeV (xOf w.lastOpcode) (BitVec.ofInt 8 w.lastActiveKey)).startTimer with lastOpcode := 0x0000 }

/-- The delay timer after a tick at `now`. -/
def delayAfter (w : World) (now : Time) : DByte :=
  let duration := sixtieths (now - w.lastTime)
  if duration > w.delayTimer then 0 else w.delayTimer - duration

/-- What `process` does after the instruction. -/
def finish (w : World) (inputs : TickInputs) : World :=
  { refresh { w with delayTimer := w.delayAfter inputs.now } .yes inputs.refresh with
    mainProcessTimer := if w.programCounter.toNat = ramSize then w.stopTimer.mainProcessTimer
      else w.mainProcessTimer }

/-- The opcode at the program counter. -/
def opcodeAt (w : World) : DByte :=
  readAt w.ram w.programCounter.toNat ++ readAt w.ram (w.programCounter.toNat + 1)

/-- The fetched opcode announced and the program counter moved past it. -/
def fetched (w : World) : World :=
  { w with
    emitted := .programCounterChanged w.programCounter.toNat ::
      .currentOpcodeChanged w.opcodeAt.toNat :: w.emitted
    programCounter := w.programCounter + 2 }

end World

/-- The effect of one instruction, the program counter already past it. -/
def execute (inputs : TickInputs) (w : World) : Instruction → Except Fault World
  | .nop => .ok w
  | .clear => .ok { w with frameBuffer := fun _ _ => 0 }
  | .ret => .ok { w with programCounter := w.poppedAddress, stackPointer := w.stackPointer - 2 }
  | .jump target => .ok { w with programCounter := target }
  | .call target => .ok (w.pushAndJump target)
  | .skipIfByte x kk => .ok (w.skipWhen (w.vRegisters x = kk))
  | .skipUnlessByte x kk => .ok (w.skipWhen (w.vRegisters x ≠ kk))
  | .skipIfSame x y => .ok (w.skipWhen (w.vRegisters x = w.vRegisters y))
  | .skipUnlessSame x y => .ok (w.skipWhen (w.vRegisters x ≠ w.vRegisters y))
  | .setByte x kk => .ok (w.writeV x kk)
  | .addByte x kk => .ok (w.writeV x (w.vRegisters x + kk))
  | .copy x y => .ok (w.writeV x (w.vRegisters y))
  | .or x y => .ok (w.writeV x (w.vRegisters x ||| w.vRegisters y))
  | .and x y => .ok (w.writeV x (w.vRegisters x &&& w.vRegisters y))
  | .xor x y => .ok (w.writeV x (w.vRegisters x ^^^ w.vRegisters y))
  | .add x y =>
    let carry : Byte := if (w.vRegisters x).toNat + (w.vRegisters y).toNat > 255 then 1 else 0
    .ok ((w.writeV 15 carry).writeV x (w.vRegisters x + w.vRegisters y))
  | .sub x y =>
    let noBorrow : Byte := if w.vRegisters x < w.vRegisters y then 0 else 1
    .ok ((w.writeV x (w.vRegisters x - w.vRegisters y)).writeV 15 noBorrow)
  | .subFrom x y =>
    let noBorrow : Byte := if w.vRegisters y < w.vRegisters x then 0 else 1
    .ok ((w.writeV x (w.vRegisters y - w.vRegisters x)).writeV 15 noBorrow)
  | .shiftRight x =>
    let flagged := w.writeV 15 (w.vRegisters x &&& 1)
    .ok (flagged.writeV x (flagged.vRegisters x >>> 1))
  | .shiftLeft x =>
    let flagged := w.writeV 15 (w.vRegisters x >>> 7)
    .ok (flagged.writeV x (flagged.vRegisters x <<< 1))
  | .setIndex value => .ok (w.writeIndex value)
  | .jumpOffset base => .ok { w with programCounter := w.offsetTarget base }
  | .random x kk => .ok (w.writeV x (BitVec.ofNat 8 inputs.rand &&& kk))
  | .draw x y n =>
    if n = 0 ∨ w.indexRegister.toNat + n ≤ 4096 then
      .ok { w with frameBuffer := w.drawn x y n }
    else .error .ramOutOfRange
  | .skipIfKey x =>
    if bound : (w.vRegisters x).toNat < 16 then
      .ok (w.skipWhen (w.interestedKeysStatuses ⟨(w.vRegisters x).toNat, bound⟩ = 1))
    else .error .keyStatusOverrun
  | .skipUnlessKey x =>
    if bound : (w.vRegisters x).toNat < 16 then
      .ok (w.skipWhen (w.interestedKeysStatuses ⟨(w.vRegisters x).toNat, bound⟩ = 0))
    else .error .keyStatusOverrun
  | .readDelay x => .ok (w.writeV x (w.delayTimer.setWidth 8))
  | .waitKey x =>
    .ok (if w.lastOpcode = 0 then w.beginWait (waitOpcode x) inputs.wait else w.completeWait)
  | .setDelay x => .ok { w with delayTimer := (w.vRegisters x).setWidth 16 }
  | .addIndex x => .ok (w.writeIndex (w.indexRegister + (w.vRegisters x).setWidth 16))
  | .glyph x => .ok { w with indexRegister := BitVec.ofNat 16 (5 * (w.vRegisters x).toNat) }
  | .bcd x =>
    if w.indexRegister.toNat ≤ 4093 then
      .ok { w with ram := storeList w.ram w.indexRegister.toNat (decimalDigits (w.vRegisters x)) }
    else .error .ramOutOfRange
  | .save x =>
    if w.indexRegister.toNat + x.val ≤ 4095 then
      .ok { w with ram := storeList w.ram w.indexRegister.toNat (w.registersUpTo x) }
    else .error .ramOutOfRange
  | .restore x =>
    if w.indexRegister.toNat + x.val ≤ 4095 then .ok (w.restoreUpTo (x.val + 1))
    else .error .ramOutOfRange

/-- One timer tick: fetch, decode, execute, finish. -/
def tick (inputs : TickInputs) (w : World) : Except Fault World :=
  if w.programCounter.toNat ≤ 4094 then
    match decode w.opcodeAt with
    | none => .error .abort
    | some instruction => (execute inputs w.fetched instruction).map (World.finish · inputs)
  else .error .ramOutOfRange

end Chip8Emulator
