import Chip8Emulator.Machine

/-! The helper functions and the instruction handlers of `chip8_pc.cpp`, one
definition for each, in the order the source states its effects. Operands are
cut out of the opcode by `extractSubsequence` exactly where a handler does so.
Readings of the clocks and results of `rand` are arguments: an event brings
the readings its calls return. -/
namespace Chip8Emulator
open Foundations.Loops

/-! ## Helper functions -/

/-- The two bytes of the opcode, the first one high. -/
def getOpcode (memory : Fin 4096 → Byte) (address : DByte) : Except Fault DByte := do
  let opcode : DByte := (← memoryAt memory address.toNat).setWidth 16
  let opcode := opcode <<< 8
  return opcode + (← memoryAt memory (address.toNat + 1)).setWidth 16

/-- `count` rounds of the loop of `convertToBcd`, which divides `num` as it goes. -/
def bcdDigits : Nat → Byte → List Byte
  | 0, _ => []
  | count + 1, num => num % 10 :: bcdDigits count (num / 10)

/-- The digits are produced least significant first. -/
def convertToBcd (num : Byte) : List Byte := bcdDigits 3 num

/-- `result.at(i)` on the digits. -/
def bcdAt (digits : List Byte) (i : Nat) : Except Fault Byte :=
  match digits[i]? with
  | some digit => .ok digit
  | none => .error .bcdOutOfRange

def isInBounds (value lowerBound upperBound : SizeT) : Bool :=
  lowerBound ≤ value && value < upperBound

/-- The last index wraps, as `size_t` arithmetic does. -/
def extractSubsequence (value : DByte) (start len : SizeT) : Except Fault DByte :=
  let maxLen : SizeT := 4
  let endIndex : SizeT := start + len - 1
  if !isInBounds start 0 maxLen || !isInBounds endIndex 0 maxLen then .error .invalidArgument
  else
    let leftShift : SizeT := start * 8 / 2
    let rightShift : SizeT := (maxLen - 1 - endIndex) * 8 / 2
    .ok ((value &&& (BitVec.allOnes 16 >>> leftShift.toNat)) >>> rightShift.toNat)

/-! ## Timer and monitor -/

/-- A missing timer is created; then it is started. -/
def startCpu : Cpu Unit := do
  if (← get).mainProcessTimer = none then
    modify fun w => { w with mainProcessTimer := some { isActive := false } }
  modify fun w => { w with mainProcessTimer := some { isActive := true } }

/-- The timer is dereferenced without a test. -/
def isCpuRunning : Cpu Bool := do
  match (← get).mainProcessTimer with
  | some timer => return timer.isActive
  | none => throw .nullTimer

def stopCpu : Cpu Unit := do
  if (← get).mainProcessTimer ≠ none then
    modify fun w => { w with mainProcessTimer := some { isActive := false } }

inductive CheckPeriod where
  | yes
  | no
  deriving DecidableEq

/-- What `steady_clock::now()` returns in one call of `sendSignalToMonitor`:
`first` initialises the static and is read by the first call only. -/
structure SteadyReadings where
  first : Time
  now : Time

/-- `duration_cast<milliseconds>`, which truncates. -/
def milliseconds (duration : Time) : Int := duration.tdiv 1000000

def sendSignalToMonitor (checkPeriod : CheckPeriod) (readings : SteadyReadings) : Cpu Unit := do
  let lastUpdated := (← get).lastUpdated.getD readings.first
  modify fun w => { w with lastUpdated := some lastUpdated }
  if milliseconds (readings.now - lastUpdated) > 100 ∨ checkPeriod = .no then
    emit (.frameBufferChanged (← get).frameBuffer)
    modify fun w => { w with lastUpdated := some readings.now }

def clearFrameBuffer : Cpu Unit :=
  modify fun w => { w with frameBuffer := fun _ _ => 0 }

/-! ## Instruction handlers -/

def perform00E0 (_opcode : DByte) : Cpu Unit := clearFrameBuffer

/-- A pointer below the base is logged and nothing else. -/
def perform00EE (_opcode : DByte) : Cpu Unit := do
  let newPcValue : DByte := (← ramAt (← get).stackPointer.toNat).setWidth 16
  modify fun w => { w with stackPointer := w.stackPointer - 1 }
  let newPcValue := ((← ramAt (← get).stackPointer.toNat).setWidth 16 <<< 8) + newPcValue
  modify fun w => { w with stackPointer := w.stackPointer - 1 }
  modify fun w => { w with programCounter := newPcValue }

def perform1nnn (opcode : DByte) : Cpu Unit := do
  let value ← extractSubsequence opcode 1 3
  modify fun w => { w with programCounter := value }

def perform2nnn (opcode : DByte) : Cpu Unit := do
  modify fun w => { w with stackPointer := w.stackPointer + 1 }
  let w ← get
  setRamAt w.stackPointer.toNat (((w.programCounter &&& 0x0F00) >>> 8).setWidth 8)
  modify fun w => { w with stackPointer := w.stackPointer + 1 }
  let w ← get
  setRamAt w.stackPointer.toNat ((w.programCounter &&& 0x00FF).setWidth 8)
  modify fun w => { w with programCounter := opcode &&& 0x0FFF }

/-- `program_counter += 2` of a taken skip. -/
def skipNext : Cpu Unit :=
  modify fun w => { w with programCounter := w.programCounter + 2 }

def perform3xkk (opcode : DByte) : Cpu Unit := do
  let registerId ← extractSubsequence opcode 1 1
  let value ← extractSubsequence opcode 2 2
  if (← readVRegister registerId.toNat).setWidth 16 = value then skipNext

def perform4xkk (opcode : DByte) : Cpu Unit := do
  let registerId ← extractSubsequence opcode 1 1
  let value ← extractSubsequence opcode 2 2
  if (← readVRegister registerId.toNat).setWidth 16 ≠ value then skipNext

def perform5xy0 (opcode : DByte) : Cpu Unit := do
  let vxId ← extractSubsequence opcode 1 1
  let vyId ← extractSubsequence opcode 2 1
  if (← readVRegister vxId.toNat) = (← readVRegister vyId.toNat) then skipNext

def perform6xkk (opcode : DByte) : Cpu Unit := do
  let registerId ← extractSubsequence opcode 1 1
  let newValue ← extractSubsequence opcode 2 2
  setVRegister registerId.toNat (newValue.setWidth 8)

def perform7xkk (opcode : DByte) : Cpu Unit := do
  let registerId ← extractSubsequence opcode 1 1
  let value ← extractSubsequence opcode 2 2
  setVRegister registerId.toNat (((← readVRegister registerId.toNat).setWidth 16 + value).setWidth 8)

def perform8xy0 (opcode : DByte) : Cpu Unit := do
  let vxId ← extractSubsequence opcode 1 1
  let vyId ← extractSubsequence opcode 2 1
  setVRegister vxId.toNat (← readVRegister vyId.toNat)

def perform8xy1 (opcode : DByte) : Cpu Unit := do
  let vxId ← extractSubsequence opcode 1 1
  let vyId ← extractSubsequence opcode 2 1
  setVRegister vxId.toNat ((← readVRegister vxId.toNat) ||| (← readVRegister vyId.toNat))

def perform8xy2 (opcode : DByte) : Cpu Unit := do
  let vxId ← extractSubsequence opcode 1 1
  let vyId ← extractSubsequence opcode 2 1
  setVRegister vxId.toNat ((← readVRegister vxId.toNat) &&& (← readVRegister vyId.toNat))

def perform8xy3 (opcode : DByte) : Cpu Unit := do
  let vxId ← extractSubsequence opcode 1 1
  let vyId ← extractSubsequence opcode 2 1
  setVRegister vxId.toNat ((← readVRegister vxId.toNat) ^^^ (← readVRegister vyId.toNat))

/-- The flag is written before the result. -/
def perform8xy4 (opcode : DByte) : Cpu Unit := do
  let vxId ← extractSubsequence opcode 1 1
  let vyId ← extractSubsequence opcode 2 1
  let result : DByte :=
    (← readVRegister vxId.toNat).setWidth 16 + (← readVRegister vyId.toNat).setWidth 16
  if result > 0xFF then setVRegister 0xF 1 else setVRegister 0xF 0
  setVRegister vxId.toNat (result.setWidth 8)

/-- The result is written before the flag. -/
def perform8xy5 (opcode : DByte) : Cpu Unit := do
  let vxId ← extractSubsequence opcode 1 1
  let vyId ← extractSubsequence opcode 2 1
  let vxValue ← readVRegister vxId.toNat
  let vyValue ← readVRegister vyId.toNat
  setVRegister vxId.toNat (vxValue - vyValue)
  if vxValue < vyValue then setVRegister 0xF 0x0 else setVRegister 0xF 0x1

/-- `Vx` is read again after the flag is written. -/
def perform8xy6 (opcode : DByte) : Cpu Unit := do
  let vxId ← extractSubsequence opcode 1 1
  setVRegister 0xF ((← readVRegister vxId.toNat) &&& 0x1)
  setVRegister vxId.toNat ((← readVRegister vxId.toNat) >>> 1)

def perform8xy7 (opcode : DByte) : Cpu Unit := do
  let vxId ← extractSubsequence opcode 1 1
  let vyId ← extractSubsequence opcode 2 1
  let vxValue ← readVRegister vxId.toNat
  let vyValue ← readVRegister vyId.toNat
  setVRegister vxId.toNat (vyValue - vxValue)
  if vyValue < vxValue then setVRegister 0xF 0x0 else setVRegister 0xF 0x1

def perform8xyE (opcode : DByte) : Cpu Unit := do
  let vxId ← extractSubsequence opcode 1 1
  setVRegister 0xF (((← readVRegister vxId.toNat) &&& 0x80) >>> 7)
  setVRegister vxId.toNat ((← readVRegister vxId.toNat) <<< 1)

def perform9xy0 (opcode : DByte) : Cpu Unit := do
  let vxId ← extractSubsequence opcode 1 1
  let vyId ← extractSubsequence opcode 2 1
  if (← readVRegister vxId.toNat) ≠ (← readVRegister vyId.toNat) then skipNext

def performAnnn (opcode : DByte) : Cpu Unit := do
  let newValue ← extractSubsequence opcode 1 3
  modify fun w => { w with indexRegister := newValue }
  emit (.indexRegisterChanged newValue.toNat)

def performBnnn (opcode : DByte) : Cpu Unit := do
  let newValue ← extractSubsequence opcode 1 3
  modify fun w => { w with programCounter := newValue }
  let v0 ← readVRegister 0x0
  modify fun w => { w with programCounter := w.programCounter + v0.setWidth 16 }

/-- `rand` is the value the call of `rand()` returns. -/
def performCxkk (rand : Nat) (opcode : DByte) : Cpu Unit := do
  let registerId ← extractSubsequence opcode 1 1
  let newValue ← extractSubsequence opcode 2 2
  let randomValue : Byte := BitVec.ofNat 8 rand
  setVRegister registerId.toNat ((randomValue.setWidth 16 &&& newValue).setWidth 8)

/-- One iteration of the loop of `performDxyn`; the row index `y` is the
variable the loop carries. -/
def drawIteration (x i y : Nat) : Cpu Nat := do
  let value ← ramAt ((← get).indexRegister.toNat + i)
  let byteIndex := x / 8
  let offset := x % 8
  if offset = 0 then
    xorFrameBuffer y byteIndex value
  else
    let firstHalf : Byte := value >>> offset
    let secondHalf : Byte := value <<< (8 - offset)
    xorFrameBuffer y byteIndex firstHalf
    xorFrameBuffer y ((byteIndex + 1) % 8) secondHalf
  return (y + 1) % 32

def performDxyn (opcode : DByte) : Cpu Unit := do
  let vxId ← extractSubsequence opcode 1 1
  let vyId ← extractSubsequence opcode 2 1
  let nOp ← extractSubsequence opcode 3 1
  let x := (← readVRegister vxId.toNat).toNat % 64
  let y := (← readVRegister vyId.toNat).toNat % 32
  let _ ← forLoop nOp.toNat y (drawIteration x)

def performEx9e (opcode : DByte) : Cpu Unit := do
  let registerId ← extractSubsequence opcode 1 1
  if (← keyStatus (← readVRegister registerId.toNat).toNat) = 1 then skipNext

def performExa1 (opcode : DByte) : Cpu Unit := do
  let registerId ← extractSubsequence opcode 1 1
  if (← keyStatus (← readVRegister registerId.toNat).toNat) = 0 then skipNext

def performFx07 (opcode : DByte) : Cpu Unit := do
  let registerId ← extractSubsequence opcode 1 1
  setVRegister registerId.toNat ((← get).delayTimer.setWidth 8)

/-- The part of `performFx0A` after its early return: a wait is entered with
the opcode latched, or the latched one is completed. -/
def advanceWait (readings : SteadyReadings) (opcode : DByte) : Cpu Unit := do
  let lastOpcode := (← get).lastOpcode
  if lastOpcode = 0x0000 then
    modify fun w => { w with lastOpcode := opcode }
    sendSignalToMonitor .no readings
    stopCpu
  else
    let registerId ← extractSubsequence lastOpcode 1 1
    setVRegister registerId.toNat (BitVec.ofInt 8 (← get).lastActiveKey)
    startCpu
    modify fun w => { w with lastOpcode := 0x0000 }

/-- Called by `process` with the instruction and by a key release with zero;
only the latter asks the timer whether the CPU runs. -/
def performFx0A (readings : SteadyReadings) (opcode : DByte) : Cpu Unit := do
  let notWaiting ← if opcode = 0x0000 then isCpuRunning else pure false
  if notWaiting then return
  advanceWait readings opcode

def performFx15 (opcode : DByte) : Cpu Unit := do
  let registerId ← extractSubsequence opcode 1 1
  let value ← readVRegister registerId.toNat
  modify fun w => { w with delayTimer := value.setWidth 16 }

def performFx1E (opcode : DByte) : Cpu Unit := do
  let registerId ← extractSubsequence opcode 1 1
  let value ← readVRegister registerId.toNat
  modify fun w => { w with indexRegister := w.indexRegister + value.setWidth 16 }
  emit (.indexRegisterChanged (← get).indexRegister.toNat)

/-- The product with `std::size(fonts[0])` is truncated; no signal is emitted. -/
def performFx29 (opcode : DByte) : Cpu Unit := do
  let registerId ← extractSubsequence opcode 1 1
  let value ← readVRegister registerId.toNat
  modify fun w => { w with indexRegister := BitVec.ofNat 16 (value.toNat * (fonts.headD []).length) }

/-- One iteration of the loop of `performFx33`, the digits read back reversed. -/
def bcdIteration (numInBcd : List Byte) (i : Nat) (_ : Unit) : Cpu Unit := do
  setRamAt ((← get).indexRegister.toNat + i) (← bcdAt numInBcd (2 - i))

def performFx33 (opcode : DByte) : Cpu Unit := do
  let registerId ← extractSubsequence opcode 1 1
  let numInBcd := convertToBcd (← readVRegister registerId.toNat)
  forLoop 3 () (bcdIteration numInBcd)

/-- One iteration of the loop of `performFx55`. -/
def saveIteration (i : Nat) (_ : Unit) : Cpu Unit := do
  setRamAt ((← get).indexRegister.toNat + i) (← readVRegister i)

def performFx55 (opcode : DByte) : Cpu Unit := do
  let upperRegisterId ← extractSubsequence opcode 1 1
  forLoop (upperRegisterId.toNat + 1) () saveIteration

/-- One iteration of the loop of `performFx65`. -/
def restoreIteration (i : Nat) (_ : Unit) : Cpu Unit := do
  setVRegister i (← ramAt ((← get).indexRegister.toNat + i))

def performFx65 (opcode : DByte) : Cpu Unit := do
  let upperRegisterId ← extractSubsequence opcode 1 1
  forLoop (upperRegisterId.toNat + 1) () restoreIteration

end Chip8Emulator
