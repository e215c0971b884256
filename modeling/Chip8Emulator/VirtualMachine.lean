import Chip8Emulator.SpriteDrawing

/-! The machine a program is written for. Its calls are a list of addresses
outside memory, its picture a set of lit pixels, its keypad the keys that are
down, and a wait names the register it is for. What has no meaning here is
refused, among it every access to the stretch of memory the emulator keeps its
call stack in. -/
namespace Chip8Emulator.VirtualMachine
open Foundations.Memory Foundations.Toggles SpriteDrawing

inductive Power where
  | off
  | stopped
  | running
  deriving DecidableEq

structure Machine where
  registers : Fin 16 → Byte
  index : DByte
  counter : Nat
  /-- Where the pending calls return to, the latest first. -/
  calls : List Nat
  memory : Fin 4096 → Byte
  picture : Pixel → Bool
  delay : Nat
  down : Fin 16 → Bool
  waiting : Option (Fin 16)
  power : Power

/-! ## What an instruction needs -/

/-- `count` bytes from `start` on lie in memory a program has. -/
def Usable (start count : Nat) : Prop :=
  count = 0 ∨ start + count ≤ 0x80 ∨ (0x100 ≤ start ∧ start + count ≤ 0x1000)

instance (start count : Nat) : Decidable (Usable start count) := inferInstanceAs (Decidable (_ ∨ _))

/-- How many bytes from the index on an instruction reads or writes. -/
def reach : Instruction → Nat
  | .draw _ _ n => n
  | .bcd _ => 3
  | .save x | .restore x => x.val + 1
  | _ => 0

/-- The register that names the key an instruction asks for. -/
def keyRegister : Instruction → Option (Fin 16)
  | .skipIfKey x | .skipUnlessKey x => some x
  | _ => none

namespace Machine

/-- Switched off, with the glyphs in memory and the counter at the user base. -/
def initial : Machine where
  registers := fun _ => 0
  index := 0
  counter := 0x200
  calls := []
  memory := fun address => fonts.flatten.getD address 0
  picture := fun _ => false
  delay := 0
  down := fun _ => false
  waiting := none
  power := .off

/-! ## One instruction -/

def fetch (m : Machine) : Option Instruction :=
  if Usable m.counter 2 then decode (readAt m.memory m.counter ++ readAt m.memory (m.counter + 1)) else none

/-- What an instruction needs. A call leaves room for its return address, and
there is an instruction at that address. -/
structure Permits (m : Machine) (instruction : Instruction) : Prop where
  range : Usable m.index.toNat (reach instruction)
  call : instruction.isCall → m.calls.length < 64 ∧ m.counter ≤ 0xFFC
  ret : instruction = .ret → m.calls ≠ []
  key : ∀ x ∈ keyRegister instruction, (m.registers x).toNat < 16

instance (m : Machine) (instruction : Instruction) : Decidable (m.Permits instruction) :=
  decidable_of_iff
    (Usable m.index.toNat (reach instruction) ∧
      (instruction.isCall → m.calls.length < 64 ∧ m.counter ≤ 0xFFC) ∧ (instruction = .ret → m.calls ≠ []) ∧
      ∀ x ∈ keyRegister instruction, (m.registers x).toNat < 16)
    ⟨fun ⟨range, call, ret, key⟩ => ⟨range, call, ret, key⟩,
      fun permits => ⟨permits.range, permits.call, permits.ret, permits.key⟩⟩

/-- The bytes from the index on. -/
def bytes (m : Machine) (count : Nat) : List Byte :=
  (List.range count).map fun i => readAt m.memory (m.index.toNat + i)

def registersAfter (m : Machine) (rand : Nat) : Instruction → Fin 16 → Byte
  | .setByte x kk => Function.update m.registers x kk
  | .addByte x kk => Function.update m.registers x (m.registers x + kk)
  | .copy x y => Function.update m.registers x (m.registers y)
  | .or x y => Function.update m.registers x (m.registers x ||| m.registers y)
  | .and x y => Function.update m.registers x (m.registers x &&& m.registers y)
  | .xor x y => Function.update m.registers x (m.registers x ^^^ m.registers y)
  | .add x y =>
    Function.update
      (Function.update m.registers vF (if 255 < (m.registers x).toNat + (m.registers y).toNat then 1 else 0))
      x (m.registers x + m.registers y)
  | .sub x y =>
    Function.update (Function.update m.registers x (m.registers x - m.registers y))
      vF (if m.registers x < m.registers y then 0 else 1)
  | .subFrom x y =>
    Function.update (Function.update m.registers x (m.registers y - m.registers x))
      vF (if m.registers y < m.registers x then 0 else 1)
  | .shiftRight x =>
    let flagged := Function.update m.registers vF (m.registers x &&& 1)
    Function.update flagged x (flagged x >>> 1)
  | .shiftLeft x =>
    let flagged := Function.update m.registers vF (m.registers x >>> 7)
    Function.update flagged x (flagged x <<< 1)
  | .random x kk => Function.update m.registers x (BitVec.ofNat 8 rand &&& kk)
  | .readDelay x => Function.update m.registers x (BitVec.ofNat 8 m.delay)
  | .restore x => storeList m.registers 0 (m.bytes (x.val + 1))
  | _ => m.registers

def indexAfter (m : Machine) : Instruction → DByte
  | .setIndex value => value
  | .addIndex x => m.index + (m.registers x).setWidth 16
  | .glyph x => BitVec.ofNat 16 (5 * (m.registers x).toNat)
  | _ => m.index

/-- Past the next instruction, or past the one after it. -/
def skip (m : Machine) (condition : Prop) [Decidable condition] : Nat :=
  m.counter + if condition then 4 else 2

def counterAfter (m : Machine) : Instruction → Nat
  | .ret => m.calls.headD 0
  | .jump target | .call target => target.toNat
  | .jumpOffset base => base.toNat + (m.registers v0).toNat
  | .skipIfByte x kk => m.skip (m.registers x = kk)
  | .skipUnlessByte x kk => m.skip (m.registers x ≠ kk)
  | .skipIfSame x y => m.skip (m.registers x = m.registers y)
  | .skipUnlessSame x y => m.skip (m.registers x ≠ m.registers y)
  | .skipIfKey x => m.skip (readAt m.down (m.registers x).toNat = true)
  | .skipUnlessKey x => m.skip (readAt m.down (m.registers x).toNat = false)
  | _ => m.counter + 2

def callsAfter (m : Machine) : Instruction → List Nat
  | .call _ => (m.counter + 2) :: m.calls
  | .ret => m.calls.tail
  | _ => m.calls

def memoryAfter (m : Machine) : Instruction → Fin 4096 → Byte
  | .bcd x => storeList m.memory m.index.toNat (decimalDigits (m.registers x))
  | .save x =>
    storeList m.memory m.index.toNat ((List.range (x.val + 1)).map fun i => readAt m.registers i)
  | _ => m.memory

/-- A sprite toggles the pixels its bits land on. -/
def pictureAfter (m : Machine) : Instruction → Pixel → Bool
  | .clear => fun _ => false
  | .draw x y n => toggleAll m.picture (Draw.pixels ⟨m.registers x, m.registers y, m.bytes n⟩)
  | _ => m.picture

def delayAfter (m : Machine) : Instruction → Nat
  | .setDelay x => (m.registers x).toNat
  | _ => m.delay

def waitingAfter (m : Machine) : Instruction → Option (Fin 16)
  | .waitKey x => some x
  | _ => m.waiting

/-- A wait stops the machine, and so does the end of memory. -/
def powerAfter (m : Machine) (instruction : Instruction) : Power :=
  match instruction with
  | .waitKey _ => .stopped
  | _ => if m.counterAfter instruction = 0x1000 then .stopped else m.power

/-- The machine after an instruction that took so many sixtieths off the delay. -/
def executed (m : Machine) (elapsed rand : Nat) (instruction : Instruction) : Machine where
  registers := m.registersAfter rand instruction
  index := m.indexAfter instruction
  counter := m.counterAfter instruction
  calls := m.callsAfter instruction
  memory := m.memoryAfter instruction
  picture := m.pictureAfter instruction
  delay := m.delayAfter instruction - elapsed
  down := m.down
  waiting := m.waitingAfter instruction
  power := m.powerAfter instruction

/-! ## Events -/

/-- A machine that waits executes nothing, whoever started it. -/
def tick (since : Time) (m : Machine) (inputs : TickInputs) : Option Machine :=
  m.fetch.bind fun instruction =>
    if m.power = .running ∧ m.waiting = none ∧ m.Permits instruction then
      some (m.executed (sixtieths (inputs.now - since)).toNat inputs.rand instruction)
    else none

/-- A key that comes up ends the wait of a stopped machine. -/
def released (m : Machine) (k : Fin 16) : Option Machine :=
  match m.power, m.waiting with
  | .off, _ => none
  | .stopped, some x =>
    some { m with
      registers := Function.update m.registers x (BitVec.ofNat 8 k.val)
      waiting := none
      power := .running }
  | _, _ => some m

def step (keys : QtKeys) (since : Time) (m : Machine) : Event → Option Machine
  | .tick inputs => m.tick since inputs
  | .startCpu => some { m with power := .running }
  | .stopCpu => some { m with power := if m.power = .off then .off else .stopped }
  | .keyPress key =>
    match keys.find key with
    | none => some m
    | some k => some { m with down := Function.update m.down k true }
  | .keyRelease key _ =>
    match keys.find key with
    | none => some m
    | some k => { m with down := Function.update m.down k false }.released k
  | .load none => some m
  | .load (some file) =>
    if file.length ≤ 3584 then
      some { m with
        memory := storeList m.memory 0x200 file
        picture := fun _ => false }
    else none

end Machine

end Chip8Emulator.VirtualMachine
