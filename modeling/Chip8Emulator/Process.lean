import Chip8Emulator.Instructions

/-! One timer tick, the public slots, and the events that reach the object
through the connections of `main`. Qt delivers events one at a time, so each
is a single step; the file dialog of `load` lets ticks run before it returns,
which are then steps of their own before the load. -/
namespace Chip8Emulator
open Foundations.Loops

/-- What the calls of one tick return: the high resolution clock, `rand`, and
the steady clock in the wait of `Fx0A` and in the refresh at the end. -/
structure TickInputs where
  now : Time
  rand : Nat
  wait : SteadyReadings
  refresh : SteadyReadings

/-- A tick all of whose clocks read the same. -/
def TickInputs.reading (now : Time) : TickInputs where
  now := now
  rand := 0
  wait := { first := now, now := now }
  refresh := { first := now, now := now }

/-- The chain of tests of `process`, in its order. -/
def dispatch (inputs : TickInputs) (opcode : DByte) : Cpu Unit :=
  if opcode = 0x0000 then pure ()
  else if opcode = 0x00E0 then perform00E0 opcode
  else if opcode = 0x00EE then perform00EE opcode
  else if opcode &&& 0xF000 = 0x1000 then perform1nnn opcode
  else if opcode &&& 0xF000 = 0x2000 then perform2nnn opcode
  else if opcode &&& 0xF000 = 0x3000 then perform3xkk opcode
  else if opcode &&& 0xF000 = 0x4000 then perform4xkk opcode
  else if opcode &&& 0xF000 = 0x5000 then perform5xy0 opcode
  else if opcode &&& 0xF000 = 0x6000 then perform6xkk opcode
  else if opcode &&& 0xF000 = 0x7000 then perform7xkk opcode
  else if opcode &&& 0xF000 = 0x8000 ∧ opcode &&& 0x000F = 0x0 then perform8xy0 opcode
  else if opcode &&& 0xF000 = 0x8000 ∧ opcode &&& 0x000F = 0x1 then perform8xy1 opcode
  else if opcode &&& 0xF000 = 0x8000 ∧ opcode &&& 0x000F = 0x2 then perform8xy2 opcode
  else if opcode &&& 0xF000 = 0x8000 ∧ opcode &&& 0x000F = 0x3 then perform8xy3 opcode
  else if opcode &&& 0xF000 = 0x8000 ∧ opcode &&& 0x000F = 0x4 then perform8xy4 opcode
  else if opcode &&& 0xF000 = 0x8000 ∧ opcode &&& 0x000F = 0x5 then perform8xy5 opcode
  else if opcode &&& 0xF000 = 0x8000 ∧ opcode &&& 0x000F = 0x6 then perform8xy6 opcode
  else if opcode &&& 0xF000 = 0x8000 ∧ opcode &&& 0x000F = 0x7 then perform8xy7 opcode
  else if opcode &&& 0xF000 = 0x8000 ∧ opcode &&& 0x000F = 0xE then perform8xyE opcode
  else if opcode &&& 0xF000 = 0x9000 then perform9xy0 opcode
  else if opcode &&& 0xF000 = 0xA000 then performAnnn opcode
  else if opcode &&& 0xF000 = 0xB000 then performBnnn opcode
  else if opcode &&& 0xF000 = 0xC000 then performCxkk inputs.rand opcode
  else if opcode &&& 0xF000 = 0xD000 then performDxyn opcode
  else if opcode &&& 0xF000 = 0xE000 ∧ opcode &&& 0xFF = 0x9E then performEx9e opcode
  else if opcode &&& 0xF000 = 0xE000 ∧ opcode &&& 0xFF = 0xA1 then performExa1 opcode
  else if opcode &&& 0xF000 = 0xF000 ∧ opcode &&& 0xFF = 0x07 then performFx07 opcode
  else if opcode &&& 0xF000 = 0xF000 ∧ opcode &&& 0xFF = 0x0A then performFx0A inputs.wait opcode
  else if opcode &&& 0xF000 = 0xF000 ∧ opcode &&& 0xFF = 0x15 then performFx15 opcode
  else if opcode &&& 0xF000 = 0xF000 ∧ opcode &&& 0xFF = 0x1E then performFx1E opcode
  else if opcode &&& 0xF000 = 0xF000 ∧ opcode &&& 0xFF = 0x29 then performFx29 opcode
  else if opcode &&& 0xF000 = 0xF000 ∧ opcode &&& 0xFF = 0x33 then performFx33 opcode
  else if opcode &&& 0xF000 = 0xF000 ∧ opcode &&& 0xFF = 0x55 then performFx55 opcode
  else if opcode &&& 0xF000 = 0xF000 ∧ opcode &&& 0xFF = 0x65 then performFx65 opcode
  else throw .abort

/-- `duration_cast<duration<DByte_t, ratio<1, 60>>>`: the nanoseconds times
3 / 50000000, truncated, and cut to sixteen bits. -/
def sixtieths (duration : Time) : DByte := BitVec.ofInt 16 ((duration * 3).tdiv 50000000)

/-- The elapsed count is taken from `last_time`, which only the constructor sets. -/
def updateDelayTimer (now : Time) : Cpu Unit := do
  let w ← get
  let duration := sixtieths (now - w.lastTime)
  if duration > w.delayTimer then modify fun w => { w with delayTimer := 0 }
  else modify fun w => { w with delayTimer := w.delayTimer - duration }

def process (inputs : TickInputs) : Cpu Unit := do
  let w ← get
  let opcode ← getOpcode w.ram w.programCounter
  emit (.currentOpcodeChanged opcode.toNat)
  emit (.programCounterChanged w.programCounter.toNat)
  modify fun w => { w with programCounter := w.programCounter + 2 }
  dispatch inputs opcode
  updateDelayTimer inputs.now
  sendSignalToMonitor .yes inputs.refresh
  if (← get).programCounter.toNat = ramSize then stopCpu

/-! ## Slots -/

/-- `interested_keys`: the codes Qt gives the sixteen hexadecimal keys, which
are distinct. -/
structure QtKeys where
  code : Fin 16 → Int
  distinct : Function.Injective code

/-- Qt gives a digit or letter key the code of its capital letter in Latin-1. -/
def QtKeys.latin : QtKeys where
  code i := if i.val < 10 then 0x30 + i.val else 0x37 + i.val
  distinct := by
    intro i j same
    apply Fin.ext
    simp only at same
    split at same <;> split at same <;> omega

/-- `std::find` in `interested_keys`. -/
def QtKeys.find (keys : QtKeys) (key : Int) : Option (Fin 16) :=
  (List.finRange 16).find? fun i => keys.code i = key

/-- The search finds the one key with that code. -/
theorem QtKeys.find_iff {keys : QtKeys} : keys.find key = some k ↔ keys.code k = key := by
  have sound (j : Fin 16) (found : keys.find key = some j) : keys.code j = key := by
    unfold QtKeys.find at found
    simpa using List.find?_some found
  constructor
  · exact sound k
  · intro same
    cases found : keys.find key with
    | none =>
      unfold QtKeys.find at found
      exact absurd (decide_eq_true same) (List.find?_eq_none.mp found k (List.mem_finRange k))
    | some j => rw [keys.distinct ((sound j found).trans same.symm)]

/-- `last_active_key` and the status of a key event. -/
def recordKey (i : Fin 16) (status : Int) : Cpu Unit :=
  modify fun w => { w with
    lastActiveKey := i.val
    interestedKeysStatuses := Function.update w.interestedKeysStatuses i status }

def receiveKeyPressEvent (keys : QtKeys) (pressedKey : Int) : Cpu Unit :=
  match keys.find pressedKey with
  | none => pure ()
  | some i => recordKey i 1

def receiveKeyReleaseEvent (keys : QtKeys) (readings : SteadyReadings) (pressedKey : Int) : Cpu Unit :=
  match keys.find pressedKey with
  | none => pure ()
  | some i => do
    recordKey i 0
    performFx0A readings 0x0000

/-- `std::copy` from the file into `ram` from `address` on, unchecked. -/
def copyToRam : List Byte → Nat → Cpu Unit
  | [], _ => pure ()
  | byte :: input, address => do
    if bound : address < 4096 then
      modify fun w => { w with ram := Function.update w.ram ⟨address, bound⟩ byte }
    else throw .loadOverrun
    copyToRam input (address + 1)

/-- The argument is what the dialog and the file yield: nothing where the
dialog is cancelled, else the contents. The zeroed vector the source builds
before the copy is a temporary and changes nothing. -/
def load : Option (List Byte) → Cpu Unit
  | none => pure ()
  | some input => do
    copyToRam input userMemoryBase.toNat
    clearFrameBuffer

/-! ## Events -/

inductive Event where
  /-- A timeout of the timer. -/
  | tick (inputs : TickInputs)
  | startCpu
  | stopCpu
  | keyPress (key : Int)
  | keyRelease (key : Int) (readings : SteadyReadings)
  | load (file : Option (List Byte))

/-- The slot each event is connected to. -/
def handle (keys : QtKeys) : Event → Cpu Unit
  | .tick inputs => process inputs
  | .startCpu => startCpu
  | .stopCpu => stopCpu
  | .keyPress key => receiveKeyPressEvent keys key
  | .keyRelease key readings => receiveKeyReleaseEvent keys readings key
  | .load file => load file

/-- The world after an event that completes. -/
def step (keys : QtKeys) (w : World) (event : Event) : Option World :=
  match (handle keys event).run w with
  | .ok _ next => some next
  | .error _ _ => none

/-- The timer exists and is active. -/
def Chip8Pc.Running (pc : Chip8Pc) : Prop := pc.mainProcessTimer = some { isActive := true }

instance (pc : Chip8Pc) : Decidable pc.Running := inferInstanceAs (Decidable (_ = _))

/-- A timer only times out while it is active; every other event can arrive at
any time. -/
def Live (w : World) : Event → Prop
  | .tick _ => w.Running
  | _ => True

instance (w : World) : ∀ event, Decidable (Live w event)
  | .tick _ => inferInstanceAs (Decidable w.Running)
  | .startCpu | .stopCpu | .keyPress _ | .keyRelease _ _ | .load _ => isTrue trivial

end Chip8Emulator
