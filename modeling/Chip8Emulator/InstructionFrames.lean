import Chip8Emulator.ProcessRefinement

/-! What an event can change, component by component. Each component has one
definition listing its writers, so an invariant over runs looks only at the
instructions that touch what it speaks about. -/
namespace Chip8Emulator
open Foundations.Memory

/-! ## Writers of each component

The world is the one an instruction starts in, the program counter already
past it. -/
namespace Instruction

def ramAfter (w : World) : Instruction → Fin 4096 → Byte
  | .call target => (w.pushAndJump target).ram
  | .bcd x => storeList w.ram w.indexRegister.toNat (decimalDigits (w.vRegisters x))
  | .save x => storeList w.ram w.indexRegister.toNat (w.registersUpTo x)
  | _ => w.ram

def frameBufferAfter (w : World) : Instruction → FrameBuffer
  | .clear => fun _ _ => 0
  | .draw x y n => w.drawn x y n
  | _ => w.frameBuffer

def stackPointerAfter (w : World) : Instruction → Byte
  | .call _ => w.stackPointer + 2
  | .ret => w.stackPointer - 2
  | _ => w.stackPointer

def programCounterAfter (w : World) : Instruction → DByte
  | .ret => w.poppedAddress
  | .jump target | .call target => target
  | .jumpOffset base => w.offsetTarget base
  | .skipIfByte x kk => (w.skipWhen (w.vRegisters x = kk)).programCounter
  | .skipUnlessByte x kk => (w.skipWhen (w.vRegisters x ≠ kk)).programCounter
  | .skipIfSame x y => (w.skipWhen (w.vRegisters x = w.vRegisters y)).programCounter
  | .skipUnlessSame x y => (w.skipWhen (w.vRegisters x ≠ w.vRegisters y)).programCounter
  | .skipIfKey x => (w.skipWhen (readAt w.interestedKeysStatuses (w.vRegisters x).toNat = 1)).programCounter
  | .skipUnlessKey x => (w.skipWhen (readAt w.interestedKeysStatuses (w.vRegisters x).toNat = 0)).programCounter
  | _ => w.programCounter

def indexRegisterAfter (w : World) : Instruction → DByte
  | .setIndex value => value
  | .addIndex x => w.indexRegister + (w.vRegisters x).setWidth 16
  | .glyph x => BitVec.ofNat 16 (5 * (w.vRegisters x).toNat)
  | _ => w.indexRegister

def delayTimerAfter (w : World) : Instruction → DByte
  | .setDelay x => (w.vRegisters x).setWidth 16
  | _ => w.delayTimer

/-- A wait that is entered stops the timer, one that completes starts it. -/
def timerAfter (w : World) : Instruction → Option QTimer
  | .waitKey _ => if w.lastOpcode = 0 then w.stopTimer.mainProcessTimer else some { isActive := true }
  | _ => w.mainProcessTimer

def latchAfter (w : World) : Instruction → DByte
  | .waitKey x => if w.lastOpcode = 0 then waitOpcode x else 0x0000
  | _ => w.lastOpcode

def isCall : Instruction → Bool
  | .call _ => true
  | _ => false

/-- The addresses the program itself stores to. -/
def stored (w : World) : Instruction → List Nat
  | .bcd _ => (List.range 3).map (w.indexRegister.toNat + ·)
  | .save x => (List.range (x.val + 1)).map (w.indexRegister.toNat + ·)
  | _ => []

/-- All addresses written, the two of the stack included. -/
def written (w : World) : Instruction → List Nat
  | .call _ => [(w.stackPointer + 1).toNat, (w.stackPointer + 2).toNat]
  | instruction => instruction.stored w

/-- The registers that may be written. A wait that completes writes the one its
latched opcode names. -/
def registersWritten (w : World) : Instruction → List (Fin 16)
  | .setByte x _ | .addByte x _ | .random x _ | .readDelay x => [x]
  | .copy x _ | .or x _ | .and x _ | .xor x _ => [x]
  | .add x _ | .sub x _ | .subFrom x _ | .shiftRight x | .shiftLeft x => [x, vF]
  | .restore x => (List.finRange 16).filter (· ≤ x)
  | .waitKey _ => if w.lastOpcode = 0 then [] else [xOf w.lastOpcode]
  | _ => []

end Instruction

theorem store_elsewhere (memory : Fin 4096 → Byte) (start : Nat) (values : List Byte) (cell : Fin 4096)
    (elsewhere : cell.val ∉ (List.range values.length).map (start + ·)) :
    storeList memory start values cell = memory cell := by
  apply store_outside
  simp only [List.mem_map, List.mem_range, not_exists, not_and] at elsewhere
  rcases Nat.lt_or_ge cell.val start with low | high
  · exact .inl low
  · refine .inr (Nat.not_lt.mp fun inside => ?_)
    exact elsewhere (cell.val - start) (by omega) (by omega)

/-- A cell that is not written keeps its byte. -/
theorem ram_elsewhere (w : World) (instruction : Instruction) (cell : Fin 4096)
    (elsewhere : cell.val ∉ instruction.written w) : instruction.ramAfter w cell = w.ram cell := by
  cases instruction with
  | call target =>
    simp only [Instruction.written, List.mem_cons, List.not_mem_nil, or_false, not_or] at elsewhere
    have first : cell ≠ stackCell (w.stackPointer + 1) := fun same => elsewhere.1 (congrArg Fin.val same)
    have second : cell ≠ stackCell (w.stackPointer + 2) := fun same => elsewhere.2 (congrArg Fin.val same)
    simp only [Instruction.ramAfter, World.pushAndJump]
    rw [Function.update_of_ne second, Function.update_of_ne first]
  | bcd x => exact store_elsewhere w.ram _ (decimalDigits (w.vRegisters x)) cell elsewhere
  | save x =>
    refine store_elsewhere w.ram _ (w.registersUpTo x) cell ?_
    rw [registers_length]
    exact elsewhere
  | _ => rfl

theorem read_elsewhere (w : World) (instruction : Instruction) (address : Nat)
    (elsewhere : address ∉ instruction.written w) :
    readAt (instruction.ramAfter w) address = readAt w.ram address := by
  unfold readAt
  split
  · exact ram_elsewhere w instruction _ elsewhere
  · rfl

/-- Reading RAM after a push. -/
theorem read_pushed (w : World) (target : DByte) (probe : Nat) :
    readAt (w.pushAndJump target).ram probe =
      if probe = (w.stackPointer + 2).toNat then lowByte w.programCounter
      else if probe = (w.stackPointer + 1).toNat then highByte w.programCounter
      else readAt w.ram probe := by
  simp only [World.pushAndJump, stackCell, read_at_update]

/-- A load writes no address below the user base. -/
theorem read_loaded (w : World) (file : List Byte) (address : Nat) (below : address < 0x200) :
    readAt (w.loaded file).ram address = readAt w.ram address := by
  unfold readAt
  split
  · exact store_outside w.ram 0x200 file _ (.inl below)
  · rfl

theorem write_same (w : World) (x : Fin 16) (value : Byte) : (w.writeV x value).vRegisters x = value :=
  Function.update_self _ _ _

theorem write_elsewhere (w : World) (value : Byte) (other : r ≠ x) :
    (w.writeV x value).vRegisters r = w.vRegisters r := by
  unfold World.writeV
  exact Function.update_of_ne other _ _

/-- A register that is not written keeps its value. -/
theorem registers_elsewhere (effect : execute inputs w instruction = .ok executed)
    (elsewhere : r ∉ instruction.registersWritten w) : executed.vRegisters r = w.vRegisters r := by
  cases instruction with
  | setByte x | addByte x | random x | readDelay x | copy x | or x | and x | xor x =>
    cases effect
    exact write_elsewhere w _ (List.ne_of_not_mem_cons elsewhere)
  | add x | sub x | subFrom x | shiftRight x | shiftLeft x =>
    simp only [Instruction.registersWritten, List.mem_cons, List.not_mem_nil, or_false, not_or] at elsewhere
    obtain ⟨other, notFlag⟩ := elsewhere
    cases effect
    simp only [write_elsewhere, other, notFlag, ne_eq, not_false_eq_true]
  | restore x =>
    simp only [execute] at effect
    split at effect
    · cases effect
      have beyond : x < r := by
        simpa [Instruction.registersWritten] using elsewhere
      refine store_outside w.vRegisters 0 _ r (.inr ?_)
      have length := bytes_length w (x.val + 1)
      omega
    · contradiction
  | waitKey x =>
    cases effect
    by_cases idle : w.lastOpcode = 0
    · rw [if_pos idle]
      rfl
    · rw [Instruction.registersWritten, if_neg idle] at elsewhere
      rw [if_neg idle]
      exact write_elsewhere w _ (List.ne_of_not_mem_cons elsewhere)
  | draw | bcd | save | skipIfKey | skipUnlessKey =>
    simp only [execute] at effect
    split at effect
    · cases effect
      rfl
    · contradiction
  | _ =>
    cases effect
    rfl

/-- The components after an instruction. -/
structure Effects (w : World) (instruction : Instruction) (executed : World) : Prop where
  ram : executed.ram = instruction.ramAfter w
  frameBuffer : executed.frameBuffer = instruction.frameBufferAfter w
  stackPointer : executed.stackPointer = instruction.stackPointerAfter w
  programCounter : executed.programCounter = instruction.programCounterAfter w
  indexRegister : executed.indexRegister = instruction.indexRegisterAfter w
  delayTimer : executed.delayTimer = instruction.delayTimerAfter w
  timer : executed.mainProcessTimer = instruction.timerAfter w
  latch : executed.lastOpcode = instruction.latchAfter w
  lastTime : executed.lastTime = w.lastTime
  lastActiveKey : executed.lastActiveKey = w.lastActiveKey
  keyStatuses : executed.interestedKeysStatuses = w.interestedKeysStatuses

theorem execute_effects (effect : execute inputs w instruction = .ok executed) :
    Effects w instruction executed := by
  cases instruction with
  | waitKey x =>
    simp only [execute, Except.ok.injEq] at effect
    subst effect
    by_cases idle : w.lastOpcode = 0
    · constructor <;> simp only [idle, ↓reduceIte, Instruction.timerAfter, Instruction.latchAfter] <;> rfl
    · constructor <;> simp only [idle, ↓reduceIte, Instruction.timerAfter, Instruction.latchAfter] <;> rfl
  | draw | bcd | save | restore =>
    simp only [execute] at effect
    split at effect
    · cases effect
      constructor <;> rfl
    · contradiction
  | skipIfKey x | skipUnlessKey x =>
    simp only [execute] at effect
    split at effect
    · rename_i bound
      cases effect
      have status := read_at_of_lt w.interestedKeysStatuses bound
      refine ⟨rfl, rfl, rfl, ?_, rfl, rfl, rfl, rfl, rfl, rfl, rfl⟩
      simp only [Instruction.programCounterAfter, status]
    · contradiction
  | _ =>
    cases effect
    constructor <;> rfl

/-! ## Events -/

/-- A tick that completed, with the instruction it executed. -/
structure Ticked (inputs : TickInputs) (w : World) (instruction : Instruction) (next : World) : Prop where
  fits : w.programCounter.toNat ≤ 4094
  decoded : decode w.opcodeAt = some instruction
  executes : ∃ executed, execute inputs w.fetched instruction = .ok executed ∧ next = executed.finish inputs

theorem step_tick_iff :
    step keys w (.tick inputs) = some next ↔ ∃ instruction, Ticked inputs w instruction next := by
  rw [step_tick]
  constructor
  · rintro ⟨fits, instruction, executed, decoded, effect, finished⟩
    exact ⟨instruction, fits, decoded, executed, effect, finished⟩
  · rintro ⟨instruction, fits, decoded, executed, effect, finished⟩
    exact ⟨fits, instruction, executed, decoded, effect, finished⟩

/-- A tick is matched by one of another world as far as a view of the worlds
goes that the instruction and the end of the tick respect. -/
theorem ticked_matched {α : Type*} (view : World → α) (counter : v.programCounter = w.programCounter)
    (opcode : v.opcodeAt = w.opcodeAt)
    (executes : (execute first v.fetched instruction).map view = (execute second w.fetched instruction).map view)
    (finishes : ∀ s t : World, view s = view t → view (s.finish first) = view (t.finish second))
    (ticked : Ticked first v instruction next) :
    ∃ after, Ticked second w instruction after ∧ view next = view after := by
  obtain ⟨executed, effect, rfl⟩ := ticked.executes
  rw [effect] at executes
  cases other : execute second w.fetched instruction with
  | error fault =>
    rw [other] at executes
    contradiction
  | ok reached =>
    rw [other] at executes
    exact ⟨reached.finish second, ⟨counter ▸ ticked.fits, opcode ▸ ticked.decoded, reached, other, rfl⟩,
      finishes executed reached (Except.ok.inj executes)⟩

/-- The end of a tick touches the two timers, the throttle and the signals. -/
theorem Ticked.effects (ticked : Ticked inputs w instruction next) :
    ∃ executed, Effects w.fetched instruction executed ∧ next = executed.finish inputs := by
  obtain ⟨executed, effect, finished⟩ := ticked.executes
  exact ⟨executed, execute_effects effect, finished⟩

section Tick
variable (ticked : Ticked inputs w instruction next)
include ticked

theorem Ticked.ram : next.ram = instruction.ramAfter w.fetched := by
  obtain ⟨executed, effects, rfl⟩ := ticked.effects
  exact effects.ram

theorem Ticked.frameBuffer : next.frameBuffer = instruction.frameBufferAfter w.fetched := by
  obtain ⟨executed, effects, rfl⟩ := ticked.effects
  exact effects.frameBuffer

theorem Ticked.stackPointer : next.stackPointer = instruction.stackPointerAfter w.fetched := by
  obtain ⟨executed, effects, rfl⟩ := ticked.effects
  exact effects.stackPointer

theorem Ticked.programCounter : next.programCounter = instruction.programCounterAfter w.fetched := by
  obtain ⟨executed, effects, rfl⟩ := ticked.effects
  exact effects.programCounter

theorem Ticked.indexRegister : next.indexRegister = instruction.indexRegisterAfter w.fetched := by
  obtain ⟨executed, effects, rfl⟩ := ticked.effects
  exact effects.indexRegister

theorem Ticked.latch : next.lastOpcode = instruction.latchAfter w.fetched := by
  obtain ⟨executed, effects, rfl⟩ := ticked.effects
  exact effects.latch

theorem Ticked.lastTime : next.lastTime = w.lastTime := by
  obtain ⟨executed, effects, rfl⟩ := ticked.effects
  exact effects.lastTime

theorem Ticked.lastActiveKey : next.lastActiveKey = w.lastActiveKey := by
  obtain ⟨executed, effects, rfl⟩ := ticked.effects
  exact effects.lastActiveKey

theorem Ticked.keyStatuses : next.interestedKeysStatuses = w.interestedKeysStatuses := by
  obtain ⟨executed, effects, rfl⟩ := ticked.effects
  exact effects.keyStatuses

theorem Ticked.registers_elsewhere (elsewhere : r ∉ instruction.registersWritten w.fetched) :
    next.vRegisters r = w.vRegisters r := by
  obtain ⟨executed, effect, rfl⟩ := ticked.executes
  have kept : executed.vRegisters r = w.fetched.vRegisters r := Chip8Emulator.registers_elsewhere effect elsewhere
  exact kept

/-- The elapsed count is subtracted after the instruction, stopping at zero. -/
theorem Ticked.delayTimer :
    next.delayTimer.toNat =
      (instruction.delayTimerAfter w.fetched).toNat - (sixtieths (inputs.now - w.lastTime)).toNat := by
  obtain ⟨executed, effects, rfl⟩ := ticked.effects
  have since : executed.lastTime = w.lastTime := effects.lastTime
  change (executed.delayAfter inputs.now).toNat = _
  rw [← effects.delayTimer, World.delayAfter, since]
  split
  · rename_i exceeds
    rw [gt_iff_lt, BitVec.lt_def] at exceeds
    exact (Nat.sub_eq_zero_of_le (Nat.le_of_lt exceeds)).symm
  · rename_i within
    rw [gt_iff_lt, BitVec.lt_def] at within
    rw [BitVec.toNat_sub_of_le (BitVec.le_def.mpr (Nat.not_lt.mp within))]

/-- The timer is stopped where the program counter ends at the size of RAM. -/
theorem Ticked.timer :
    next.mainProcessTimer = if next.programCounter.toNat = ramSize
      then (instruction.timerAfter w.fetched).map fun _ => { isActive := false }
      else instruction.timerAfter w.fetched := by
  obtain ⟨executed, effects, rfl⟩ := ticked.effects
  rw [← effects.timer]
  rfl

end Tick

section Words
variable {w : World} (fits : w.programCounter.toNat ≤ 4094)
include fits

theorem next_word : (w.programCounter + 2).toNat = w.programCounter.toNat + 2 :=
  BitVec.toNat_add_of_lt (show w.programCounter.toNat + 2 < 65536 by omega)

theorem skipped_word : (w.programCounter + 2 + 2).toNat = w.programCounter.toNat + 4 := by
  have next := next_word fits
  have skipped : (w.programCounter + 2 + 2).toNat = (w.programCounter + 2).toNat + 2 :=
    BitVec.toNat_add_of_lt (show (w.programCounter + 2).toNat + 2 < 65536 by omega)
  omega

/-- A skip leads past the next word, or past the one after it. -/
theorem skip_target (condition : Prop) [Decidable condition] :
    (w.fetched.skipWhen condition).programCounter.toNat =
      w.programCounter.toNat + if condition then 4 else 2 := by
  change (if condition then w.programCounter + 2 + 2 else w.programCounter + 2).toNat = _
  by_cases taken : condition
  · rw [if_pos taken, if_pos taken, skipped_word fits]
  · rw [if_neg taken, if_neg taken, next_word fits]

end Words

/-- Everything an event that completes can do. -/
inductive Transition (keys : QtKeys) (w : World) : Event → World → Prop where
  | tick (ticked : Ticked inputs w instruction next) : Transition keys w (.tick inputs) next
  | start : Transition keys w .startCpu w.startTimer
  | stop : Transition keys w .stopCpu w.stopTimer
  | otherPress (missing : keys.find key = none) : Transition keys w (.keyPress key) w
  | press (found : keys.find key = some k) : Transition keys w (.keyPress key) (w.recordKey k 1)
  | otherRelease (missing : keys.find key = none) : Transition keys w (.keyRelease key readings) w
  | releaseRunning (found : keys.find key = some k) (running : w.Running) :
      Transition keys w (.keyRelease key readings) (w.recordKey k 0)
  | releaseIdle (found : keys.find key = some k) (stopped : w.mainProcessTimer = some { isActive := false })
      (idle : w.lastOpcode = 0) :
      Transition keys w (.keyRelease key readings) ((w.recordKey k 0).beginWait 0 readings)
  | releaseWaiting (found : keys.find key = some k) (stopped : w.mainProcessTimer = some { isActive := false })
      (pending : w.lastOpcode ≠ 0) : Transition keys w (.keyRelease key readings) (w.recordKey k 0).completeWait
  | cancelled : Transition keys w (.load none) w
  | loaded (fits : file.length ≤ 3584) : Transition keys w (.load (some file)) (w.loaded file)

theorem release_iff (found : keys.find key = some k) :
    step keys w (.keyRelease key readings) = some next ↔
      (w.Running ∧ next = w.recordKey k 0) ∨
      (w.mainProcessTimer = some { isActive := false } ∧ w.lastOpcode = 0 ∧
        next = (w.recordKey k 0).beginWait 0 readings) ∨
      (w.mainProcessTimer = some { isActive := false } ∧ w.lastOpcode ≠ 0 ∧
        next = (w.recordKey k 0).completeWait) := by
  have timer : (w.recordKey k 0).mainProcessTimer = w.mainProcessTimer := rfl
  have latch : (w.recordKey k 0).lastOpcode = w.lastOpcode := rfl
  rw [step_keyRelease, found]
  simp only [World.releaseKey, timer, latch, Chip8Pc.Running]
  cases created : w.mainProcessTimer with
  | none => simp
  | some observed =>
    obtain ⟨active⟩ := observed
    by_cases idle : w.lastOpcode = 0#16 <;> cases active <;> simp [idle, eq_comm]

theorem not_running_stopped (w : World) : ¬ w.stopTimer.Running := by
  unfold Chip8Pc.Running World.stopTimer
  cases w.mainProcessTimer <;> simp

/-- An event completes exactly with a transition. -/
theorem step_iff : step keys w event = some next ↔ Transition keys w event next := by
  constructor
  · intro stepped
    cases event with
    | tick inputs =>
      obtain ⟨instruction, ticked⟩ := step_tick_iff.mp stepped
      exact .tick ticked
    | startCpu =>
      rw [step_startCpu] at stepped
      cases stepped
      exact .start
    | stopCpu =>
      rw [step_stopCpu] at stepped
      cases stepped
      exact .stop
    | keyPress key =>
      rw [step_keyPress] at stepped
      cases found : keys.find key with
      | none =>
        rw [found] at stepped
        cases stepped
        exact .otherPress found
      | some k =>
        rw [found] at stepped
        cases stepped
        exact .press found
    | keyRelease key readings =>
      cases found : keys.find key with
      | none =>
        rw [step_keyRelease, found] at stepped
        cases stepped
        exact .otherRelease found
      | some k =>
        rcases (release_iff found).mp stepped with ⟨running, rfl⟩ | ⟨stopped, idle, rfl⟩ | ⟨stopped, pending, rfl⟩
        · exact .releaseRunning found running
        · exact .releaseIdle found stopped idle
        · exact .releaseWaiting found stopped pending
    | load file =>
      cases file with
      | none =>
        rw [step_load_cancelled] at stepped
        cases stepped
        exact .cancelled
      | some file =>
        rw [step_load] at stepped
        split at stepped
        · rename_i fits
          cases stepped
          exact .loaded fits
        · contradiction
  · intro transition
    cases transition with
    | tick ticked => exact step_tick_iff.mpr ⟨_, ticked⟩
    | start => exact step_startCpu
    | stop => exact step_stopCpu
    | otherPress missing => rw [step_keyPress, missing]
    | press found => rw [step_keyPress, found]
    | otherRelease missing => rw [step_keyRelease, missing]
    | releaseRunning found running => exact (release_iff found).mpr (.inl ⟨running, rfl⟩)
    | releaseIdle found stopped idle => exact (release_iff found).mpr (.inr (.inl ⟨stopped, idle, rfl⟩))
    | releaseWaiting found stopped pending => exact (release_iff found).mpr (.inr (.inr ⟨stopped, pending, rfl⟩))
    | cancelled => exact step_load_cancelled
    | loaded fits => rw [step_load, if_pos fits]

/-- What only ticks and loads touch. -/
structure Undisturbed (w next : World) : Prop where
  ram : next.ram = w.ram
  frameBuffer : next.frameBuffer = w.frameBuffer
  stackPointer : next.stackPointer = w.stackPointer
  programCounter : next.programCounter = w.programCounter
  indexRegister : next.indexRegister = w.indexRegister
  delayTimer : next.delayTimer = w.delayTimer
  lastTime : next.lastTime = w.lastTime

/-- The instruction an event executes, if it completes. -/
def Event.instruction (w : World) : Event → Option Instruction
  | .tick _ => decode w.opcodeAt
  | _ => none

def Event.isTick : Event → Bool
  | .tick _ => true
  | _ => false

/-- A load of a chosen file. -/
def Event.loads : Event → Bool
  | .load (some _) => true
  | _ => false

/-- An event that completes is a tick, a load, or leaves the program alone. -/
theorem step_cases (stepped : step keys w event = some next) :
    (∃ inputs instruction, event = .tick inputs ∧ event.instruction w = some instruction ∧
      Ticked inputs w instruction next) ∨
    (∃ file, event = .load (some file) ∧ event.instruction w = none ∧ file.length ≤ 3584 ∧
      next = w.loaded file) ∨
    (event.instruction w = none ∧ ¬ event.isTick ∧ ¬ event.loads ∧ Undisturbed w next) := by
  cases step_iff.mp stepped with
  | tick ticked => exact .inl ⟨_, _, rfl, ticked.decoded, ticked⟩
  | loaded fits => exact .inr (.inl ⟨_, rfl, rfl, fits, rfl⟩)
  | _ => exact .inr (.inr ⟨rfl, nofun, nofun, rfl, rfl, rfl, rfl, rfl, rfl, rfl⟩)

end Chip8Emulator
