import Chip8Emulator.Keypad
import Chip8Emulator.ProgramLogic

/-! Polling a key, from the program's side. `Ex9E` or `ExA1` with a jump back to
it looks at the keypad every other tick while the user goes on pressing and
releasing keys. The loop is left at the first poll that finds the key as it is
waited for, by the user's own events up to then; what the key does between two
polls is lost. -/
namespace Chip8Emulator.KeyPolling
open Foundations.Memory Foundations.Runs ProgramImage ProgramLogic Keypad

/-- `Ex9E` waits for a press, `ExA1` for a release. -/
def keySkip (x : Fin 16) : Bool → Instruction
  | true => .skipIfKey x
  | false => .skipUnlessKey x

/-- `Ex9E` or `ExA1` as the `j`-th instruction, and a jump back to it. -/
structure PollsAt (code : Code) (j : Nat) (x : Fin 16) (pressed : Bool) (back : DByte) : Prop where
  poll : code.program[j]? = some (keySkip x pressed)
  jump : code.program[j + 1]? = some (.jump back)
  entry : back.toNat = code.base + 2 * j

/-- What may happen while a program polls: anything but Stop and a file loaded. -/
def Undisturbing : Event → Prop
  | .stopCpu => False
  | .load file => file = none
  | .tick _ | .startCpu | .keyPress _ | .keyRelease _ _ => True

instance : ∀ event, Decidable (Undisturbing event)
  | .stopCpu => isFalse id
  | .load _ => inferInstanceAs (Decidable (_ = _))
  | .tick _ | .startCpu | .keyPress _ | .keyRelease _ _ => isTrue trivial

/-- The instructions of a polling loop. -/
inductive Looped : Instruction → Prop where
  | poll (x : Fin 16) (pressed : Bool) : Looped (keySkip x pressed)
  | jump (back : DByte) : Looped (.jump back)

def tickCount (events : List Event) : Nat := events.countP Event.isTick

theorem tick_count_snoc (events : List Event) (event : Event) :
    tickCount (events ++ [event]) = tickCount events + if event.isTick then 1 else 0 := by
  rw [tickCount, List.countP_append, List.countP_singleton]
  rfl

/-- The key is as `pressed` asks for, going by the events so far. -/
def Answers (keys : QtKeys) (events : List Event) (k : Fin 16) (pressed : Bool) : Prop :=
  Down keys events k ↔ pressed = true

instance (keys : QtKeys) (events : List Event) (k : Fin 16) (pressed : Bool) :
    Decidable (Answers keys events k pressed) := inferInstanceAs (Decidable (_ ↔ _))

/-- No poll among the events finds the key as it is asked for. -/
def Unanswered (keys : QtKeys) (prior events : List Event) (k : Fin 16) (pressed : Bool) : Prop :=
  ∀ n, (within : n < events.length) → events[n].isTick → tickCount (events.take n) % 2 = 0 →
    ¬ Answers keys (prior ++ events.take n) k pressed

instance (keys : QtKeys) (prior events : List Event) (k : Fin 16) (pressed : Bool) :
    Decidable (Unanswered keys prior events k pressed) := inferInstanceAs (Decidable (∀ _, ∀ _, _))

theorem unanswered_snoc (unanswered : Unanswered keys prior (events ++ [event]) k pressed) :
    Unanswered keys prior events k pressed ∧
      (event.isTick → tickCount events % 2 = 0 → ¬ Answers keys (prior ++ events) k pressed) := by
  constructor
  · intro n within
    have earlier := unanswered n (by rw [List.length_append]; omega)
    rwa [List.getElem_append_left within, List.take_append_of_le_length (Nat.le_of_lt within)] at earlier
  · have last := unanswered events.length (by simp)
    rwa [List.getElem_concat_length rfl, List.take_left] at last

/-- Where in the loop at `j` the tick after the events leads. -/
def nextPlace (keys : QtKeys) (prior events : List Event) (k : Fin 16) (pressed : Bool) (j : Nat) : Nat :=
  if tickCount events % 2 = 0 then if Answers keys (prior ++ events) k pressed then j + 2 else j + 1 else j

/-- At the `i`-th instruction with nothing changed since `start` but the place,
the keypad, the timers and what is shown. -/
structure Polling (code : Code) (start : World) (i : Nat) (w : World) : Prop where
  place : At code i w
  registers : w.vRegisters = start.vRegisters
  index : w.indexRegister = start.indexRegister
  stack : w.stackPointer = start.stackPointer
  ram : w.ram = start.ram
  picture : w.frameBuffer = start.frameBuffer
  latch : w.lastOpcode = start.lastOpcode

section Loop
variable {keys : QtKeys} {code : Code} {j : Nat} {x k : Fin 16} {pressed : Bool} {back : DByte} {start w : World}

theorem looped_same (looped : Looped instruction) (ticked : Ticked inputs w instruction next) :
    SameBesides w next ∧ next.vRegisters = w.vRegisters ∧ ∀ y, instruction ≠ .waitKey y := by
  have index := ticked.indexRegister
  have stack := ticked.stackPointer
  have ram := ticked.ram
  have picture := ticked.frameBuffer
  have latch := ticked.latch
  cases looped with
  | poll x pressed =>
    cases pressed with
    | true | false =>
      exact ⟨⟨index, stack, ram, picture, latch, ticked.lastTime, ticked.lastActiveKey, ticked.keyStatuses⟩,
        funext fun _ => ticked.registers_elsewhere List.not_mem_nil, fun _ => Instruction.noConfusion⟩
  | jump back =>
    exact ⟨⟨index, stack, ram, picture, latch, ticked.lastTime, ticked.lastActiveKey, ticked.keyStatuses⟩,
      funext fun _ => ticked.registers_elsewhere List.not_mem_nil, fun _ => Instruction.noConfusion⟩

/-- An instruction of the loop moves the place and nothing else. -/
theorem polling_moves (polling : Polling code start i w) (looped : Looped instruction)
    (ticked : Ticked inputs w instruction next) (target : next.programCounter.toNat = code.base + 2 * n)
    (within : n ≤ code.program.length) : Polling code start n next := by
  obtain ⟨same, registers, notWait⟩ := looped_same looped ticked
  exact {
    place := at_next polling.place notWait ticked (same.ram ▸ polling.place.placed) target within
    registers := registers.trans polling.registers
    index := same.index.trans polling.index
    stack := same.stack.trans polling.stack
    ram := same.ram.trans polling.ram
    picture := same.picture.trans polling.picture
    latch := same.latch.trans polling.latch }

/-- A poll goes by the key it asks for. -/
theorem poll_target (ticked : Ticked inputs w (keySkip x pressed) next) (asks : (w.vRegisters x).toNat = k.val)
    (status : w.interestedKeysStatuses k = if Down keys events k then 1 else 0) :
    next.programCounter.toNat = w.programCounter.toNat + if Answers keys events k pressed then 4 else 2 := by
  have target := ticked.programCounter
  have read : readAt w.fetched.interestedKeysStatuses (w.fetched.vRegisters x).toNat =
      if Down keys events k then 1 else 0 := by
    have asked : (w.fetched.vRegisters x).toNat = k.val := asks
    rw [asked, read_at_of_lt _ k.isLt]
    exact status
  rw [target]
  cases pressed with
  | true =>
    refine (skip_target ticked.fits _).trans ?_
    rw [read]
    by_cases down : Down keys events k <;> simp [Answers, down]
  | false =>
    refine (skip_target ticked.fits _).trans ?_
    rw [read]
    by_cases down : Down keys events k <;> simp [Answers, down]

/-- The tick at the poll leaves the loop or goes on to the jump. -/
theorem poll_leads (loop : PollsAt code j x pressed back) (polling : Polling code start j w)
    (asks : (start.vRegisters x).toNat = k.val)
    (status : w.interestedKeysStatuses k = if Down keys events k then 1 else 0) (inputs : TickInputs) :
    ∃ next, step keys w (.tick inputs) = some next ∧
      Polling code start (if Answers keys events k pressed then j + 2 else j + 1) next := by
  obtain ⟨low, decoded⟩ := at_decodes polling.place loop.poll
  obtain ⟨within, _⟩ := List.getElem?_eq_some_iff.mp loop.jump
  have asked : (w.vRegisters x).toNat = k.val := polling.registers ▸ asks
  have small : (w.vRegisters x).toNat < 16 := asked ▸ k.isLt
  obtain ⟨executed, effect⟩ : ∃ executed, execute inputs w.fetched (keySkip x pressed) = .ok executed := by
    cases pressed with
    | true | false => exact ⟨_, dif_pos small⟩
  have ticked : Ticked inputs w (keySkip x pressed) (executed.finish inputs) := ⟨low, decoded, executed, effect, rfl⟩
  have target := poll_target ticked asked status
  have counter := polling.place.counter
  refine ⟨_, step_tick_iff.mpr ⟨_, ticked⟩, polling_moves polling (.poll x pressed) ticked ?_ ?_⟩
  · rw [target, counter]
    split <;> omega
  · split <;> omega

/-- The tick at the jump goes back to the poll. -/
theorem jump_leads (keys : QtKeys) (loop : PollsAt code j x pressed back) (polling : Polling code start (j + 1) w)
    (inputs : TickInputs) :
    ∃ next, step keys w (.tick inputs) = some next ∧ Polling code start j next := by
  obtain ⟨low, decoded⟩ := at_decodes polling.place loop.jump
  obtain ⟨within, _⟩ := List.getElem?_eq_some_iff.mp loop.jump
  have ticked : Ticked inputs w (.jump back) _ := ⟨low, decoded, _, rfl, rfl⟩
  have target : _ = back := ticked.programCounter
  refine ⟨_, step_tick_iff.mpr ⟨_, ticked⟩, polling_moves polling (.jump back) ticked ?_ ?_⟩
  · rw [target, loop.entry]
  · omega

/-- What the user does in between keeps the loop going. -/
theorem user_keeps_polling (keys : QtKeys) (polling : Polling code start i w) (undisturbing : Undisturbing event)
    (notTick : ¬ event.isTick) :
    Live w event ∧ ∃ next, step keys w event = some next ∧ Polling code start i next := by
  cases event with
  | tick inputs => exact absurd rfl notTick
  | stopCpu => contradiction
  | startCpu => exact ⟨trivial, _, step_startCpu, { polling with place := { polling.place with running := rfl } }⟩
  | load file =>
    obtain rfl : file = none := undisturbing
    exact ⟨trivial, w, step_load_cancelled, polling⟩
  | keyPress key =>
    refine ⟨trivial, ?_⟩
    cases found : keys.find key with
    | none => exact ⟨w, step_iff.mpr (.otherPress found), polling⟩
    | some pad =>
      exact ⟨_, step_iff.mpr (.press found), { polling with place := { polling.place with } }⟩
  | keyRelease key readings =>
    refine ⟨trivial, ?_⟩
    cases found : keys.find key with
    | none => exact ⟨w, step_iff.mpr (.otherRelease found), polling⟩
    | some pad =>
      exact ⟨_, step_iff.mpr (.releaseRunning found polling.place.running),
        { polling with place := { polling.place with } }⟩

/-- The next tick of a run that polls. -/
theorem polling_goes_on {now : Time} {prior events : List Event} (run : Run (step keys) Live (.construct now) prior start)
    (loop : PollsAt code j x pressed back) (asks : (start.vRegisters x).toNat = k.val)
    (reached : Run (step keys) Live start events w) (polling : Polling code start (j + tickCount events % 2) w)
    (inputs : TickInputs) :
    ∃ next, step keys w (.tick inputs) = some next ∧
      Polling code start (nextPlace keys prior events k pressed j) next := by
  have status := (mirrors_of_run (run_append.mpr ⟨start, run, reached⟩)).statuses k
  rcases Nat.mod_two_eq_zero_or_one (tickCount events) with even | odd
  · rw [even] at polling
    rw [nextPlace, if_pos even]
    exact poll_leads loop polling asks status inputs
  · rw [odd] at polling
    rw [nextPlace, if_neg (by omega)]
    exact jump_leads keys loop polling inputs

end Loop

end Chip8Emulator.KeyPolling
