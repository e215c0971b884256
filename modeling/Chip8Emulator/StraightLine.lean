import Chip8Emulator.FaultCharacterisation
import Chip8Emulator.InstructionFrames
import Chip8Emulator.Foundations.Runs

/-! Programs without jumps, skips and waits. Every tick moves two bytes on,
whatever it stores into the code ahead, so an even start meets the equality
test at the end of RAM, and nothing else stops the timer before. -/
namespace Chip8Emulator.StraightLine
open Foundations.Memory Foundations.Runs FaultCharacterisation

/-- The opcodes that neither move control nor wait. -/
def Straight (opcode : DByte) : Prop :=
  opcode.toNat ≠ 0x00EE ∧ opcode.toNat / 0x1000 ∉ [0x1, 0x2, 0x3, 0x4, 0x5, 0x9, 0xB] ∧
    ¬ Pattern opcode 0xE 0x9E ∧ ¬ Pattern opcode 0xE 0xA1 ∧ ¬ Pattern opcode 0xF 0x0A

/-- A tick that executes one of them. -/
def StraightTick (w : World) (event : Event) : Prop := event.isTick ∧ Straight w.opcodeAt

instance (opcode : DByte) (lead low : Nat) : Decidable (Pattern opcode lead low) :=
  inferInstanceAs (Decidable (_ ∧ _))

instance (opcode : DByte) : Decidable (Straight opcode) := inferInstanceAs (Decidable (_ ∧ _))

instance : ∀ w event, Decidable (StraightTick w event) := fun _ _ =>
  inferInstanceAs (Decidable (_ ∧ _))

/-- A straight instruction leaves the counter past itself and the timer alone. -/
theorem straight_effects (straight : Straight opcode) (decoded : decode opcode = some instruction) (w : World) :
    instruction.programCounterAfter w = w.programCounter ∧ instruction.timerAfter w = w.mainProcessTimer := by
  obtain ⟨notReturn, notLead, notIf, notUnless, notWait⟩ := straight
  have encoded := decode_iff.mp decoded
  cases instruction with
  | ret => exact absurd encoded notReturn
  | jump | call | jumpOffset | skipIfByte | skipUnlessByte | skipIfSame | skipUnlessSame =>
    exact absurd (by simp [encoded.1]) notLead
  | skipIfKey x => exact absurd ⟨encoded.1, encoded.2.1⟩ notIf
  | skipUnlessKey x => exact absurd ⟨encoded.1, encoded.2.1⟩ notUnless
  | waitKey x => exact absurd ⟨encoded.1, encoded.2.1⟩ notWait
  | _ => exact ⟨rfl, rfl⟩

/-- A straight tick under a running timer moves on by one word and stops the
timer exactly at the end of RAM. -/
theorem straight_step (straight : Straight w.opcodeAt) (running : w.Running)
    (ticked : Ticked inputs w instruction next) :
    next.programCounter.toNat = w.programCounter.toNat + 2 ∧
      (next.Running ↔ next.programCounter.toNat ≠ 4096) := by
  obtain ⟨counter, timer⟩ := straight_effects straight ticked.decoded w.fetched
  constructor
  · rw [ticked.programCounter, counter]
    exact next_word ticked.fits
  · have active : w.fetched.mainProcessTimer = some { isActive := true } := running
    rw [Chip8Pc.Running, ticked.timer, timer, active]
    by_cases atEnd : next.programCounter.toNat = ramSize
    · rw [if_pos atEnd]
      exact iff_of_false (by simp) (fun different => different atEnd)
    · rw [if_neg atEnd]
      exact iff_of_true rfl atEnd

/-- How far a straight run has come, and that only the end of RAM stops it. -/
structure Progress (p : Nat) (events : List Event) (w : World) : Prop where
  counter : w.programCounter.toNat = p + 2 * events.length
  inside : p + 2 * events.length ≤ 4096
  running : w.Running ↔ w.programCounter.toNat ≠ 4096

theorem progress_of_run {start w : World} (inside : start.programCounter.toNat < 4096)
    (running : start.Running) (run : Run (step keys) StraightTick start events w) :
    Progress start.programCounter.toNat events w := by
  refine run_records (Progress start.programCounter.toNat) ?_ ?_ run
  · rintro before s event t ⟨counter, _, runs⟩ ⟨isTick, straight⟩ stepped
    cases event with
    | tick inputs =>
      obtain ⟨instruction, ticked⟩ := step_tick_iff.mp stepped
      have fits := ticked.fits
      have moved := straight_step straight (runs.mpr (by omega)) ticked
      have length : (before ++ [Event.tick inputs]).length = before.length + 1 := by simp
      exact ⟨by omega, by omega, moved.2⟩
    | _ => contradiction
  · exact ⟨rfl, Nat.le_of_lt inside, iff_of_true running (Nat.ne_of_lt inside)⟩

/-- A straight run from an even address executes the words one after another,
never more than there are, and stops itself after the last one. -/
theorem straight_line_halts {keys : QtKeys} {start last : World} {events : List Event}
    (run : Run (step keys) StraightTick start events last) (running : start.Running)
    (even : start.programCounter.toNat % 2 = 0) (inside : start.programCounter.toNat < 4096) :
    (∀ before event after w, events = before ++ event :: after →
      Run (step keys) StraightTick start before w →
      w.opcodeAt = readAt w.ram (start.programCounter.toNat + 2 * before.length) ++
        readAt w.ram (start.programCounter.toNat + 2 * before.length + 1) ∧ w.Running ∧
      ∃ inputs instruction next, event = .tick inputs ∧ Ticked inputs w instruction next ∧
        Run (step keys) StraightTick next after last) ∧
    events.length ≤ (4096 - start.programCounter.toNat) / 2 ∧
    (last.Running ↔ events.length < (4096 - start.programCounter.toNat) / 2) ∧
    (events.length = (4096 - start.programCounter.toNat) / 2 →
      last.programCounter.toNat = 4096 ∧ ¬ last.Running) := by
  obtain ⟨counter, bound, runs⟩ := progress_of_run inside running run
  refine ⟨?_, by omega, ?_, fun whole => ⟨by omega, fun still => ?_⟩⟩
  · rintro before event after w rfl reached
    obtain ⟨reachedCounter, _, reachedRuns⟩ := progress_of_run inside running reached
    rw [List.length_append, List.length_cons] at bound
    refine ⟨?_, reachedRuns.mpr (by omega), ?_⟩
    · rw [← reachedCounter]
      rfl
    · obtain ⟨⟨isTick, _⟩, next, stepped, rest⟩ := run_cons.mp (run_after run reached)
      cases event with
      | tick inputs =>
        obtain ⟨instruction, ticked⟩ := step_tick_iff.mp stepped
        exact ⟨inputs, instruction, next, rfl, ticked, rest⟩
      | _ => contradiction
  · rw [runs]
    omega
  · exact runs.mp still (by omega)

/-- A running machine with four words at the end of RAM: `6063`, `AFFE` and
`F055` make the last one, `602A`, a `632A`. -/
def fourWordsLeft : World :=
  { (World.construct 0).startTimer with
    programCounter := 0xFF8
    ram := storeList (World.construct 0).ram 0xFF8 [0x60, 0x63, 0xAF, 0xFE, 0xF0, 0x55, 0x60, 0x2A] }

/-- The last word is executed as it was stored, and the machine stops behind it. -/
theorem straight_line_halts_four_words : ∃ last : World,
    Run (step .latin) StraightTick fourWordsLeft (List.replicate 4 (.tick (.reading 0))) last ∧
    last.vRegisters 3 = 0x2A ∧ last.programCounter.toNat = 4096 ∧ ¬ last.Running := by
  obtain ⟨last, run, ends⟩ := run_of_test (step .latin) StraightTick fourWordsLeft
    (List.replicate 4 (.tick (.reading 0))) (fun w => w.vRegisters 3 = 0x2A) (by decide +kernel)
  obtain ⟨_, _, _, halts⟩ := straight_line_halts run rfl (by decide) (by decide)
  exact ⟨last, run, of_decide_eq_true ends, halts (by decide)⟩

end Chip8Emulator.StraightLine
