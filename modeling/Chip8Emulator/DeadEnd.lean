import Chip8Emulator.ProgramEnd

/-! A machine whose program counter has passed the last word. Only a tick moves
the program counter, and none completes there, so no event brings the machine
back, a load neither; all that is left is one register a wait may still write. -/
namespace Chip8Emulator.DeadEnd
open Foundations.Memory Foundations.Loops Foundations.Runs ProgramEnd

/-- What only a tick changes. -/
structure Frozen (w v : World) : Prop where
  programCounter : v.programCounter = w.programCounter
  stackPointer : v.stackPointer = w.stackPointer
  indexRegister : v.indexRegister = w.indexRegister
  delayTimer : v.delayTimer = w.delayTimer
  lowMemory : ∀ address < 0x200, readAt v.ram address = readAt w.ram address

theorem Frozen.refl (w : World) : Frozen w w := ⟨rfl, rfl, rfl, rfl, fun _ _ => rfl⟩

theorem Frozen.trans (first : Frozen w v) (second : Frozen v u) : Frozen w u where
  programCounter := second.programCounter.trans first.programCounter
  stackPointer := second.stackPointer.trans first.stackPointer
  indexRegister := second.indexRegister.trans first.indexRegister
  delayTimer := second.delayTimer.trans first.delayTimer
  lowMemory address low := (second.lowMemory address low).trans (first.lowMemory address low)

/-- The registers and the latch, with the wait pending in `w` either still so,
or completed with some key. -/
inductive WaitFrom (w v : World) : Prop where
  | kept (registers : v.vRegisters = w.vRegisters) (latch : v.lastOpcode = w.lastOpcode)
  | completed (key : Fin 16) (pending : w.lastOpcode ≠ 0) (latch : v.lastOpcode = 0)
      (registers : v.vRegisters = Function.update w.vRegisters (xOf w.lastOpcode) (BitVec.ofNat 8 key.val))

theorem no_tick_past_end (past : PastEnd w) : step keys w (.tick inputs) ≠ some next := by
  intro stepped
  obtain ⟨instruction, ticked⟩ := step_tick_iff.mp stepped
  exact Nat.not_lt.mpr ticked.fits past

theorem frozen_step (notTick : ¬ event.isTick) (stepped : step keys w event = some next) : Frozen w next := by
  rcases step_cases stepped with ⟨inputs, instruction, rfl, _, _⟩ | ⟨file, rfl, _, _, rfl⟩ | ⟨_, _, _, kept⟩
  · exact absurd rfl notTick
  · exact ⟨rfl, rfl, rfl, rfl, fun address low => read_loaded w file address low⟩
  · refine ⟨kept.programCounter, kept.stackPointer, kept.indexRegister, kept.delayTimer, fun address _ => ?_⟩
    rw [kept.ram]

/-- A wait completes once: after it the latch is clear, and a release with a
clear latch leaves it so. -/
theorem wait_step (wait : WaitFrom w v) (notTick : ¬ event.isTick) (stepped : step keys v event = some next) :
    WaitFrom w next := by
  have same (registers : next.vRegisters = v.vRegisters) (latch : next.lastOpcode = v.lastOpcode) :
      WaitFrom w next := by
    cases wait with
    | kept before pending => exact .kept (registers.trans before) (latch.trans pending)
    | completed key pending clear written =>
      exact .completed key pending (latch.trans clear) (registers.trans written)
  cases step_iff.mp stepped with
  | tick => exact absurd rfl notTick
  | releaseIdle found stopped idle => exact same rfl idle.symm
  | @releaseWaiting _ k _ found stopped pending =>
    cases wait with
    | kept registers latch =>
      rw [latch] at pending
      refine .completed k pending rfl ?_
      rw [← registers, ← latch]
      rfl
    | completed _ _ clear => exact absurd clear pending
  | _ => exact same rfl rfl

/-- Past the last word no event of any run is a tick that completes, and
`process` fails at any point of it. Nothing but the program memory, the
picture, the keypad and the timer changes, and of the registers the one of a
pending wait, once. -/
theorem end_is_final {keys : QtKeys} {w v : World} {events : List Event} (past : PastEnd w)
    (run : Run (step keys) (fun _ _ => True) w events v) :
    (∀ event ∈ events, ¬ event.isTick) ∧ Frozen w v ∧ WaitFrom w v ∧
      ∀ inputs, outcome ((process inputs).run v) = .error .ramOutOfRange := by
  have reached : (∀ event ∈ events, ¬ event.isTick) ∧ Frozen w v ∧ WaitFrom w v := by
    refine run_records (fun events v => (∀ event ∈ events, ¬ event.isTick) ∧ Frozen w v ∧ WaitFrom w v) ?_
      ⟨fun _ none => absurd none List.not_mem_nil, .refl w, .kept rfl rfl⟩ run
    rintro before s event t ⟨noTicks, frozen, wait⟩ _ stepped
    have still : PastEnd s := by
      unfold PastEnd
      rw [frozen.programCounter]
      exact past
    have notTick : ¬ event.isTick := by
      cases event with
      | tick inputs => exact absurd stepped (no_tick_past_end still)
      | _ => nofun
    refine ⟨?_, frozen.trans (frozen_step notTick stepped), wait_step wait notTick stepped⟩
    intro e member
    rcases List.mem_append.mp member with earlier | last
    · exact noTicks e earlier
    · rwa [List.mem_singleton.mp last]
  obtain ⟨noTicks, frozen, wait⟩ := reached
  refine ⟨noTicks, frozen, wait, fun inputs => ?_⟩
  have outside : ¬ v.programCounter.toNat ≤ 4094 := by
    rw [frozen.programCounter]
    exact Nat.not_le.mpr past
  rw [process_refines, tick, if_neg outside]

/-- Another program loaded and started after a jump to 0xFFF. -/
theorem end_is_final_reloaded : ∃ w v : World, w.programCounter = 0xFFF ∧
    Run (step .latin) (fun _ _ => True) w [.load (some [0x00, 0xE0]), .startCpu] v ∧ v.Running ∧
    ∀ inputs, outcome ((process inputs).run v) = .error .ramOutOfRange := by
  obtain ⟨w, _, ends⟩ := run_of_test (step .latin) Live (.construct 0)
    [.load (some [0x1F, 0xFF]), .startCpu, .tick (.reading 0)] (fun w => w.programCounter = 0xFFF) (by decide)
  have counter : w.programCounter = 0xFFF := of_decide_eq_true ends
  have past : PastEnd w := by
    rw [PastEnd, counter]
    decide
  have run : Run (step .latin) (fun _ _ => True) w [.load (some [0x00, 0xE0]), .startCpu]
      (w.loaded [0x00, 0xE0]).startTimer :=
    .next trivial (step_load.trans (if_pos (by decide))) (.next trivial step_startCpu .done)
  obtain ⟨_, _, _, fails⟩ := end_is_final past run
  exact ⟨w, _, counter, run, rfl, fails⟩

end Chip8Emulator.DeadEnd
