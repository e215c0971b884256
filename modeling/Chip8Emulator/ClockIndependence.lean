import Chip8Emulator.InstructionFrames
import Chip8Emulator.Foundations.Runs

/-! Two runs that differ in their clock readings alone. The clocks drive the
delay timer, the throttle of the monitor and the signals; of these only the
delay timer is read back, and only by `Fx07`, so everything else agrees. -/
namespace Chip8Emulator.ClockIndependence
open Foundations.Memory Foundations.Runs

/-- A world with everything the clocks drive blanked. -/
def unclocked (w : World) : World :=
  { w with
    delayTimer := 0
    lastTime := 0
    lastUpdated := none
    emitted := [] }

/-- Agreement on everything the clocks do not drive. -/
structure Agree (w v : World) : Prop where
  vRegisters : w.vRegisters = v.vRegisters
  indexRegister : w.indexRegister = v.indexRegister
  programCounter : w.programCounter = v.programCounter
  stackPointer : w.stackPointer = v.stackPointer
  ram : w.ram = v.ram
  frameBuffer : w.frameBuffer = v.frameBuffer
  keyStatuses : w.interestedKeysStatuses = v.interestedKeysStatuses
  lastActiveKey : w.lastActiveKey = v.lastActiveKey
  latch : w.lastOpcode = v.lastOpcode
  timer : w.mainProcessTimer = v.mainProcessTimer

theorem agree_iff : Agree w v ↔ unclocked w = unclocked v := by
  constructor
  · rintro ⟨h1, h2, h3, h4, h5, h6, h7, h8, h9, h10⟩
    simp only [unclocked, h1, h2, h3, h4, h5, h6, h7, h8, h9, h10]
  · intro same
    exact ⟨congrArg (·.vRegisters) same, congrArg (·.indexRegister) same, congrArg (·.programCounter) same,
      congrArg (·.stackPointer) same, congrArg (·.ram) same, congrArg (·.frameBuffer) same,
      congrArg (·.interestedKeysStatuses) same, congrArg (·.lastActiveKey) same,
      congrArg (·.lastOpcode) same, congrArg (·.mainProcessTimer) same⟩

/-- The same event, its clocks aside. -/
inductive SameButClocks : Event → Event → Prop where
  | tick (rand : first.rand = second.rand) : SameButClocks (.tick first) (.tick second)
  | keyRelease : SameButClocks (.keyRelease key first) (.keyRelease key second)
  | same : SameButClocks event event

/-- An instruction that does not read the delay timer has the same effect on
the blanked world. -/
theorem execute_unclocked (notRead : ∀ x, instruction ≠ .readDelay x) (rand : first.rand = second.rand)
    (w : World) :
    (execute first w instruction).map unclocked = (execute second (unclocked w) instruction).map unclocked := by
  cases instruction with
  | readDelay x => exact absurd rfl (notRead x)
  | random x kk =>
    simp only [execute, rand]
    rfl
  | waitKey x =>
    simp only [execute, Except.map, apply_ite unclocked]
    rfl
  | draw | bcd | save | restore =>
    simp only [execute, apply_ite (Except.map unclocked)]
    rfl
  | skipIfKey | skipUnlessKey =>
    simp only [execute, apply_dite (Except.map unclocked)]
    rfl
  | _ => rfl

/-- Finishing a tick blanks to the same world whatever the clocks read. -/
theorem finish_unclocked (w : World) (first second : TickInputs) :
    unclocked (w.finish first) = unclocked ((unclocked w).finish second) := rfl

theorem ticked_unclocked (notRead : ∀ x, instruction ≠ .readDelay x) (rand : first.rand = second.rand)
    (agree : Agree w v) (ticked : Ticked first w instruction next) :
    ∃ after, Ticked second v instruction after ∧ Agree next after := by
  have same := agree_iff.mp agree
  have opcode : w.opcodeAt = v.opcodeAt := by
    rw [World.opcodeAt, World.opcodeAt, agree.ram, agree.programCounter]
  have fetched : unclocked w.fetched = unclocked v.fetched := by
    have left : unclocked w.fetched = unclocked (unclocked w).fetched := rfl
    rw [left, same]
    rfl
  have effects := execute_unclocked notRead rand w.fetched
  rw [fetched, ← execute_unclocked notRead rfl v.fetched] at effects
  have finishes (s t : World) (now : unclocked s = unclocked t) :
      unclocked (s.finish first) = unclocked (t.finish second) := by
    rw [finish_unclocked s first second, now]
    rfl
  obtain ⟨after, follows, equal⟩ := ticked_matched unclocked agree.programCounter opcode effects finishes ticked
  exact ⟨after, follows, agree_iff.mpr equal⟩

/-- An event that does not read the delay timer. -/
def ReadsNoDelay (w : World) (event : Event) : Prop := ∀ x, event.instruction w ≠ some (.readDelay x)

instance : ∀ w event, Decidable (ReadsNoDelay w event) := fun _ _ =>
  inferInstanceAs (Decidable (∀ _, _))

theorem same_tick (same : SameButClocks (.tick first) other) :
    ∃ second, other = .tick second ∧ first.rand = second.rand := by
  cases same with
  | tick rand => exact ⟨_, rfl, rand⟩
  | same => exact ⟨_, rfl, rfl⟩

theorem same_release (same : SameButClocks (.keyRelease key first) other) :
    ∃ second, other = .keyRelease key second := by
  cases same with
  | keyRelease => exact ⟨_, rfl⟩
  | same => exact ⟨_, rfl⟩

/-- A change that does not look at what the clocks drive keeps agreement. -/
theorem agree_changed (change other : World → World)
    (blind : ∀ w, unclocked (change w) = unclocked (other (unclocked w)))
    (otherBlind : ∀ w, unclocked (other w) = unclocked (other (unclocked w))) (agree : Agree w v) :
    Agree (change w) (other v) := by
  rw [agree_iff, blind w, agree_iff.mp agree, ← otherBlind v]

/-- Agreeing worlds make the same transition, whatever the clocks read. -/
theorem transition_agrees (agree : Agree w v) (same : SameButClocks event other)
    (readsNone : ReadsNoDelay w event) (transition : Transition keys w event next) :
    ∃ after, Transition keys v other after ∧ Agree next after := by
  have running : w.Running ↔ v.Running := by rw [Chip8Pc.Running, Chip8Pc.Running, agree.timer]
  cases transition with
  | @tick first instruction _ ticked =>
    have notRead : ∀ x, instruction ≠ .readDelay x := by
      rintro x rfl
      exact readsNone x ticked.decoded
    obtain ⟨second, rfl, rand⟩ := same_tick same
    obtain ⟨after, ticks, agrees⟩ := ticked_unclocked notRead rand agree ticked
    exact ⟨after, .tick ticks, agrees⟩
  | start =>
    cases same
    exact ⟨_, .start, agree_changed (·.startTimer) (·.startTimer) (fun _ => rfl) (fun _ => rfl) agree⟩
  | stop =>
    cases same
    exact ⟨_, .stop, agree_changed (·.stopTimer) (·.stopTimer) (fun _ => rfl) (fun _ => rfl) agree⟩
  | otherPress missing =>
    cases same
    exact ⟨_, .otherPress missing, agree⟩
  | press found =>
    cases same
    exact ⟨_, .press found,
      agree_changed (·.recordKey _ 1) (·.recordKey _ 1) (fun _ => rfl) (fun _ => rfl) agree⟩
  | otherRelease missing =>
    obtain ⟨second, rfl⟩ := same_release same
    exact ⟨_, .otherRelease missing, agree⟩
  | releaseRunning found isRunning =>
    obtain ⟨second, rfl⟩ := same_release same
    exact ⟨_, .releaseRunning found (running.mp isRunning),
      agree_changed (·.recordKey _ 0) (·.recordKey _ 0) (fun _ => rfl) (fun _ => rfl) agree⟩
  | @releaseIdle key k readings found stopped idle =>
    obtain ⟨second, rfl⟩ := same_release same
    exact ⟨_, .releaseIdle found (agree.timer ▸ stopped) (agree.latch ▸ idle),
      agree_changed (fun w => (w.recordKey k 0).beginWait 0 readings)
        (fun w => (w.recordKey k 0).beginWait 0 second) (fun _ => rfl) (fun _ => rfl) agree⟩
  | @releaseWaiting key k readings found stopped pending =>
    obtain ⟨second, rfl⟩ := same_release same
    exact ⟨_, .releaseWaiting found (agree.timer ▸ stopped) (agree.latch ▸ pending),
      agree_changed (fun w => (w.recordKey k 0).completeWait) (fun w => (w.recordKey k 0).completeWait)
        (fun _ => rfl) (fun _ => rfl) agree⟩
  | cancelled =>
    cases same
    exact ⟨_, .cancelled, agree⟩
  | @loaded file fits =>
    cases same
    exact ⟨_, .loaded fits, agree_changed (·.loaded file) (·.loaded file) (fun _ => rfl) (fun _ => rfl) agree⟩

theorem runs_agree (agree : Agree w v) (same : List.Forall₂ SameButClocks events others)
    (run : Run (step keys) ReadsNoDelay w events next) :
    ∃ after, Run (step keys) (fun _ _ => True) v others after ∧ Agree next after := by
  refine run_simulates Agree SameButClocks ?_ agree same run
  intro w event next v other agree same readsNone stepped
  obtain ⟨after, transition, agrees⟩ := transition_agrees agree same readsNone (step_iff.mp stepped)
  exact ⟨trivial, after, step_iff.mpr transition, agrees⟩

/-- A run that executes no `Fx07` goes the same way under any other clock
readings: the other run completes too, and after every step the two agree. -/
theorem clock_is_invisible {keys : QtKeys} {start last : World} {events others : List Event}
    (run : Run (step keys) ReadsNoDelay start events last) (same : List.Forall₂ SameButClocks events others) :
    ∀ n, ∃ w v, Run (step keys) (fun _ _ => True) start (events.take n) w ∧
      Run (step keys) (fun _ _ => True) start (others.take n) v ∧ Agree w v := by
  intro n
  rw [← List.take_append_drop n events] at run
  obtain ⟨w, front, _⟩ := run_append.mp run
  obtain ⟨v, otherFront, agree⟩ := runs_agree (agree_iff.mpr rfl) (List.forall₂_take n same) front
  exact ⟨w, v, run_weaken (fun _ _ _ => trivial) front, otherFront, agree⟩

/-- A delay set at once and one set ten seconds later. -/
theorem clock_is_invisible_late : ∃ w v : World, w.delayTimer = 5 ∧ v.delayTimer = 0 ∧ Agree w v := by
  let program : Event := .load (some [0x60, 0x05, 0xF0, 0x15])
  obtain ⟨w, run, ends⟩ := run_of_test (step .latin) ReadsNoDelay (.construct 0)
    [program, .tick (.reading 0), .tick (.reading 0)] (fun w => w.delayTimer = 5) (by decide)
  obtain ⟨v, otherRun, otherEnds⟩ := run_of_test (step .latin) (fun _ _ => True) (.construct 0)
    [program, .tick (.reading 10000000000), .tick (.reading 10000000000)] (fun v => v.delayTimer = 0)
    (by decide)
  have same : List.Forall₂ SameButClocks [program, .tick (.reading 0), .tick (.reading 0)]
      [program, .tick (.reading 10000000000), .tick (.reading 10000000000)] :=
    .cons .same (.cons (.tick rfl) (.cons (.tick rfl) .nil))
  obtain ⟨first, second, reached, otherReached, agree⟩ := clock_is_invisible run same 3
  obtain rfl := run_deterministic reached run
  obtain rfl := run_deterministic otherReached otherRun
  exact ⟨first, second, of_decide_eq_true ends, of_decide_eq_true otherEnds, agree⟩

end Chip8Emulator.ClockIndependence
