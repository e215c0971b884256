import Chip8Emulator.InstructionFrames
import Chip8Emulator.Foundations.Runs

/-! A program that asks for no key does not notice its user. Keys, Start and
Stop move the timer, the keypad and the monitor; what the program computes is
what its ticks and loads alone compute. -/
namespace Chip8Emulator.UserEvents
open Foundations.Runs

/-- A world with what the user and the monitor drive blanked. -/
def unattended (w : World) : World :=
  { w with
    mainProcessTimer := none
    lastUpdated := none
    lastActiveKey := 0
    interestedKeysStatuses := fun _ => 0
    emitted := [] }

def asksKey : Instruction → Bool
  | .skipIfKey _ | .skipUnlessKey _ | .waitKey _ => true
  | _ => false

/-- The event executes no instruction that asks for a key. -/
def AsksNoKey (w : World) (event : Event) : Prop :=
  ∀ instruction, event.instruction w = some instruction → ¬ asksKey instruction

instance (w : World) (event : Event) : Decidable (AsksNoKey w event) :=
  decidable_of_iff (∀ instruction ∈ event.instruction w, ¬ asksKey instruction) Iff.rfl

/-- An event of the program itself: a tick or a load. -/
def ofProgram (event : Event) : Bool := event.isTick || event.loads

/-- `v` does the same as `w`, in which no wait is pending, and goes on by itself
until it has run off the end of memory. -/
structure Follows (w v : World) : Prop where
  same : unattended w = unattended v
  idle : w.lastOpcode = 0
  goesOn : v.Running ∨ v.programCounter.toNat = ramSize

/-! ## Ticks -/

theorem execute_unattended (asksNone : ¬ asksKey instruction) (w : World) :
    (execute inputs w instruction).map unattended = (execute inputs (unattended w) instruction).map unattended := by
  cases instruction with
  | skipIfKey | skipUnlessKey | waitKey => exact absurd rfl asksNone
  | draw | bcd | save | restore =>
    simp only [execute, apply_ite (Except.map unattended)]
    rfl
  | _ => rfl

theorem ticked_unattended (asksNone : ¬ asksKey instruction) (same : unattended w = unattended v)
    (ticked : Ticked inputs w instruction next) :
    ∃ after, Ticked inputs v instruction after ∧ unattended next = unattended after := by
  have counter : w.programCounter = v.programCounter := congrArg (·.programCounter) same
  have ram : w.ram = v.ram := congrArg (·.ram) same
  have opcode : w.opcodeAt = v.opcodeAt := by
    rw [World.opcodeAt, World.opcodeAt, ram, counter]
  have fetched : unattended w.fetched = unattended v.fetched := by
    have left : unattended w.fetched = unattended (unattended w).fetched := rfl
    rw [left, same]
    rfl
  have effects : (execute inputs w.fetched instruction).map unattended =
      (execute inputs v.fetched instruction).map unattended := by
    rw [execute_unattended asksNone w.fetched, fetched, ← execute_unattended asksNone v.fetched]
  have finishes (s t : World) (now : unattended s = unattended t) :
      unattended (s.finish inputs) = unattended (t.finish inputs) := by
    have left : unattended (s.finish inputs) = unattended ((unattended s).finish inputs) := rfl
    rw [left, now]
    rfl
  exact ticked_matched unattended counter opcode effects finishes ticked

/-- Such an instruction leaves the timer and the latch to others. -/
theorem timer_of_quiet (asksNone : ¬ asksKey instruction) (w : World) :
    instruction.timerAfter w = w.mainProcessTimer ∧ instruction.latchAfter w = w.lastOpcode := by
  cases instruction with
  | waitKey => exact absurd rfl asksNone
  | _ => exact ⟨rfl, rfl⟩

/-- A tick is matched: `v` runs, since `w` would not tick at the end of memory. -/
theorem tick_followed (follows : Follows w v) (asksNone : ¬ asksKey instruction)
    (ticked : Ticked inputs w instruction next) :
    v.Running ∧ ∃ after, Ticked inputs v instruction after ∧ Follows next after := by
  obtain ⟨after, matched, same⟩ := ticked_unattended asksNone follows.same ticked
  have running : v.Running := by
    refine follows.goesOn.resolve_right fun ended => ?_
    have fits := matched.fits
    rw [ended] at fits
    exact absurd fits (by decide)
  refine ⟨running, after, matched, same, ?_, ?_⟩
  · rw [ticked.latch, (timer_of_quiet asksNone w.fetched).2]
    exact follows.idle
  · have timer := matched.timer
    rw [(timer_of_quiet asksNone v.fetched).1] at timer
    by_cases ended : after.programCounter.toNat = ramSize
    · exact .inr ended
    · rw [if_neg ended] at timer
      exact .inl (timer.trans running)

/-! ## The user's events -/

/-- What the user does changes nothing but what is blanked. -/
theorem user_followed (follows : Follows w v) (user : ¬ ofProgram event)
    (stepped : step keys w event = some next) : Follows next v := by
  obtain ⟨same, idle, goesOn⟩ := follows
  have latched (readings : SteadyReadings) (k : Fin 16) :
      unattended ((w.recordKey k 0).beginWait 0 readings) = unattended w := by
    have blanked : unattended ((w.recordKey k 0).beginWait 0 readings) = { unattended w with lastOpcode := 0 } := rfl
    rw [blanked, ← idle]
    rfl
  cases step_iff.mp stepped with
  | tick ticked | loaded fits => exact absurd rfl user
  | releaseIdle found stopped _ => exact ⟨(latched _ _).trans same, rfl, goesOn⟩
  | releaseWaiting found stopped pending => exact absurd idle pending
  | _ => exact ⟨same, idle, goesOn⟩

theorem load_followed (follows : Follows w v) (file : List Byte) : Follows (w.loaded file) (v.loaded file) := by
  refine ⟨?_, follows.idle, follows.goesOn⟩
  have left : unattended (w.loaded file) = unattended ((unattended w).loaded file) := rfl
  rw [left, follows.same]
  rfl

/-- Without its user's events a run that asks for no key, from a running machine
with no wait pending, goes the same way: the ticks and loads complete by
themselves and compute the same. -/
theorem user_is_invisible {keys : QtKeys} {start last : World} {events : List Event} (running : start.Running)
    (idle : start.lastOpcode = 0)
    (run : Run (step keys) (fun w event => Live w event ∧ AsksNoKey w event) start events last) :
    ∃ alone, Run (step keys) Live start (events.filter ofProgram) alone ∧ unattended alone = unattended last := by
  have projected : ∃ alone, Run (step keys) Live start (events.filterMap (Option.guard ofProgram)) alone ∧
      Follows last alone := by
    refine run_projects Follows (Option.guard ofProgram) ?_ ?_ ⟨rfl, idle, .inl running⟩ run
    · intro w event next v follows _ hidden stepped
      exact user_followed follows (by simpa using Option.guard_eq_none_iff.mp hidden) stepped
    · intro w event next v sent follows allowed visible stepped
      obtain ⟨rfl, program⟩ := Option.guard_eq_some_iff.mp visible
      cases step_iff.mp stepped with
      | tick ticked =>
        obtain ⟨goes, after, matched, now⟩ := tick_followed follows (allowed.2 _ ticked.decoded) ticked
        exact ⟨goes, after, step_iff.mpr (.tick matched), now⟩
      | loaded fits => exact ⟨trivial, _, step_iff.mpr (.loaded fits), load_followed follows _⟩
      | _ => contradiction
  rw [List.filterMap_eq_filter] at projected
  obtain ⟨alone, run, follows⟩ := projected
  exact ⟨alone, run, follows.same.symm⟩

/-- A program that loads two registers, stopped, released a key to and started
between the two. -/
def interrupted : List Event :=
  [.tick (.reading 0), .stopCpu, .keyRelease 0x30 { first := 0, now := 0 }, .startCpu, .tick (.reading 0)]

theorem user_is_invisible_between : ∃ alone last : World, last.vRegisters 1 = 7 ∧
    Run (step .latin) Live (World.loaded (.construct 0) [0x60, 0x05, 0x61, 0x07]).startTimer
      (interrupted.filter ofProgram) alone ∧ unattended alone = unattended last := by
  obtain ⟨last, run, ends⟩ := run_of_test (step .latin) (fun w event => Live w event ∧ AsksNoKey w event)
    (World.loaded (.construct 0) [0x60, 0x05, 0x61, 0x07]).startTimer interrupted (fun w => w.vRegisters 1 = 7)
    (by decide)
  obtain ⟨alone, quiet, same⟩ := user_is_invisible (by decide) rfl run
  exact ⟨alone, last, of_decide_eq_true ends, quiet, same⟩

end Chip8Emulator.UserEvents
