import Chip8Emulator.InstructionFrames
import Chip8Emulator.Foundations.Runs

/-! The delay timer against the clock. Every tick subtracts the sixtieths
elapsed since the machine was constructed, not since the previous tick, so
what is gone after a run is the sum of these counts over its ticks. -/
namespace Chip8Emulator.DelayTimer
open Foundations.Runs

/-- The clock reading of a tick. -/
def readingOf : Event → Option Time
  | .tick inputs => some inputs.now
  | _ => none

/-- The clock readings of the ticks of a run, in order. -/
def readings (events : List Event) : List Time := events.filterMap readingOf

/-- The counts the ticks at these readings subtract. -/
def subtracted (constructed : Time) (readings : List Time) : Nat :=
  (readings.map fun now => (sixtieths (now - constructed)).toNat).sum

/-- The whole sixtieths of a second from one reading to another. -/
def wholeSixtieths (s t : Time) : Nat := ((t - s) * 3 / 50000000).toNat

/-- A timer set to `d` at `s` shows at `t` what is left of it, up to one unit. -/
def CountsDown (d : Nat) (s t : Time) (delay : Nat) : Prop :=
  delay ≤ d - wholeSixtieths s t + 1 ∧ d - wholeSixtieths s t ≤ delay + 1

/-- No instruction sets the timer. -/
def LeavesTimer (w : World) (event : Event) : Prop := ∀ x, event.instruction w ≠ some (.setDelay x)

instance : ∀ w event, Decidable (LeavesTimer w event) := fun _ _ =>
  inferInstanceAs (Decidable (∀ _, _))

theorem last_time_step (stepped : step keys w event = some next) : next.lastTime = w.lastTime := by
  rcases step_cases stepped with ⟨_, _, rfl, _, ticked⟩ | ⟨_, _, _, _, rfl⟩ | ⟨_, _, _, same⟩
  · exact ticked.lastTime
  · rfl
  · exact same.lastTime

/-- Only the constructor reads the clock into `last_time`. -/
theorem last_time_of_run (run : Run (step keys) allowed w events next) : next.lastTime = w.lastTime :=
  run_relates (fun w next : World => next.lastTime = w.lastTime) (fun _ => rfl)
    (fun _ _ _ _ related _ stepped => (last_time_step stepped).trans related) run

theorem delay_step (leaves : LeavesTimer w event) (stepped : step keys w event = some next) :
    next.delayTimer.toNat = w.delayTimer.toNat - subtracted w.lastTime (readings [event]) := by
  rcases step_cases stepped with ⟨inputs, instruction, rfl, executed, ticked⟩ |
      ⟨file, rfl, _, _, rfl⟩ | ⟨_, notTick, _, same⟩
  · have kept : instruction.delayTimerAfter w.fetched = w.delayTimer := by
      cases instruction with
      | setDelay x => exact absurd executed (leaves x)
      | _ => rfl
    rw [ticked.delayTimer, kept]
    simp [readings, subtracted, readingOf]
  · rfl
  · have none : readings [event] = [] := by
      cases event with
      | tick inputs => exact absurd rfl notTick
      | _ => rfl
    rw [same.delayTimer, none]
    rfl

theorem subtracted_append (constructed : Time) (first second : List Time) :
    subtracted constructed (first ++ second) = subtracted constructed first + subtracted constructed second := by
  simp [subtracted]

/-- A run that does not set the timer subtracts the counts of its ticks. -/
theorem delay_of_run (run : Run (step keys) LeavesTimer w events next) :
    next.delayTimer.toNat = w.delayTimer.toNat - subtracted w.lastTime (readings events) := by
  induction run with
  | done => rfl
  | @next w event m events last permitted stepped rest ih =>
    have split : readings (event :: events) = readings [event] ++ readings events := by
      rw [readings, readings, readings, ← List.filterMap_append]
      rfl
    rw [ih, delay_step permitted stepped, last_time_step stepped, split, subtracted_append, Nat.sub_sub]

/-- A set is worth its register less the counts of its own tick. -/
theorem set_step (ticked : Ticked inputs w (.setDelay x) next) :
    next.delayTimer.toNat = (w.vRegisters x).toNat - (sixtieths (inputs.now - w.lastTime)).toNat := by
  rw [← widened_toNat]
  exact ticked.delayTimer

/-- What is left after a set: the set value less the counts of its own tick and
of the later ones. -/
theorem delay_after_set (ticked : Ticked inputs w (.setDelay x) started)
    (rest : Run (step keys) LeavesTimer started after last) :
    last.delayTimer.toNat =
      (w.vRegisters x).toNat - subtracted w.lastTime (readings (.tick inputs :: after)) := by
  rw [delay_of_run rest, set_step ticked, ticked.lastTime, Nat.sub_sub]
  rfl

/-- The timer counts down at 60 Hz exactly when the counts subtracted from the
set on, as far as they reach, are the sixtieths elapsed since then. -/
theorem counts_down_iff {keys : QtKeys} {constructed : Time} {before between : List Event}
    {w started last : World} {x : Fin 16} {inputs final : TickInputs}
    (run : Run (step keys) (fun _ _ => True) (.construct constructed) before w)
    (executes : decode w.opcodeAt = some (.setDelay x)) (stepped : step keys w (.tick inputs) = some started)
    (rest : Run (step keys) LeavesTimer started (between ++ [.tick final]) last) :
    let d := (w.vRegisters x).toNat
    let counts := subtracted constructed (readings (.tick inputs :: between ++ [.tick final]))
    let elapsed := wholeSixtieths inputs.now final.now
    CountsDown d inputs.now final.now last.delayTimer.toNat ↔
      min d counts ≤ min d elapsed + 1 ∧ min d elapsed ≤ min d counts + 1 := by
  intro d counts elapsed
  obtain ⟨instruction, ticked⟩ := step_tick_iff.mp stepped
  obtain rfl : instruction = .setDelay x := Option.some.inj (ticked.decoded.symm.trans executes)
  have since : w.lastTime = constructed := last_time_of_run run
  have left : last.delayTimer.toNat = d - counts := by
    rw [delay_after_set ticked rest, since]
    rfl
  unfold CountsDown
  omega

/-- A set at the time of construction, and a tick 50 milliseconds later: three
sixtieths are counted. -/
theorem counts_down_three : ∃ last : World, last.delayTimer = 252 ∧
    CountsDown 0xFF 0 50000000 last.delayTimer.toNat := by
  obtain ⟨w, run, ends⟩ := run_of_test (step .latin) (fun _ _ => True)
    (.construct 0) [.load (some [0x60, 0xFF, 0xF0, 0x15]), .tick (.reading 0)]
    (fun w : World => decode w.opcodeAt = some (.setDelay 0) ∧ w.vRegisters 0 = 0xFF ∧
      ((step .latin w (.tick (.reading 0))).bind (runFrom (step .latin) LeavesTimer ·
        ([] ++ [.tick (.reading 50000000)]))).any fun last => last.delayTimer = 252)
    (by decide)
  obtain ⟨executes, value, completes⟩ := of_decide_eq_true ends
  obtain ⟨started, last, stepped, rest, counted⟩ := continued_of_test _ completes
  have exactly := counts_down_iff run executes stepped rest
  rw [value] at exactly
  exact ⟨last, of_decide_eq_true counted, exactly.mpr (by decide)⟩

/-- A set ten seconds after construction is gone before its own tick ends. -/
theorem late_set_is_lost :
    ¬ ∀ (keys : QtKeys) (constructed : Time) (before between : List Event) (w started last : World) (x : Fin 16)
      (inputs final : TickInputs), Run (step keys) Live (.construct constructed) before w →
      decode w.opcodeAt = some (.setDelay x) → Live w (.tick inputs) → step keys w (.tick inputs) = some started →
      Run (step keys) (fun w event => Live w event ∧ LeavesTimer w event) started (between ++ [.tick final]) last →
      (constructed :: readings (before ++ .tick inputs :: between ++ [.tick final])).Pairwise (· ≤ ·) →
      CountsDown (w.vRegisters x).toNat inputs.now final.now last.delayTimer.toNat := by
  intro always
  obtain ⟨w, run, ends⟩ := run_of_test (step .latin) Live
    (.construct 0) [.load (some [0x60, 0xFF, 0xF0, 0x15]), .startCpu, .tick (.reading 10000000000)]
    (fun w : World => decode w.opcodeAt = some (.setDelay 0) ∧
      Live w (.tick (.reading 10000000000)) ∧ w.vRegisters 0 = 0xFF ∧
      ((step .latin w (.tick (.reading 10000000000))).bind (runFrom (step .latin)
        (fun w event => Live w event ∧ LeavesTimer w event) ·
        ([] ++ [.tick (.reading 10000000000)]))).any fun last => last.delayTimer = 0)
    (by decide)
  obtain ⟨executes, live, value, completes⟩ := of_decide_eq_true ends
  obtain ⟨started, last, stepped, rest, ends⟩ := continued_of_test _ completes
  have gone : last.delayTimer = 0 := of_decide_eq_true ends
  have counts := always .latin 0 _ [] w started last 0 (.reading 10000000000) (.reading 10000000000)
    run executes live stepped rest (by decide)
  rw [value, gone] at counts
  exact absurd counts.2 (by decide)

/-! ## Range -/

/-- The update takes off what there is, at most. -/
theorem update_takes_off (v after : World) (now : Time) (updates : (updateDelayTimer now).run v = .ok () after) :
    after.delayTimer.toNat + min (sixtieths (now - v.lastTime)).toNat v.delayTimer.toNat = v.delayTimer.toNat := by
  rw [run_updateDelayTimer] at updates
  cases updates
  change (v.delayAfter now).toNat + _ = _
  unfold World.delayAfter
  by_cases expired : sixtieths (now - v.lastTime) > v.delayTimer
  · rw [if_pos expired]
    rw [gt_iff_lt, BitVec.lt_def] at expired
    simp
    omega
  · rw [if_neg expired]
    rw [gt_iff_lt, BitVec.lt_def] at expired
    rw [BitVec.toNat_sub_of_le (BitVec.le_def.mpr (Nat.not_lt.mp expired))]
    omega

/-- A timer within a byte stays there: only a register is ever put into it. -/
theorem range_step (small : w.delayTimer.toNat ≤ 255) (stepped : step keys w event = some next) :
    next.delayTimer.toNat ≤ 255 := by
  by_cases sets : ∃ x, event.instruction w = some (.setDelay x)
  · obtain ⟨x, executed⟩ := sets
    cases event with
    | tick inputs =>
      obtain ⟨instruction, ticked⟩ := step_tick_iff.mp stepped
      obtain rfl : instruction = .setDelay x := Option.some.inj (ticked.decoded.symm.trans executed)
      have left := set_step ticked
      have register := (w.vRegisters x).isLt
      omega
    | _ => contradiction
  · have left := delay_step (not_exists.mp sets) stepped
    omega

theorem range_of_run (run : Run (step keys) allowed (.construct now) events w) : w.delayTimer.toNat ≤ 255 :=
  run_invariant (fun w : World => w.delayTimer.toNat ≤ 255)
    (fun _ _ _ small _ stepped => range_step small stepped) (Nat.zero_le _) run

/-- In every reachable state the timer fits a byte; ticks other than a set never
raise it, a set is bounded by its register, a read loses nothing, and the update
never wraps. -/
theorem delay_timer_in_range {keys : QtKeys} {constructed : Time} {events : List Event} {w : World}
    (run : Run (step keys) (fun _ _ => True) (.construct constructed) events w) :
    w.delayTimer.toNat ≤ 255 ∧
    (∀ inputs next, step keys w (.tick inputs) = some next →
      (LeavesTimer w (.tick inputs) → next.delayTimer.toNat ≤ w.delayTimer.toNat) ∧
      (∀ x, decode w.opcodeAt = some (.setDelay x) → next.delayTimer.toNat ≤ (w.vRegisters x).toNat) ∧
      ∀ x, decode w.opcodeAt = some (.readDelay x) → (next.vRegisters x).toNat = w.delayTimer.toNat) ∧
    ∀ (v after : World) (now : Time), (updateDelayTimer now).run v = .ok () after →
      after.delayTimer.toNat + min (sixtieths (now - v.lastTime)).toNat v.delayTimer.toNat =
        v.delayTimer.toNat := by
  have small := range_of_run run
  refine ⟨small, ?_, update_takes_off⟩
  intro inputs next stepped
  obtain ⟨instruction, ticked⟩ := step_tick_iff.mp stepped
  refine ⟨fun leaves => ?_, fun x decoded => ?_, fun x decoded => ?_⟩
  · have left := delay_step leaves stepped
    omega
  · obtain rfl : instruction = .setDelay x := Option.some.inj (ticked.decoded.symm.trans decoded)
    have left := set_step ticked
    omega
  · obtain rfl : instruction = .readDelay x := Option.some.inj (ticked.decoded.symm.trans decoded)
    obtain ⟨executed, effect, rfl⟩ := ticked.executes
    cases effect
    have written : (w.fetched.writeV x (w.delayTimer.setWidth 8)).vRegisters x = w.delayTimer.setWidth 8 :=
      write_same _ _ _
    change ((w.fetched.writeV x (w.delayTimer.setWidth 8)).vRegisters x).toNat = _
    rw [written, BitVec.toNat_setWidth]
    omega

/-- A set read back into another register. -/
theorem delay_timer_in_range_read : ∃ w : World, w.vRegisters 1 = 0xFF ∧ w.delayTimer.toNat ≤ 255 := by
  obtain ⟨w, run, ends⟩ := run_of_test (step .latin) (fun _ _ => True) (.construct 0)
    [.load (some [0x60, 0xFF, 0xF0, 0x15, 0xF1, 0x07]), .tick (.reading 0), .tick (.reading 0), .tick (.reading 0)]
    (fun w => w.vRegisters 1 = 0xFF) (by decide)
  exact ⟨w, of_decide_eq_true ends, (delay_timer_in_range run).1⟩

end Chip8Emulator.DelayTimer
