import Chip8Emulator.InstructionFrames
import Chip8Emulator.Foundations.Runs

/-! Running off the end of RAM. A tick stops the timer only where the program
counter ends at 4096 exactly; every other way past the last whole instruction,
and every restart after a stop, lets the next tick fetch outside. -/
namespace Chip8Emulator.ProgramEnd
open Foundations.Memory Foundations.Runs

/-- No whole instruction is left at the program counter. -/
def PastEnd (w : World) : Prop := 4094 < w.programCounter.toNat

/-- Past the end the timer is inactive. -/
def Halted (w : World) : Prop := PastEnd w → ¬ w.Running

/-- Whenever a tick of the run ends past the end, the timer is inactive after
it and stays inactive. -/
def StopsAtEnd (keys : QtKeys) (now : Time) (events : List Event) : Prop :=
  ∀ before inputs between after s m, events = before ++ .tick inputs :: (between ++ after) →
    Run (step keys) Live (.construct now) (before ++ [.tick inputs]) s → PastEnd s →
    Run (step keys) Live s between m → ¬ m.Running

/-! ## The steps that leave a running machine past the end -/

/-- An address past the last whole instruction that the equality test misses. -/
def Missed (address : Nat) : Prop := address = 4095 ∨ 4096 < address

instance (address : Nat) : Decidable (Missed address) := inferInstanceAs (Decidable (_ ∨ _))

/-- The test of a conditional skip. -/
def Skips (w : World) : Instruction → Prop
  | .skipIfByte x kk => w.vRegisters x = kk
  | .skipUnlessByte x kk => w.vRegisters x ≠ kk
  | .skipIfSame x y => w.vRegisters x = w.vRegisters y
  | .skipUnlessSame x y => w.vRegisters x ≠ w.vRegisters y
  | .skipIfKey x => readAt w.interestedKeysStatuses (w.vRegisters x).toNat = 1
  | .skipUnlessKey x => readAt w.interestedKeysStatuses (w.vRegisters x).toNat = 0
  | _ => False

/-- Where an instruction leads past the end without stopping the timer. -/
def Overshoots (w : World) : Instruction → Prop
  | .jump target | .call target => target.toNat = 0xFFF
  | .ret => Missed w.poppedAddress.toNat
  | .jumpOffset base => Missed (w.offsetTarget base).toNat
  | .waitKey _ => w.lastOpcode ≠ 0 ∧ Missed (w.programCounter.toNat + 2)
  | instruction =>
    (Skips w instruction ∧ Missed (w.programCounter.toNat + 4)) ∨
      (¬ Skips w instruction ∧ Missed (w.programCounter.toNat + 2))

/-- What keeps a machine from running past the end: no instruction overshoots,
and neither Start nor the release that completes a wait comes past the end. -/
def StaysInside (keys : QtKeys) (w : World) : Event → Prop
  | .tick _ => ∀ instruction, decode w.opcodeAt = some instruction → ¬ Overshoots w instruction
  | .startCpu => ¬ PastEnd w
  | .keyRelease key _ => keys.find key ≠ none → w.lastOpcode ≠ 0 → ¬ w.Running → ¬ PastEnd w
  | _ => True

instance (w : World) : Decidable (PastEnd w) := inferInstanceAs (Decidable (_ < _))

instance (w : World) (instruction : Instruction) : Decidable (Skips w instruction) := by
  cases instruction <;> unfold Skips <;> infer_instance

instance (w : World) (instruction : Instruction) : Decidable (Overshoots w instruction) := by
  cases instruction <;> unfold Overshoots <;> infer_instance

instance (keys : QtKeys) (w : World) : ∀ event, Decidable (StaysInside keys w event)
  | .tick _ => inferInstanceAs (Decidable (∀ instruction ∈ decode w.opcodeAt, ¬ Overshoots w instruction))
  | .startCpu => inferInstanceAs (Decidable (¬ _))
  | .keyRelease _ _ => inferInstanceAs (Decidable (_ → _ → _ → _))
  | .stopCpu | .keyPress _ | .load _ => isTrue trivial

section Targets
variable {w : World} (fits : w.programCounter.toNat ≤ 4094)
include fits

theorem skip_missed_iff (condition : Prop) [Decidable condition] :
    Missed (w.fetched.skipWhen condition).programCounter.toNat ↔
      (condition ∧ Missed (w.programCounter.toNat + 4)) ∨ (¬ condition ∧ Missed (w.programCounter.toNat + 2)) := by
  rw [skip_target fits]
  by_cases taken : condition
  · simp only [taken, if_true, true_and, not_true_eq_false, false_and, or_false]
  · simp only [taken, if_false, false_and, not_false_eq_true, true_and, false_or]

/-- An instruction other than a wait leads to a missed address exactly if it
overshoots. -/
theorem target_missed_iff (decoded : decode opcode = some instruction) (notWait : ∀ x, instruction ≠ .waitKey x) :
    Missed (instruction.programCounterAfter w.fetched).toNat ↔ Overshoots w instruction := by
  have encoded := decode_iff.mp decoded
  have straight : Missed (w.programCounter + 2).toNat ↔
      (False ∧ Missed (w.programCounter.toNat + 4)) ∨ (¬ False ∧ Missed (w.programCounter.toNat + 2)) := by
    rw [next_word fits]
    simp only [false_and, not_false_eq_true, true_and, false_or]
  cases instruction with
  | jump target | call target =>
    obtain ⟨_, rfl⟩ := encoded
    have small := nnn_toNat opcode
    change (nnnOf opcode).toNat = 4095 ∨ 4096 < (nnnOf opcode).toNat ↔ (nnnOf opcode).toNat = 0xFFF
    omega
  | ret | jumpOffset base => exact Iff.rfl
  | skipIfByte x kk | skipUnlessByte x kk => exact skip_missed_iff fits _
  | skipIfSame x y | skipUnlessSame x y => exact skip_missed_iff fits _
  | skipIfKey x | skipUnlessKey x => exact skip_missed_iff fits _
  | waitKey x => exact absurd rfl (notWait x)
  | _ => exact straight

end Targets

/-- Under a timer that keeps running, a machine is halted past the end exactly
where the equality test catches it. -/
theorem halted_iff_caught (ticked : Ticked inputs w instruction next)
    (runs : instruction.timerAfter w.fetched = some { isActive := true }) :
    Halted next ↔ ¬ Missed next.programCounter.toNat := by
  have timer := ticked.timer
  rw [runs] at timer
  unfold Halted PastEnd Missed Chip8Pc.Running
  by_cases atEnd : next.programCounter.toNat = ramSize
  · rw [timer, if_pos atEnd, atEnd]
    simp [ramSize]
  · rw [timer, if_neg atEnd]
    have different : next.programCounter.toNat ≠ 4096 := atEnd
    simp only [not_true_eq_false, imp_false]
    omega

theorem halted_tick_iff (running : w.Running) (ticked : Ticked inputs w instruction next) :
    Halted next ↔ ¬ Overshoots w instruction := by
  have counter := ticked.programCounter
  have active : w.mainProcessTimer = some { isActive := true } := running
  by_cases isWait : ∃ x, instruction = .waitKey x
  · obtain ⟨x, rfl⟩ := isWait
    have target : next.programCounter.toNat = w.programCounter.toNat + 2 := by
      rw [counter]
      exact next_word ticked.fits
    by_cases idle : w.lastOpcode = 0
    · have idle' : w.fetched.lastOpcode = 0 := idle
      have stops : Instruction.timerAfter w.fetched (.waitKey x) = some { isActive := false } := by
        rw [Instruction.timerAfter, if_pos idle']
        change w.mainProcessTimer.map _ = _
        rw [active]
        rfl
      have timer := ticked.timer
      rw [stops] at timer
      have halted : Halted next := by
        intro _ runs
        rw [Chip8Pc.Running, timer] at runs
        split at runs <;> contradiction
      exact ⟨fun _ overshoots => overshoots.1 idle, fun _ => halted⟩
    · have idle' : w.fetched.lastOpcode ≠ 0 := idle
      rw [halted_iff_caught ticked (by rw [Instruction.timerAfter, if_neg idle']), target]
      exact not_congr ⟨fun missed => ⟨idle, missed⟩, fun overshoots => overshoots.2⟩
  · have notWait : ∀ x, instruction ≠ .waitKey x := not_exists.mp isWait
    have runs : instruction.timerAfter w.fetched = some { isActive := true } := by
      cases instruction with
      | waitKey x => exact absurd rfl (notWait x)
      | _ => exact active
    rw [halted_iff_caught ticked runs, counter, target_missed_iff ticked.fits ticked.decoded notWait]

/-! ## Runs -/

/-- Only a tick moves the program counter. -/
theorem counter_step (notTick : ¬ event.isTick) (stepped : step keys w event = some next) :
    next.programCounter = w.programCounter := by
  rcases step_cases stepped with ⟨inputs, _, rfl, _⟩ | ⟨_, _, _, _, rfl⟩ | ⟨_, _, _, same⟩
  · exact absurd rfl notTick
  · rfl
  · exact same.programCounter

/-- An event keeps a machine halted past the end exactly if it stays inside. -/
theorem halted_step_iff (halted : Halted w) (live : Live w event) (stepped : step keys w event = some next) :
    Halted next ↔ StaysInside keys w event := by
  cases step_iff.mp stepped with
  | @tick inputs instruction _ ticked =>
    rw [halted_tick_iff live ticked]
    constructor
    · intro inside other decoded
      obtain rfl : instruction = other := Option.some.inj (ticked.decoded.symm.trans decoded)
      exact inside
    · exact fun inside => inside instruction ticked.decoded
  | start => exact ⟨fun stays past => stays past rfl, fun inside past => absurd past inside⟩
  | stop => exact ⟨fun _ => trivial, fun _ _ runs => not_running_stopped w runs⟩
  | otherRelease missing => exact ⟨fun _ found => absurd missing found, fun _ => halted⟩
  | releaseRunning found running => exact ⟨fun _ _ _ stopped => absurd running stopped, fun _ => halted⟩
  | releaseIdle found stopped idle =>
    exact ⟨fun _ _ pending => absurd idle pending, fun _ _ runs => not_running_stopped w runs⟩
  | releaseWaiting found stopped pending =>
    refine ⟨fun stays _ _ _ past => stays past rfl, fun inside past => absurd past (inside ?_ pending ?_)⟩
    · rw [found]
      exact Option.some_ne_none _
    · rw [Chip8Pc.Running, stopped]
      decide
  | _ => exact ⟨fun _ => trivial, fun _ => halted⟩

theorem inside_initial (now : Time) : ¬ PastEnd (.construct now) :=
  show ¬ 4094 < 0x200 by decide

/-- A machine halted past the end stays there as long as its events stay inside. -/
theorem halted_past_end (past : PastEnd w) (halted : Halted w)
    (run : Run (step keys) (fun w event => Live w event ∧ StaysInside keys w event) w events next) :
    ¬ next.Running := by
  have kept : PastEnd next ∧ Halted next := by
    refine run_invariant (fun w : World => PastEnd w ∧ Halted w) ?_ ⟨past, halted⟩ run
    rintro s event t ⟨outside, still⟩ ⟨live, inside⟩ stepped
    have notTick : ¬ event.isTick := by
      cases event with
      | tick inputs => exact absurd live (still outside)
      | _ => nofun
    refine ⟨?_, (halted_step_iff still live stepped).mpr inside⟩
    unfold PastEnd
    rw [counter_step notTick stepped]
    exact outside
  exact kept.2 kept.1

/-- A run stops at the end of RAM exactly if all its steps stay inside. -/
theorem stops_at_end_iff {keys : QtKeys} {now : Time} {events : List Event} {w : World}
    (run : Run (step keys) Live (.construct now) events w) :
    StopsAtEnd keys now events ↔
      Run (step keys) (fun w event => Live w event ∧ StaysInside keys w event) (.construct now) events w := by
  have meets := run_meets_iff Halted (StaysInside keys)
    (fun _ _ _ halted live stepped => halted_step_iff halted live stepped)
    (fun past => absurd past (inside_initial now)) run
  constructor
  · intro stops
    refine meets.mpr fun before after m split reached past => ?_
    obtain ⟨first, event, between, p, q, parts, reachedFirst, outside, live, stepped, entered, rest⟩ :=
      run_enters PastEnd reached (inside_initial now) past
    have isTick : event.isTick := by
      by_contra notTick
      have same := counter_step notTick stepped
      unfold PastEnd at entered outside
      rw [same] at entered
      exact outside entered
    cases event with
    | tick inputs =>
      refine stops first inputs between after q m ?_ ?_ entered rest
      · rw [split, parts, List.append_assoc]
        rfl
      · exact run_append.mpr ⟨p, reachedFirst, run_single.mpr ⟨live, stepped⟩⟩
    | _ => contradiction
  · intro stays first inputs between after s m split reached past rest
    have parts : events = (first ++ [.tick inputs]) ++ (between ++ after) := by
      rw [split, List.append_assoc]
      rfl
    rw [parts] at stays
    obtain ⟨m', strictRest, _⟩ := run_append.mp (run_after stays reached)
    obtain rfl := run_deterministic rest strictRest
    have halted : Halted s := meets.mp (parts ▸ stays) _ _ s parts reached
    exact halted_past_end past halted strictRest

/-- A jump to the last word of RAM, the tick behind it, and a key afterwards. -/
def jumpToLastWord : List Event :=
  [.load (some [0x1F, 0xFE]), .startCpu, .tick (.reading 0), .tick (.reading 0), .keyPress 0x30,
    .keyRelease 0x30 ⟨0, 0⟩]

/-- The machine stops behind the last word, and the key does not start it. -/
theorem stops_at_end_iff_last_word : StopsAtEnd .latin 0 jumpToLastWord ∧
    ∃ w, Run (step .latin) Live (.construct 0) jumpToLastWord w ∧ w.programCounter = 4096 ∧ ¬ w.Running := by
  obtain ⟨w, stays, ends⟩ := run_of_test (step .latin) (fun w event => Live w event ∧ StaysInside .latin w event)
    (.construct 0) jumpToLastWord (fun w => w.programCounter = 4096 ∧ ¬ w.Running) (by decide)
  have run : Run (step .latin) Live (.construct 0) jumpToLastWord w := run_weaken (fun _ _ both => both.1) stays
  exact ⟨(stops_at_end_iff run).mpr stays, w, run, of_decide_eq_true ends⟩

/-- A jump to 0xFFF leaves the timer running. -/
theorem jump_to_last_byte_runs_on :
    ¬ ∀ (keys : QtKeys) (now : Time) (events : List Event) (w : World),
      Run (step keys) Live (.construct now) events w → StopsAtEnd keys now events := by
  intro always
  obtain ⟨w, run, ends⟩ := run_of_test (step .latin) Live
    (.construct 0) ([.load (some [0x1F, 0xFF]), .startCpu] ++ [.tick (.reading 0)])
    (fun w : World => w.programCounter = 0xFFF ∧ w.Running) (by decide)
  obtain ⟨counter, running⟩ : w.programCounter = 0xFFF ∧ w.Running := of_decide_eq_true ends
  have past : PastEnd w := by
    rw [PastEnd, counter]
    decide
  exact always .latin 0 _ w run _ (.reading 0) [] [] w w rfl run past .done running

end Chip8Emulator.ProgramEnd
