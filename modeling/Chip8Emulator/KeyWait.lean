import Chip8Emulator.InstructionFrames
import Chip8Emulator.Foundations.Runs

/-! The wait for a key. `Fx0A` stops the timer and leaves its opcode in a latch;
the release of a hexadecimal key completes it and starts the timer again. While
no tick comes nothing else can happen, but the user's Start shares the timer
with the wait and does not look at the latch. -/
namespace Chip8Emulator.KeyWait
open Foundations.Runs

/-- What an executed wait for `Vx` promises about the events after it: none of
them executes an instruction before the wait completes, and what completes it
is the release of some hexadecimal key, which is stored in `Vx`. -/
def WaitHonoured (keys : QtKeys) (x : Fin 16) (entered : World) (events : List Event) (last : World) : Prop :=
  (last.lastOpcode = waitOpcode x ∧ ∀ event ∈ events, ¬ event.isTick) ∨
  ∃ quiet key readings later before after k,
    events = quiet ++ .keyRelease key readings :: later ∧ (∀ event ∈ quiet, ¬ event.isTick) ∧
    Run (step keys) Live entered quiet before ∧ before.lastOpcode = waitOpcode x ∧
    keys.find key = some k ∧ step keys before (.keyRelease key readings) = some after ∧
    after.vRegisters = Function.update before.vRegisters x (BitVec.ofNat 8 k.val) ∧
    after.lastOpcode = 0 ∧ after.Running

/-- Every wait a run executes is honoured by the rest of the run. -/
def WaitsHonoured (keys : QtKeys) (now : Time) (events : List Event) (last : World) : Prop :=
  ∀ before inputs after x w entered, events = before ++ .tick inputs :: after →
    Run (step keys) Live (.construct now) before w → decode w.opcodeAt = some (.waitKey x) →
    step keys w (.tick inputs) = some entered → WaitHonoured keys x entered after last

/-- No tick comes while a wait is latched: Start is not clicked during a wait,
or Stop is clicked again before the timer fires. -/
def Unlatched (w : World) (event : Event) : Prop := event.isTick → w.lastOpcode = 0

instance : ∀ w event, Decidable (Unlatched w event) := fun _ _ =>
  inferInstanceAs (Decidable (_ → _))

theorem wait_opcode_ne_zero (x : Fin 16) : waitOpcode x ≠ 0 := by
  revert x
  decide

theorem wait_opcode_register (x : Fin 16) : xOf (waitOpcode x) = x := by
  revert x
  decide

/-! ## One event -/

/-- The latch is set by `Fx0A` alone, which with none pending stops the timer. -/
theorem latch_tick (idle : w.lastOpcode = 0) (ticked : Ticked inputs w instruction next) :
    next.lastOpcode = 0 ∨ ∃ x, instruction = .waitKey x ∧ next.lastOpcode = waitOpcode x := by
  have latch := ticked.latch
  cases instruction with
  | waitKey x =>
    have idle' : w.fetched.lastOpcode = 0 := idle
    rw [Instruction.latchAfter, if_pos idle'] at latch
    exact .inr ⟨x, rfl, latch⟩
  | _ => exact .inl (latch.trans idle)

/-- Between ticks the latch stays, or the release of a hexadecimal key
completes the wait. -/
theorem latch_step (notTick : ¬ event.isTick) (stepped : step keys w event = some next) :
    next.lastOpcode = w.lastOpcode ∨
    ∃ key readings k, event = .keyRelease key readings ∧ keys.find key = some k ∧
      next.vRegisters = Function.update w.vRegisters (xOf w.lastOpcode) (BitVec.ofNat 8 k.val) ∧
      next.lastOpcode = 0 ∧ next.Running := by
  cases step_iff.mp stepped with
  | tick => exact absurd rfl notTick
  | releaseIdle found stopped idle => exact .inl idle.symm
  | releaseWaiting found stopped pending =>
    rename_i key k readings
    refine .inr ⟨key, readings, k, rfl, found, ?_, rfl, rfl⟩
    change Function.update w.vRegisters (xOf w.lastOpcode) (BitVec.ofInt 8 k.val) = _
    rw [BitVec.ofInt_natCast]
  | _ => exact .inl rfl

/-! ## Runs -/

/-- Without ticks an empty latch stays empty. -/
theorem unlatched_without_ticks (idle : w.lastOpcode = 0) (quiet : ∀ event ∈ events, ¬ event.isTick)
    (run : Run (step keys) allowed w events next) : next.lastOpcode = 0 := by
  refine run_invariant (fun w : World => w.lastOpcode = 0) ?_ idle (run_restrict quiet run)
  rintro s event t empty ⟨_, notTick⟩ stepped
  rcases latch_step notTick stepped with same | ⟨_, _, _, _, _, _, cleared, _⟩
  · exact same.trans empty
  · exact cleared

/-- A latched wait is honoured by a run none of whose ticks comes during it. -/
theorem latched_run (latched : entered.lastOpcode = waitOpcode x)
    (run : Run (step keys) (fun w event => Live w event ∧ Unlatched w event) entered events last) :
    WaitHonoured keys x entered events last := by
  induction run with
  | done => exact .inl ⟨latched, by simp⟩
  | @next entered event m events last permitted stepped rest ih =>
    have notTick : ¬ event.isTick := by
      intro isTick
      exact wait_opcode_ne_zero x (latched.symm.trans (permitted.2 isTick))
    rcases latch_step notTick stepped with same | ⟨key, readings, k, rfl, found, stored, cleared, running⟩
    · rcases ih (same.trans latched) with ⟨still, quiet⟩ |
          ⟨quiet, key, readings, later, before, after, k, split, silent, reached, completed⟩
      · exact .inl ⟨still, List.forall_mem_cons.mpr ⟨notTick, quiet⟩⟩
      · refine .inr ⟨event :: quiet, key, readings, later, before, after, k, ?_,
          List.forall_mem_cons.mpr ⟨notTick, silent⟩, .next permitted.1 stepped reached, completed⟩
        rw [split]
        rfl
    · rw [latched, wait_opcode_register] at stored
      exact .inr ⟨[], key, readings, events, entered, m, k, rfl, by simp, .done, latched, found, stepped,
        stored, cleared, running⟩

/-- Of two events that end stretches without ticks, a tick comes second. -/
theorem release_before_tick {quiet calm after later : List Event}
    (split : quiet ++ .tick inputs :: after = calm ++ .keyRelease key readings :: later)
    (silent : ∀ event ∈ calm, ¬ event.isTick) :
    ∃ rest, quiet = calm ++ .keyRelease key readings :: rest := by
  rcases List.append_eq_append_iff.mp split with ⟨rest, longer, tail⟩ | ⟨rest, longer, tail⟩
  · cases rest with
    | nil => simp at tail
    | cons first rest =>
      obtain ⟨rfl, _⟩ := List.cons.inj tail
      exact absurd rfl (silent (.tick inputs) (by simp [longer]))
  · cases rest with
    | nil => simp at tail
    | cons first rest =>
      obtain ⟨rfl, _⟩ := List.cons.inj tail
      exact ⟨rest, longer⟩

/-- A wait that is honoured is over when the next tick comes. -/
theorem unlatched_of_honoured (honoured : WaitHonoured keys x entered (quiet ++ .tick inputs :: after) last)
    (silent : ∀ event ∈ quiet, ¬ event.isTick) (run : Run (step keys) Live entered quiet m) :
    m.lastOpcode = 0 := by
  rcases honoured with ⟨_, noTick⟩ |
      ⟨calm, key, readings, later, before, completed, k, split, calmSilent, reached, _, _, stepped, _, cleared, _⟩
  · exact absurd rfl (noTick (.tick inputs) (by simp))
  · obtain ⟨rest, rfl⟩ := release_before_tick split calmSilent
    obtain ⟨_, t, again, remaining⟩ := run_cons.mp (run_after run reached)
    rw [stepped] at again
    cases again
    exact unlatched_without_ticks cleared (fun event member => silent event (by simp [member])) remaining

/-- The latest executed wait, with no tick since. -/
def LatestWait (keys : QtKeys) (now : Time) (events : List Event) (m : World) : Prop :=
  ∃ before inputs quiet x w entered, events = before ++ .tick inputs :: quiet ∧
    Run (step keys) Live (.construct now) before w ∧ decode w.opcodeAt = some (.waitKey x) ∧
    step keys w (.tick inputs) = some entered ∧ (∀ event ∈ quiet, ¬ event.isTick) ∧
    Run (step keys) Live entered quiet m

/-- In a run that honours its waits a set latch belongs to the latest wait, and
no tick has come during one. -/
theorem unlatched_of_waits_honoured (honoured : WaitsHonoured keys now events last)
    (split : events = before ++ after) (run : Run (step keys) Live (.construct now) before m) :
    Run (step keys) (fun w event => Live w event ∧ Unlatched w event) (.construct now) before m ∧
      (m.lastOpcode = 0 ∨ LatestWait keys now before m) := by
  refine run_prefixes (fun before m =>
    Run (step keys) (fun w event => Live w event ∧ Unlatched w event) (.construct now) before m ∧
      (m.lastOpcode = 0 ∨ LatestWait keys now before m)) ⟨.done, .inl rfl⟩ ?_ split run
  rintro before event after s m split reached ⟨strict, latch⟩ live stepped
  have unlatched : Unlatched s event := by
    intro isTick
    rcases latch with idle | ⟨first, inputs, quiet, x, w, entered, parts, start, executes, enters, silent, rest⟩
    · exact idle
    · cases event with
      | tick current =>
        have shape : events = first ++ .tick inputs :: (quiet ++ .tick current :: after) := by
          rw [split, parts]
          simp
        exact unlatched_of_honoured (honoured _ _ _ _ _ _ shape start executes enters) silent rest
      | _ => contradiction
  refine ⟨run_append.mpr ⟨s, strict, run_single.mpr ⟨⟨live, unlatched⟩, stepped⟩⟩, ?_⟩
  by_cases isTick : event.isTick
  · cases event with
    | tick inputs =>
      obtain ⟨instruction, ticked⟩ := step_tick_iff.mp stepped
      rcases latch_tick (unlatched isTick) ticked with idle | ⟨x, rfl, _⟩
      · exact .inl idle
      · exact .inr ⟨before, inputs, [], x, s, m, rfl, reached, ticked.decoded, stepped, by simp, .done⟩
    | _ => contradiction
  · rcases latch_step isTick stepped with same | ⟨_, _, _, _, _, _, cleared, _⟩
    · rcases latch with idle | ⟨first, inputs, quiet, x, w, entered, parts, start, executes, enters, silent, rest⟩
      · exact .inl (same.trans idle)
      · refine .inr ⟨first, inputs, quiet ++ [event], x, w, entered, ?_, start, executes, enters, ?_, ?_⟩
        · rw [parts, List.append_assoc]
          rfl
        · exact List.forall_mem_append.mpr ⟨silent, by simpa using isTick⟩
        · exact run_append.mpr ⟨s, rest, run_single.mpr ⟨live, stepped⟩⟩
    · exact .inl cleared

/-- A run honours all its waits exactly if none of its ticks comes during one. -/
theorem waits_honoured_iff {keys : QtKeys} {now : Time} {events : List Event} {last : World}
    (run : Run (step keys) Live (.construct now) events last) :
    WaitsHonoured keys now events last ↔
      Run (step keys) (fun w event => Live w event ∧ Unlatched w event) (.construct now) events last := by
  constructor
  · intro honoured
    exact (unlatched_of_waits_honoured honoured (List.append_nil events).symm run).1
  · intro strict before inputs after x w entered split reached executes stepped
    rw [split] at strict
    obtain ⟨⟨_, unlatched⟩, t, again, rest⟩ := run_cons.mp (run_after strict reached)
    rw [stepped] at again
    cases again
    obtain ⟨instruction, ticked⟩ := step_tick_iff.mp stepped
    obtain rfl : instruction = .waitKey x := Option.some.inj (ticked.decoded.symm.trans executes)
    have idle : w.fetched.lastOpcode = 0 := unlatched rfl
    have latched := ticked.latch
    rw [Instruction.latchAfter, if_pos idle] at latched
    exact latched_run latched rest

/-- `F00A` completed by the release of key 5. -/
theorem waits_honoured_iff_for_five : ∃ last : World,
    last.vRegisters 0 = 5 ∧ WaitsHonoured .latin 0 [.load (some [0xF0, 0x0A]), .startCpu, .tick (.reading 0),
      .keyPress 0x35, .keyRelease 0x35 ⟨0, 0⟩] last := by
  obtain ⟨last, strict, ends⟩ := run_of_test (step .latin)
    (fun w event => Live w event ∧ Unlatched w event) (.construct 0)
    [.load (some [0xF0, 0x0A]), .startCpu, .tick (.reading 0), .keyPress 0x35, .keyRelease 0x35 ⟨0, 0⟩]
    (fun w : World => w.vRegisters 0 = 5) (by decide)
  have run := run_weaken (fun _ _ both => both.1) strict
  exact ⟨last, of_decide_eq_true ends, (waits_honoured_iff run).mpr strict⟩

/-- Start clicked during a wait lets the next instruction run. -/
theorem start_breaks_wait :
    ¬ ∀ (keys : QtKeys) (now : Time) (events : List Event) (last : World),
      Run (step keys) Live (.construct now) events last → WaitsHonoured keys now events last := by
  intro always
  obtain ⟨w, start, ends⟩ := run_of_test (step .latin) Live
    (.construct 0) [.load (some [0xF0, 0x0A]), .startCpu]
    (fun w : World => decode w.opcodeAt = some (.waitKey 0) ∧ Live w (.tick (.reading 0)) ∧
      ((step .latin w (.tick (.reading 0))).bind (runFrom (step .latin) Live ·
        [.startCpu, .tick (.reading 0)])).any fun _ => true)
    (by decide)
  obtain ⟨executes, live, completes⟩ := of_decide_eq_true ends
  obtain ⟨entered, last, stepped, rest, _⟩ := continued_of_test _ completes
  have run := run_append.mpr ⟨w, start, .next live stepped rest⟩
  rcases always .latin 0 _ last run _ _ _ 0 w entered rfl start executes stepped with
      ⟨_, quiet⟩ | ⟨quiet, key, readings, later, _, _, _, split, _⟩
  · exact quiet (.tick (.reading 0)) (by simp) rfl
  · have released : Event.keyRelease key readings ∈ [.startCpu, .tick (.reading 0)] := by
      rw [split]
      simp
    simp at released

end Chip8Emulator.KeyWait
