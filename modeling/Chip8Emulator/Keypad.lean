import Chip8Emulator.TimerControl
import Chip8Emulator.KeyWait

/-! The keypad and the key events. The recorded statuses are a function of the
key events so far, whatever is executed in between; the program sees a key
event through its wait alone, and looks a status up under any index its
registers hold. -/
namespace Chip8Emulator.Keypad
open Foundations.Loops Foundations.Memory Foundations.Runs FaultCharacterisation TimerControl KeyWait

/-! ## Statuses -/

/-- What an event says of the `k`-th key: pressed, released, or nothing. -/
def report (keys : QtKeys) (k : Fin 16) : Event → Option Bool
  | .keyPress key => if keys.code k = key then some true else none
  | .keyRelease key _ => if keys.code k = key then some false else none
  | _ => none

/-- The latest event about the `k`-th key is a press. -/
def Down (keys : QtKeys) (events : List Event) (k : Fin 16) : Prop :=
  events.reverse.findSome? (report keys k) = some true

instance (keys : QtKeys) (events : List Event) (k : Fin 16) : Decidable (Down keys events k) :=
  inferInstanceAs (Decidable (_ = _))

/-- The event is about no hexadecimal key. -/
def OtherEvent (keys : QtKeys) (event : Event) : Prop := ∀ k, report keys k event = none

/-- The index of the latest hexadecimal key event, zero before the first. -/
def LatestKey (keys : QtKeys) (events : List Event) (active : Int) : Prop :=
  ((∀ event ∈ events, OtherEvent keys event) ∧ active = 0) ∨
    ∃ before event after, ∃ k : Fin 16, events = before ++ event :: after ∧ report keys k event ≠ none ∧
      (∀ later ∈ after, OtherEvent keys later) ∧ active = k.val

theorem code_of_missing {keys : QtKeys} (missing : keys.find key = none) (k : Fin 16) : keys.code k ≠ key := by
  intro same
  rw [QtKeys.find_iff.mpr same] at missing
  contradiction

/-- An event records what it says of each key. -/
theorem status_step (stepped : step keys w event = some next) (k : Fin 16) :
    next.interestedKeysStatuses k =
      match report keys k event with
      | some pressed => if pressed then 1 else 0
      | none => w.interestedKeysStatuses k := by
  have recorded {key : Int} {j : Fin 16} (found : keys.find key = some j) (status : Int) :
      (w.recordKey j status).interestedKeysStatuses k =
        if keys.code k = key then status else w.interestedKeysStatuses k := by
    obtain rfl := QtKeys.find_iff.mp found
    by_cases same : k = j
    · subst same
      simp [World.recordKey]
    · have different : keys.code k ≠ keys.code j := fun equal => same (keys.distinct equal)
      simp [World.recordKey, same, different]
  cases step_iff.mp stepped with
  | tick ticked => exact congrFun ticked.keyStatuses k
  | otherPress missing => simp [report, code_of_missing missing k]
  | otherRelease missing => simp [report, code_of_missing missing k]
  | @press key j found =>
    rw [recorded found, report]
    split <;> rfl
  | releaseRunning found running | releaseIdle found stopped idle | releaseWaiting found stopped pending =>
    refine (recorded found 0).trans ?_
    rw [report]
    split <;> rfl
  | _ => rfl

theorem latest_step (stepped : step keys w event = some next) :
    (OtherEvent keys event ∧ next.lastActiveKey = w.lastActiveKey) ∨
      ∃ k : Fin 16, report keys k event ≠ none ∧ next.lastActiveKey = k.val := by
  cases step_iff.mp stepped with
  | tick ticked => exact .inl ⟨fun k => rfl, ticked.lastActiveKey⟩
  | otherPress missing | otherRelease missing =>
    exact .inl ⟨fun k => by simp [report, code_of_missing missing k], rfl⟩
  | @press key k found => exact .inr ⟨k, by simp [report, QtKeys.find_iff.mp found], rfl⟩
  | releaseRunning found running | releaseIdle found stopped idle | releaseWaiting found stopped pending =>
    rename_i key k readings
    exact .inr ⟨k, by simp [report, QtKeys.find_iff.mp found], rfl⟩
  | _ => exact .inl ⟨fun k => rfl, rfl⟩

/-- The recorded keypad is the one the events so far describe. -/
structure Mirrors (keys : QtKeys) (events : List Event) (w : World) : Prop where
  statuses : ∀ k, w.interestedKeysStatuses k = if Down keys events k then 1 else 0
  latest : LatestKey keys events w.lastActiveKey

theorem down_snoc : Down keys (events ++ [event]) k ↔
    report keys k event = some true ∨ (report keys k event = none ∧ Down keys events k) := by
  unfold Down
  rw [List.reverse_append, List.reverse_singleton, List.singleton_append, List.findSome?_cons]
  cases report keys k event <;> simp

theorem mirrors_step (mirrors : Mirrors keys events w) (stepped : step keys w event = some next) :
    Mirrors keys (events ++ [event]) next := by
  constructor
  · intro k
    rw [status_step stepped k, mirrors.statuses k]
    simp only [down_snoc]
    cases said : report keys k event with
    | none => simp
    | some pressed => cases pressed <;> simp
  · rcases latest_step stepped with ⟨other, same⟩ | ⟨k, reported, active⟩
    · rw [same]
      rcases mirrors.latest with ⟨others, zero⟩ | ⟨before, first, after, k, split, reported, others, active⟩
      · refine .inl ⟨?_, zero⟩
        exact List.forall_mem_append.mpr ⟨others, by simpa using other⟩
      · refine .inr ⟨before, first, after ++ [event], k, by simp [split], reported, ?_, active⟩
        exact List.forall_mem_append.mpr ⟨others, by simpa using other⟩
    · exact .inr ⟨events, event, [], k, rfl, reported, by simp, active⟩

theorem mirrors_of_run (run : Run (step keys) allowed (.construct now) events w) : Mirrors keys events w := by
  refine run_records (Mirrors keys) (fun _ _ _ _ mirrors _ stepped => mirrors_step mirrors stepped) ?_ run
  exact ⟨fun k => by simp [Down, World.construct, Chip8Pc.construct], .inl ⟨by simp, rfl⟩⟩

theorem skip_if_key_leads (ticked : Ticked inputs w instruction next) (isSkip : Pattern w.opcodeAt 0xE 0x9E) :
    next.programCounter.toNat = w.programCounter.toNat +
      if readAt w.interestedKeysStatuses (w.vRegisters (xOf w.opcodeAt)).toNat = 1 then 4 else 2 := by
  obtain ⟨lead, low⟩ := isSkip
  have decoded : decode w.opcodeAt = some (.skipIfKey _) := decode_iff.mpr ⟨lead, low, rfl⟩
  obtain rfl := Option.some.inj (ticked.decoded.symm.trans decoded)
  rw [ticked.programCounter]
  exact skip_target ticked.fits _

theorem skip_unless_key_leads (ticked : Ticked inputs w instruction next)
    (isSkip : Pattern w.opcodeAt 0xE 0xA1) :
    next.programCounter.toNat = w.programCounter.toNat +
      if readAt w.interestedKeysStatuses (w.vRegisters (xOf w.opcodeAt)).toNat = 0 then 4 else 2 := by
  obtain ⟨lead, low⟩ := isSkip
  have decoded : decode w.opcodeAt = some (.skipUnlessKey _) := decode_iff.mpr ⟨lead, low, rfl⟩
  obtain rfl := Option.some.inj (ticked.decoded.symm.trans decoded)
  rw [ticked.programCounter]
  exact skip_target ticked.fits _

/-- In every reachable state the keypad is the one the events describe, events
of other keys change nothing, and the key skips test it. -/
theorem keypad_mirrors_events {keys : QtKeys} {now : Time} {events : List Event} {w : World}
    (run : Run (step keys) (fun _ _ => True) (.construct now) events w) :
    Mirrors keys events w ∧
    (∀ key readings, (∀ k, keys.code k ≠ key) →
      step keys w (.keyPress key) = some w ∧ step keys w (.keyRelease key readings) = some w) ∧
    ∀ inputs next (k : Fin 16), step keys w (.tick inputs) = some next →
      (w.vRegisters (xOf w.opcodeAt)).toNat = k.val →
      (Pattern w.opcodeAt 0xE 0x9E →
        next.programCounter.toNat = w.programCounter.toNat + if Down keys events k then 4 else 2) ∧
      (Pattern w.opcodeAt 0xE 0xA1 →
        next.programCounter.toNat = w.programCounter.toNat + if Down keys events k then 2 else 4) := by
  have mirrors := mirrors_of_run run
  refine ⟨mirrors, ?_, ?_⟩
  · intro key readings other
    have missing : keys.find key = none := by
      cases found : keys.find key with
      | none => rfl
      | some k => exact absurd (QtKeys.find_iff.mp found) (other k)
    exact ⟨step_iff.mpr (.otherPress missing), step_iff.mpr (.otherRelease missing)⟩
  · intro inputs next k stepped named
    obtain ⟨instruction, ticked⟩ := step_tick_iff.mp stepped
    have status : readAt w.interestedKeysStatuses (w.vRegisters (xOf w.opcodeAt)).toNat =
        if Down keys events k then 1 else 0 := by
      rw [named, read_at_of_lt _ k.isLt]
      exact mirrors.statuses k
    constructor
    · intro isSkip
      rw [skip_if_key_leads ticked isSkip, status]
      by_cases down : Down keys events k <;> simp [down]
    · intro isSkip
      rw [skip_unless_key_leads ticked isSkip, status]
      by_cases down : Down keys events k <;> simp [down]

/-- Key 5 pressed after Start is down. -/
theorem keypad_mirrors_press : ∃ w : World, w.lastActiveKey = 5 ∧
    Mirrors .latin [.startCpu, .keyPress 0x35, .keyPress 0x20] w := by
  obtain ⟨w, run, ends⟩ := run_of_test (step .latin) (fun _ _ => True) (.construct 0)
    [.startCpu, .keyPress 0x35, .keyPress 0x20] (fun w => w.lastActiveKey = 5) (by decide)
  exact ⟨w, of_decide_eq_true ends, (keypad_mirrors_events run).1⟩

/-! ## What a key event touches -/

/-- The latch holds nothing or the opcode of a wait. -/
theorem latch_of_run (run : Run (step keys) allowed (.construct now) events w) :
    w.lastOpcode = 0 ∨ ∃ x, w.lastOpcode = waitOpcode x := by
  refine run_invariant (fun w : World => w.lastOpcode = 0 ∨ ∃ x, w.lastOpcode = waitOpcode x) ?_ (.inl rfl) run
  intro w event next latch _ stepped
  by_cases isTick : event.isTick
  · cases step_iff.mp stepped with
    | @tick inputs instruction _ ticked =>
      rw [ticked.latch]
      cases instruction with
      | waitKey x =>
        rw [Instruction.latchAfter]
        split
        · exact .inr ⟨x, rfl⟩
        · exact .inl rfl
      | _ => exact latch
    | _ => contradiction
  · rcases latch_step isTick stepped with same | ⟨_, _, _, _, _, _, cleared, _⟩
    · exact same ▸ latch
    · exact .inl cleared

/-- What no key event touches. -/
structure ProgramKept (w next : World) : Prop where
  indexRegister : next.indexRegister = w.indexRegister
  programCounter : next.programCounter = w.programCounter
  stackPointer : next.stackPointer = w.stackPointer
  ram : next.ram = w.ram
  frameBuffer : next.frameBuffer = w.frameBuffer
  delayTimer : next.delayTimer = w.delayTimer

theorem key_event_keeps_program (stepped : step keys w event = some next)
    (isKey : event.instruction w = none) (notLoad : ¬ event.loads) : ProgramKept w next := by
  rcases step_cases stepped with ⟨_, _, _, executed, _⟩ | ⟨_, rfl, _⟩ | ⟨_, _, _, same⟩
  · rw [isKey] at executed
    contradiction
  · exact absurd rfl notLoad
  · exact ⟨same.indexRegister, same.programCounter, same.stackPointer, same.ram, same.frameBuffer,
      same.delayTimer⟩

/-- Under an existing timer every release completes: it is recorded, and
changes the machine where the timer is stopped and a wait latched. -/
theorem release_completes (keys : QtKeys) (key : Int) (readings : SteadyReadings)
    (created : w.mainProcessTimer ≠ none) :
    ∃ next, step keys w (.keyRelease key readings) = some next ∧
      (w.Running ∨ w.lastOpcode = 0 →
        next.vRegisters = w.vRegisters ∧ next.lastOpcode = w.lastOpcode ∧ (next.Running ↔ w.Running)) ∧
      ∀ k x, keys.code k = key → ¬ w.Running → w.lastOpcode = waitOpcode x →
        next.vRegisters = Function.update w.vRegisters x (BitVec.ofNat 8 k.val) ∧
        next.lastOpcode = 0 ∧ next.Running := by
  obtain ⟨⟨active⟩, timer⟩ := Option.ne_none_iff_exists'.mp created
  cases found : keys.find key with
  | none =>
    refine ⟨w, step_iff.mpr (.otherRelease found), fun _ => ⟨rfl, rfl, Iff.rfl⟩, ?_⟩
    exact fun k x same => absurd same (code_of_missing found k)
  | some k =>
    by_cases running : w.Running
    · refine ⟨_, step_iff.mpr (.releaseRunning found running), fun _ => ⟨rfl, rfl, Iff.rfl⟩, ?_⟩
      exact fun k x _ stopped => absurd running stopped
    · have stopped : w.mainProcessTimer = some { isActive := false } := by
        cases active with
        | true => exact absurd timer running
        | false => exact timer
      by_cases idle : w.lastOpcode = 0
      · refine ⟨_, step_iff.mpr (.releaseIdle found stopped idle), fun _ => ⟨rfl, idle.symm, ?_⟩, ?_⟩
        · exact iff_of_false (not_running_stopped _) running
        · exact fun j x _ _ latched => absurd (latched.symm.trans idle) (wait_opcode_ne_zero x)
      · refine ⟨_, step_iff.mpr (.releaseWaiting found stopped idle), fun neither => ?_, ?_⟩
        · exact absurd neither (not_or.mpr ⟨running, idle⟩)
        · intro j x same _ latched
          obtain rfl : k = j := keys.distinct ((QtKeys.find_iff.mp found).trans same.symm)
          refine ⟨?_, rfl, rfl⟩
          change Function.update w.vRegisters (xOf w.lastOpcode) (BitVec.ofInt 8 k.val) = _
          rw [latched, wait_opcode_register, BitVec.ofInt_natCast]

/-- After the first Start the latch holds nothing or a wait; a press changes the
keypad alone; a release changes the program exactly where it completes a wait. -/
theorem key_events_touch_waits {keys : QtKeys} {now : Time} {events : List Event} {w : World}
    (run : Run (step keys) (fun _ _ => True) (.construct now) events w) (started : .startCpu ∈ events) :
    (w.lastOpcode = 0 ∨ ∃ x, w.lastOpcode = waitOpcode x) ∧
    (∀ key, ∃ next, step keys w (.keyPress key) = some next ∧
      (next = w ∨ ∃ k : Fin 16, keys.code k = key ∧ next = { w with
        lastActiveKey := k.val
        interestedKeysStatuses := Function.update w.interestedKeysStatuses k 1 })) ∧
    ∀ key readings, ∃ next, step keys w (.keyRelease key readings) = some next ∧ ProgramKept w next ∧
      (w.Running ∨ w.lastOpcode = 0 →
        next.vRegisters = w.vRegisters ∧ next.lastOpcode = w.lastOpcode ∧ (next.Running ↔ w.Running)) ∧
      ∀ k x, keys.code k = key → ¬ w.Running → w.lastOpcode = waitOpcode x →
        next.vRegisters = Function.update w.vRegisters x (BitVec.ofNat 8 k.val) ∧
        next.lastOpcode = 0 ∧ next.Running := by
  refine ⟨latch_of_run run, ?_, ?_⟩
  · intro key
    cases found : keys.find key with
    | none => exact ⟨w, step_iff.mpr (.otherPress found), .inl rfl⟩
    | some k => exact ⟨_, step_iff.mpr (.press found), .inr ⟨k, QtKeys.find_iff.mp found, rfl⟩⟩
  · intro key readings
    have created : w.mainProcessTimer ≠ none := by
      obtain ⟨before, after, split⟩ := List.append_of_mem started
      obtain ⟨v, reached, _⟩ := run_append.mp (split ▸ run)
      exact (timer_created_iff run).mpr ⟨.startCpu, v, ⟨before, after, split, reached⟩, trivial⟩
    obtain ⟨next, stepped, untouched, completes⟩ := release_completes keys key readings created
    exact ⟨next, stepped, key_event_keeps_program stepped rfl Bool.false_ne_true, untouched, completes⟩

/-- A machine that waits for a key to store in `V3`. -/
theorem key_events_touch_waits_started : ∃ w : World, w.lastOpcode = 0xF30A ∧
    ∀ key readings, ∃ next, step .latin w (.keyRelease key readings) = some next ∧ ProgramKept w next := by
  obtain ⟨w, run, ends⟩ := run_of_test (step .latin) (fun _ _ => True) (.construct 0)
    [.load (some [0xF3, 0x0A]), .startCpu, .tick (.reading 0)] (fun w => w.lastOpcode = 0xF30A)
    (by decide)
  obtain ⟨_, _, releases⟩ := key_events_touch_waits run (by simp)
  refine ⟨w, of_decide_eq_true ends, fun key readings => ?_⟩
  obtain ⟨next, stepped, kept, _⟩ := releases key readings
  exact ⟨next, stepped, kept⟩

/-! ## Lookups -/

/-- No tick of the list looks up a status outside the sixteen. -/
def LookupsInside (keys : QtKeys) (now : Time) (events : List Event) : Prop :=
  ∀ inputs w next, ComesUp (step keys) Live (.construct now) events (.tick inputs) w → w.Running →
    (process inputs).run w ≠ .error .keyStatusOverrun next

/-- Every `Ex9E` and `ExA1` that comes up names a hexadecimal digit in `Vx`. -/
def DigitsInSkips (keys : QtKeys) (now : Time) (events : List Event) : Prop :=
  ∀ inputs w, ComesUp (step keys) Live (.construct now) events (.tick inputs) w → w.Running →
    w.programCounter.toNat ≤ 4094 →
    Pattern w.opcodeAt 0xE 0x9E ∨ Pattern w.opcodeAt 0xE 0xA1 → (w.vRegisters (xOf w.opcodeAt)).toNat < 16

/-- Only the two key skips look a status up. -/
theorem lookup_overrun_iff (inputs : TickInputs) (w : World) (instruction : Instruction) :
    execute inputs w instruction = .error .keyStatusOverrun ↔
      ∃ x, (instruction = .skipIfKey x ∨ instruction = .skipUnlessKey x) ∧ 16 ≤ (w.vRegisters x).toNat := by
  cases instruction with
  | skipIfKey x | skipUnlessKey x =>
    by_cases bound : (w.vRegisters x).toNat < 16
    · simp [execute, bound]
    · simp [execute, bound, Nat.not_lt.mp bound]
  | draw | bcd | save | restore =>
    simp only [execute]
    split <;> simp
  | _ => simp [execute]

/-- A tick looks outside exactly at a key skip with no digit in `Vx`. -/
theorem process_overrun_iff (inputs : TickInputs) (w : World) :
    (∃ next, (process inputs).run w = .error .keyStatusOverrun next) ↔
      w.programCounter.toNat ≤ 4094 ∧ (Pattern w.opcodeAt 0xE 0x9E ∨ Pattern w.opcodeAt 0xE 0xA1) ∧
        16 ≤ (w.vRegisters (xOf w.opcodeAt)).toNat := by
  rw [← outcome_eq_error, process_refines, tick]
  by_cases fits : w.programCounter.toNat ≤ 4094
  · simp only [fits, ↓reduceIte, true_and]
    cases decoded : decode w.opcodeAt with
    | none =>
      have unknown (lead : w.opcodeAt.toNat / 0x1000 = 0xE) (low : w.opcodeAt.toNat % 0x100 ∈ [0x9E, 0xA1]) :
          False := by
        have accepted := (accepted_iff w.opcodeAt).mp (.inr (.inr (.inr (.inr (.inr (.inl ⟨lead, low⟩))))))
        simp [decoded] at accepted
      simp only [reduceCtorEq, false_iff, Except.error.injEq]
      rintro ⟨⟨lead, low⟩ | ⟨lead, low⟩, _⟩
      · exact unknown lead (by simp [low])
      · exact unknown lead (by simp [low])
    | some instruction =>
      have encoded := decode_iff.mp decoded
      have failed : (execute inputs w.fetched instruction).map (World.finish · inputs) =
          .error .keyStatusOverrun ↔ execute inputs w.fetched instruction = .error .keyStatusOverrun := by
        cases execute inputs w.fetched instruction <;> simp [Except.map]
      rw [failed, lookup_overrun_iff]
      constructor
      · rintro ⟨x, rfl | rfl, large⟩
        · obtain ⟨lead, low, rfl⟩ := encoded
          exact ⟨.inl ⟨lead, low⟩, large⟩
        · obtain ⟨lead, low, rfl⟩ := encoded
          exact ⟨.inr ⟨lead, low⟩, large⟩
      · rintro ⟨⟨lead, low⟩ | ⟨lead, low⟩, large⟩
        · have skip : decode w.opcodeAt = some (.skipIfKey _) := decode_iff.mpr ⟨lead, low, rfl⟩
          exact ⟨_, .inl (Option.some.inj (decoded.symm.trans skip)), large⟩
        · have skip : decode w.opcodeAt = some (.skipUnlessKey _) := decode_iff.mpr ⟨lead, low, rfl⟩
          exact ⟨_, .inr (Option.some.inj (decoded.symm.trans skip)), large⟩
  · simp [fits]

/-- No lookup leaves the keypad exactly if every key skip that comes up has a
digit in its register. -/
theorem lookups_inside_iff (keys : QtKeys) (now : Time) (events : List Event) :
    LookupsInside keys now events ↔ DigitsInSkips keys now events := by
  constructor
  · intro inside inputs w reached running fits skips
    by_contra large
    obtain ⟨next, faulted⟩ := (process_overrun_iff inputs w).mpr ⟨fits, skips, Nat.not_lt.mp large⟩
    exact inside inputs w next reached running faulted
  · intro digits inputs w next reached running faulted
    obtain ⟨fits, skips, large⟩ := (process_overrun_iff inputs w).mp ⟨next, faulted⟩
    exact absurd (digits inputs w reached running fits skips) (Nat.not_lt.mpr large)

/-- `6010 E09E` asks for key 16. -/
theorem sixteenth_key_is_outside :
    ¬ ∀ (keys : QtKeys) (now : Time) (events : List Event), LookupsInside keys now events := by
  intro inside
  obtain ⟨w, run, ends⟩ := run_of_test (step .latin) Live (.construct 0)
    [.load (some [0x60, 0x10, 0xE0, 0x9E]), .startCpu, .tick (.reading 0)]
    (fun w => w.Running ∧ w.programCounter = 0x202 ∧ w.opcodeAt = 0xE09E ∧ w.vRegisters 0 = 0x10)
    (by decide)
  obtain ⟨running, counter, opcode, value⟩ := of_decide_eq_true ends
  obtain ⟨next, faulted⟩ := (process_overrun_iff (.reading 0) w).mpr (by
    rw [counter, opcode]
    refine ⟨by decide, .inl ⟨by decide, by decide⟩, ?_⟩
    have register : xOf 0xE09E = 0 := by decide
    rw [register, value]
    decide)
  exact inside .latin 0
    ([.load (some [0x60, 0x10, 0xE0, 0x9E]), .startCpu, .tick (.reading 0)] ++ [.tick (.reading 0)])
    (.reading 0) w next ⟨_, [], rfl, run⟩ running faulted

end Chip8Emulator.Keypad
