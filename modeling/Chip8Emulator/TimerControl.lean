import Chip8Emulator.FaultCharacterisation
import Chip8Emulator.InstructionFrames
import Chip8Emulator.Foundations.Runs

/-! Who creates, starts and stops the CPU timer. The user's buttons, the wait
for a key and the end of RAM all act on the one timer; the release of a key
completes a latched wait by starting it, and asks it whether it is active
without testing that it exists. -/
namespace Chip8Emulator.TimerControl
open Foundations.Loops Foundations.Runs FaultCharacterisation

/-! ## The user's Stop -/

/-- After every Stop, until the next Start, the timer is inactive and no
instruction is executed. -/
def StopsRespected (keys : QtKeys) (now : Time) (events : List Event) : Prop :=
  ∀ before between after stopped m, events = before ++ .stopCpu :: (between ++ after) →
    Run (step keys) Live (.construct now) (before ++ [.stopCpu]) stopped →
    .startCpu ∉ between → Run (step keys) Live stopped between m →
    ¬ m.Running ∧ ∀ event ∈ between, ¬ event.isTick

/-- Between a Stop and the next Start no hexadecimal key is released while an
`Fx0A` is latched. -/
def NoReleaseInStoppedWait (keys : QtKeys) (now : Time) (events : List Event) : Prop :=
  ∀ before between key readings after w k,
    events = before ++ .stopCpu :: (between ++ .keyRelease key readings :: after) → .startCpu ∉ between →
    Run (step keys) Live (.construct now) (before ++ .stopCpu :: between) w →
    keys.code k = key → w.lastOpcode = 0

/-- Only Start and the completion of a wait start a stopped timer. -/
theorem started_by (stopped : ¬ w.Running) (live : Live w event) (stepped : step keys w event = some next)
    (running : next.Running) :
    event = .startCpu ∨ ∃ key readings k, event = .keyRelease key readings ∧ keys.code k = key ∧
      w.lastOpcode ≠ 0 := by
  cases step_iff.mp stepped with
  | tick ticked => exact absurd live stopped
  | start => exact .inl rfl
  | stop => exact absurd running (not_running_stopped w)
  | releaseIdle found inactive idle => exact absurd running (not_running_stopped _)
  | releaseWaiting found inactive pending => exact .inr ⟨_, _, _, rfl, QtKeys.find_iff.mp found, pending⟩
  | _ => exact absurd running stopped

/-- The release of a hexadecimal key restarts a stopped machine that waits. -/
theorem restarted_by_release (found : keys.code k = key) (stopped : ¬ w.Running) (pending : w.lastOpcode ≠ 0)
    (stepped : step keys w (.keyRelease key readings) = some next) : next.Running := by
  rcases (release_iff (QtKeys.find_iff.mpr found)).mp stepped with
    ⟨running, _⟩ | ⟨_, idle, _⟩ | ⟨_, _, rfl⟩
  · exact absurd running stopped
  · exact absurd idle pending
  · rfl

/-- Without a tick that could come, a stopped machine executes nothing. -/
theorem no_tick_while_stopped (stays : ∀ front back m, between = front ++ back →
      Run (step keys) Live stopped front m → ¬ m.Running)
    (run : Run (step keys) Live stopped between last) : ∀ event ∈ between, ¬ event.isTick := by
  intro event member isTick
  obtain ⟨front, back, rfl⟩ := List.append_of_mem member
  obtain ⟨m, reached, rest⟩ := run_append.mp run
  obtain ⟨live, _⟩ := run_cons.mp rest
  cases event with
  | tick inputs => exact stays front _ m rfl reached live
  | _ => contradiction

theorem inactive_after_stop (run : Run (step keys) allowed start (before ++ [.stopCpu]) stopped) :
    ¬ stopped.Running := by
  obtain ⟨s, _, stop⟩ := run_append.mp run
  obtain ⟨_, stepped⟩ := run_single.mp stop
  rw [step_stopCpu] at stepped
  cases stepped
  exact not_running_stopped s

/-- A stopped machine stays so where Start is not clicked and no wait completed. -/
theorem stays_stopped (inactive : ¬ stopped.Running) (noStart : .startCpu ∉ events)
    (noneCompleted : ∀ quiet key readings later w k, events = quiet ++ .keyRelease key readings :: later →
      Run (step keys) Live stopped quiet w → keys.code k = key → w.lastOpcode = 0)
    (run : Run (step keys) Live stopped events m) : ¬ m.Running := by
  intro running
  obtain ⟨quiet, event, later, w, next, split, calm, out, live, stepped, inn, _⟩ :=
    run_enters (fun w : World => w.Running) run inactive running
  rcases started_by out live stepped inn with rfl | ⟨key, readings, k, rfl, found, pending⟩
  · exact noStart (by simp [split])
  · exact pending (noneCompleted quiet key readings later w k split calm found)

/-- Every Stop is respected exactly if no wait is completed between a Stop and
the next Start. -/
theorem stops_respected_iff {keys : QtKeys} {now : Time} {events : List Event} {last : World}
    (run : Run (step keys) Live (.construct now) events last) :
    StopsRespected keys now events ↔ NoReleaseInStoppedWait keys now events := by
  have parts (before between : List Event) :
      before ++ .stopCpu :: between = (before ++ [.stopCpu]) ++ between := by simp
  constructor
  · intro respected before between key readings after w k split noStart reached found
    by_contra pending
    rw [parts] at reached
    obtain ⟨stopped, first, second⟩ := run_append.mp reached
    have whole := run
    rw [split, parts] at whole
    obtain ⟨live, next, stepped, _⟩ := run_cons.mp (run_after (run_after whole first) second)
    have idle := (respected before between (.keyRelease key readings :: after) stopped w split first noStart second).1
    refine (respected before (between ++ [.keyRelease key readings]) after stopped next ?_ first ?_ ?_).1
      (restarted_by_release found idle pending stepped)
    · rw [split]
      simp
    · simpa using noStart
    · exact run_append.mpr ⟨w, second, run_single.mpr ⟨live, stepped⟩⟩
  · intro condition before between after stopped m split first noStart second
    have stays (front back : List Event) (n : World) (pieces : between = front ++ back)
        (reached : Run (step keys) Live stopped front n) : ¬ n.Running := by
      refine stays_stopped (inactive_after_stop first) (fun member => noStart (by simp [pieces, member])) ?_ reached
      intro quiet key readings later w k within calm found
      refine condition before quiet key readings (later ++ back ++ after) w k ?_ ?_ ?_ found
      · rw [split, pieces, within]
        simp
      · exact fun member => noStart (by simp [pieces, within, member])
      · rw [parts]
        exact run_append.mpr ⟨stopped, first, calm⟩
    exact ⟨stays between [] m (by simp) second, no_tick_while_stopped stays second⟩

/-- No wait is pending where a key is released. -/
def ReleasesIdle (w : World) : Event → Prop
  | .keyRelease _ _ => w.lastOpcode = 0
  | _ => True

instance (w : World) : ∀ event, Decidable (ReleasesIdle w event)
  | .keyRelease _ _ => inferInstanceAs (Decidable (_ = _))
  | .tick _ | .startCpu | .stopCpu | .keyPress _ | .load _ => isTrue trivial

/-- Where this is so all along, it is so after a Stop. -/
theorem no_release_in_stopped_wait
    (run : Run (step keys) (fun w event => Live w event ∧ ReleasesIdle w event) (.construct now) events last) :
    NoReleaseInStoppedWait keys now events := by
  intro before between key readings after w k split _ reached _
  have shape : events = (before ++ .stopCpu :: between) ++ .keyRelease key readings :: after := by simp [split]
  rw [shape] at run
  obtain ⟨⟨_, idle⟩, _⟩ := run_cons.mp (run_after run reached)
  exact idle

/-- Stop between two ticks, and a key pressed and released while nothing is latched. -/
def stopAndRelease : List Event :=
  [.load (some [0x60, 0x05, 0x61, 0x06]), .startCpu, .tick (.reading 0), .stopCpu, .keyPress 0x30,
    .keyRelease 0x30 ⟨0, 0⟩]

/-- The release does not start the machine again. -/
theorem stops_respected_iff_idle_keys : StopsRespected .latin 0 stopAndRelease ∧
    ∃ last, Run (step .latin) Live (.construct 0) stopAndRelease last ∧ last.vRegisters 0 = 5 ∧ ¬ last.Running := by
  obtain ⟨last, idle, ends⟩ := run_of_test (step .latin) (fun w event => Live w event ∧ ReleasesIdle w event)
    (.construct 0) stopAndRelease (fun w => w.vRegisters 0 = 5 ∧ ¬ w.Running) (by decide)
  have run : Run (step .latin) Live (.construct 0) stopAndRelease last := run_weaken (fun _ _ both => both.1) idle
  exact ⟨(stops_respected_iff run).mpr (no_release_in_stopped_wait idle), last, run, of_decide_eq_true ends⟩

/-- A key released after Stop starts a machine that waits for one. -/
theorem release_overrides_stop :
    ¬ ∀ (keys : QtKeys) (now : Time) (events : List Event) (last : World),
      Run (step keys) Live (.construct now) events last → StopsRespected keys now events := by
  intro always
  obtain ⟨stopped, first, _⟩ := run_of_test (step .latin) Live (.construct 0)
    ([.load (some [0xF0, 0x0A]), .startCpu, .tick (.reading 0)] ++ [.stopCpu]) (fun _ => true)
    (by decide)
  obtain ⟨last, run, ends⟩ := run_of_test (step .latin) Live (.construct 0)
    (([.load (some [0xF0, 0x0A]), .startCpu, .tick (.reading 0)] ++ [.stopCpu]) ++
      [.keyPress 0x30, .keyRelease 0x30 ⟨0, 0⟩]) (fun w => w.Running) (by decide)
  have running : last.Running := of_decide_eq_true ends
  exact (always .latin 0 _ last run _ [.keyPress 0x30, .keyRelease 0x30 ⟨0, 0⟩] [] stopped last rfl first
    (by simp) (run_after run first)).1 running

/-! ## The null pointer -/

/-- The event creates the timer where it is missing: Start, and the completion
of a wait, which calls it. -/
def Creates (w : World) : Event → Prop
  | .startCpu => True
  | .tick _ => (∃ x, decode w.opcodeAt = some (.waitKey x)) ∧ w.lastOpcode ≠ 0
  | _ => False

/-- No event of the list dereferences a null `main_process_timer`. -/
def NeverNull (keys : QtKeys) (now : Time) (events : List Event) : Prop :=
  ∀ event w next, ComesUp (step keys) (fun _ _ => True) (.construct now) events event w →
    (handle keys event).run w ≠ .error .nullTimer next

/-- Before the first release of a hexadecimal key something has created the timer. -/
def CreatedBeforeReleases (keys : QtKeys) (now : Time) (events : List Event) : Prop :=
  ∀ before key readings after w k, events = before ++ .keyRelease key readings :: after →
    Run (step keys) (fun _ _ => True) (.construct now) before w → keys.code k = key →
    ∃ event v, ComesUp (step keys) (fun _ _ => True) (.construct now) before event v ∧ Creates v event

theorem timer_step (stepped : step keys w event = some next) :
    next.mainProcessTimer ≠ none ↔ w.mainProcessTimer ≠ none ∨ Creates w event := by
  cases step_iff.mp stepped with
  | @tick inputs instruction _ ticked =>
    have after : next.mainProcessTimer ≠ none ↔ instruction.timerAfter w.fetched ≠ none := by
      rw [ticked.timer]
      split <;> simp
    rw [after]
    cases instruction with
    | waitKey x =>
      rw [Instruction.timerAfter]
      by_cases idle : w.lastOpcode = 0
      · have idle' : w.fetched.lastOpcode = 0 := idle
        rw [if_pos idle']
        change w.mainProcessTimer.map _ ≠ none ↔ _
        simp [Creates, idle]
      · have pending : w.fetched.lastOpcode ≠ 0 := idle
        rw [if_neg pending]
        exact ⟨fun _ => .inr ⟨⟨x, ticked.decoded⟩, idle⟩, fun _ => Option.some_ne_none _⟩
    | _ =>
      change w.mainProcessTimer ≠ none ↔ _
      simp [Creates, ticked.decoded]
  | start => simp [Creates, World.startTimer]
  | stop => simp [Creates, World.stopTimer]
  | releaseIdle found stopped idle =>
    simp [Creates, stopped, World.beginWait, World.stopTimer, World.refresh, World.recordKey]
  | releaseWaiting found stopped pending => simp [Creates, stopped, World.completeWait, World.startTimer]
  | _ => exact (or_iff_left id).symm

/-- The timer exists exactly after something has created it. -/
theorem timer_created_iff (run : Run (step keys) (fun _ _ => True) (.construct now) events w) :
    w.mainProcessTimer ≠ none ↔
      ∃ event v, ComesUp (step keys) (fun _ _ => True) (.construct now) events event v ∧ Creates v event := by
  have recorded := run_records (fun events (w : World) =>
    Run (step keys) (fun _ _ => True) (.construct now) events w ∧
      (w.mainProcessTimer ≠ none ↔ ∃ event v,
        ComesUp (step keys) (fun _ _ => True) (.construct now) events event v ∧ Creates v event)) ?_ ?_ run
  · exact recorded.2
  · rintro before w event next ⟨reached, created⟩ permitted stepped
    refine ⟨run_append.mpr ⟨w, reached, run_single.mpr ⟨permitted, stepped⟩⟩, ?_⟩
    rw [timer_step stepped, created]
    constructor
    · rintro (⟨first, v, earlier, creates⟩ | creates)
      · exact ⟨first, v, comes_up_snoc.mpr (.inl earlier), creates⟩
      · exact ⟨event, w, comes_up_snoc.mpr (.inr ⟨rfl, reached⟩), creates⟩
    · rintro ⟨first, v, earlier, creates⟩
      rcases comes_up_snoc.mp earlier with before | ⟨rfl, again⟩
      · exact .inl ⟨first, v, before, creates⟩
      · exact .inr (run_deterministic again reached ▸ creates)
  · refine ⟨.done, fun created => absurd rfl created, ?_⟩
    rintro ⟨_, _, ⟨before, after, split, _⟩, _⟩
    simp at split

/-- Under an existing timer every release completes. -/
theorem release_under_timer (created : w.mainProcessTimer ≠ none) :
    step keys w (.keyRelease key readings) ≠ none := by
  obtain ⟨⟨active⟩, timer⟩ := Option.ne_none_iff_exists'.mp created
  rw [step_keyRelease]
  cases keys.find key with
  | none => exact Option.some_ne_none w
  | some k =>
    have recorded : (w.recordKey k 0).mainProcessTimer = some ⟨active⟩ := timer
    simp only [World.releaseKey, recorded]
    split
    · exact Option.some_ne_none _
    · split <;> exact Option.some_ne_none _

/-- A load that fails has stored past the end of RAM. -/
theorem load_faults (faulted : (handle keys (.load file)).run w = .error fault next) : fault = .loadOverrun := by
  have fails : step keys w (.load file) = none := by rw [step, faulted]
  cases file with
  | none =>
    rw [step_load_cancelled] at fails
    contradiction
  | some file =>
    have long : ¬ file.length ≤ 3584 := by
      intro fits
      rw [step_load, if_pos fits] at fails
      contradiction
    obtain ⟨copied, overrun⟩ := run_copyToRam_overrun w file 0x200 (by decide) (by omega)
    rw [handle, load_file, EStateM.run_bind, overrun] at faulted
    cases faulted
    rfl

/-- Only the release of a hexadecimal key asks a missing timer. -/
theorem null_dereference_iff (keys : QtKeys) (w : World) (event : Event) :
    (∃ next, (handle keys event).run w = .error .nullTimer next) ↔
      w.mainProcessTimer = none ∧ ∃ key readings k, event = .keyRelease key readings ∧ keys.code k = key := by
  constructor
  · rintro ⟨next, faulted⟩
    have fails : step keys w event = none := by rw [step, faulted]
    cases event with
    | tick inputs =>
      have null : tick inputs w = .error .nullTimer := by
        rw [← process_refines]
        exact outcome_eq_error.mpr ⟨next, faulted⟩
      rcases (tick_faults inputs w).2 _ null with other | other | other <;> contradiction
    | startCpu =>
      rw [step_startCpu] at fails
      contradiction
    | stopCpu =>
      rw [step_stopCpu] at fails
      contradiction
    | keyPress key =>
      rw [step_keyPress] at fails
      split at fails <;> contradiction
    | keyRelease key readings =>
      cases found : keys.find key with
      | none =>
        rw [step_keyRelease, found] at fails
        contradiction
      | some k =>
        refine ⟨?_, key, readings, k, rfl, QtKeys.find_iff.mp found⟩
        by_contra created
        exact release_under_timer created fails
    | load file => exact absurd (load_faults faulted) (by decide)
  · rintro ⟨null, key, readings, k, rfl, same⟩
    have found : keys.find key = some k := QtKeys.find_iff.mpr same
    refine ⟨w.recordKey k 0, ?_⟩
    have record : (recordKey k 0).run w = .ok () (w.recordKey k 0) := rfl
    simp only [handle, receiveKeyReleaseEvent, found, EStateM.run_bind, record]
    exact run_performFx0A_null _ readings null

/-- The null pointer is never dereferenced exactly if something creates the
timer before the first release of a hexadecimal key. -/
theorem never_null_iff (keys : QtKeys) (now : Time) (events : List Event) :
    NeverNull keys now events ↔ CreatedBeforeReleases keys now events := by
  constructor
  · intro never before key readings after w k split reached found
    rw [← timer_created_iff reached]
    intro null
    obtain ⟨next, faulted⟩ := (null_dereference_iff keys w _).mpr ⟨null, key, readings, k, rfl, found⟩
    exact never _ w next ⟨before, after, split, reached⟩ faulted
  · rintro created event w next ⟨before, after, split, reached⟩ faulted
    obtain ⟨null, key, readings, k, rfl, found⟩ := (null_dereference_iff keys w event).mp ⟨next, faulted⟩
    exact (timer_created_iff reached).mpr (created before key readings after w k split reached found) null

/-- A key released before Start. -/
theorem release_before_start_is_null :
    ¬ ∀ (keys : QtKeys) (now : Time) (events : List Event), NeverNull keys now events := by
  intro never
  obtain ⟨next, faulted⟩ := (null_dereference_iff .latin (.construct 0) (.keyRelease 0x30 ⟨0, 0⟩)).mpr
    ⟨rfl, 0x30, ⟨0, 0⟩, 0, rfl, rfl⟩
  exact never .latin 0 [.keyRelease 0x30 ⟨0, 0⟩] _ _ next ⟨[], [], rfl, .done⟩ faulted

end Chip8Emulator.TimerControl
