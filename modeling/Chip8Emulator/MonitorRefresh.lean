import Chip8Emulator.FrontPanel
import Chip8Emulator.Foundations.Throttle

/-! `sendSignalToMonitor` as a throttle. The picture on the monitor is one the
machine really had, and no tick has come 101 milliseconds after it; and the
monitor is sent no more pictures than a stretch of time has spans of that
length, those of the waits aside. -/
namespace Chip8Emulator.MonitorRefresh
open Foundations.Runs Foundations.Throttle Displays FrontPanel SpriteDrawing

/-! ## One call -/

/-- More than a hundred whole milliseconds. -/
def refreshPeriod : Int := 101000000

theorem milliseconds_iff (duration : Time) : milliseconds duration > 100 ↔ refreshPeriod ≤ duration := by
  unfold milliseconds refreshPeriod
  rcases Int.le_total 0 duration with positive | negative
  · rw [Int.tdiv_eq_ediv_of_nonneg positive]
    omega
  · have opposite : 0 ≤ (-duration).tdiv 1000000 := Int.tdiv_nonneg (by omega) (by decide)
    rw [Int.neg_tdiv] at opposite
    omega

/-- A call of `sendSignalToMonitor`. -/
def refreshCall (period : CheckPeriod) (taken : SteadyReadings) : Call where
  first := taken.first
  now := taken.now
  forced := period = .no

def isPicture : Signal → Bool
  | .frameBufferChanged _ => true
  | _ => false

/-- How many pictures the monitor has been sent. -/
def frames (w : World) : Nat := w.emitted.countP isPicture

def throttle (w : World) : State where
  last := w.lastUpdated
  passed := frames w

theorem shows_iff (w : World) (period : CheckPeriod) (taken : SteadyReadings) :
    w.Shows period taken ↔ Passes refreshPeriod w.lastUpdated (refreshCall period taken) := by
  simp only [World.Shows, milliseconds_iff, Passes, refreshCall, decide_eq_true_eq]

theorem throttle_refresh (w : World) (period : CheckPeriod) (taken : SteadyReadings) :
    throttle (w.refresh period taken) = (throttle w).next refreshPeriod (refreshCall period taken) := by
  simp only [throttle, World.refresh, State.next, ← shows_iff]
  by_cases shows : w.Shows period taken
  · simp only [shows, ↓reduceIte, frames, List.countP_cons, isPicture]
    rfl
  · simp only [shows, ↓reduceIte]
    rfl

/-! ## One event -/

/-- The instruction at the program counter enters a wait. -/
def entersWait (w : World) : Bool :=
  match decode w.opcodeAt with
  | some (.waitKey _) => w.lastOpcode = 0
  | _ => false

/-- The calls an event makes, in order. -/
def refreshCalls (keys : QtKeys) (w : World) : Event → List Call
  | .tick inputs =>
    (if entersWait w then [refreshCall .no inputs.wait] else []) ++ [refreshCall .yes inputs.refresh]
  | .keyRelease key taken =>
    if (keys.find key).isSome ∧ w.mainProcessTimer = some { isActive := false } ∧ w.lastOpcode = 0
    then [refreshCall .no taken] else []
  | _ => []

/-- An instruction that enters no wait sends no picture. -/
theorem throttle_kept (quiet : ¬ EntersWait w instruction) (effect : execute inputs w instruction = .ok executed) :
    throttle executed = throttle w := by
  refine execute_keeps (fun v => throttle v = throttle w) (fun _ _ _ kept => kept) (fun _ _ _ _ _ _ kept => kept)
    (fun _ => rfl) (fun _ _ => rfl) ?_ rfl effect
  intro x isWait
  rw [if_neg fun idle => quiet ⟨⟨x, isWait⟩, idle⟩]
  rfl

theorem enters_wait_iff (decoded : decode w.opcodeAt = some instruction) :
    entersWait w = true ↔ EntersWait w.fetched instruction := by
  unfold entersWait EntersWait
  rw [decoded]
  cases instruction with
  | waitKey x =>
    constructor
    · intro idle
      exact ⟨⟨x, rfl⟩, of_decide_eq_true idle⟩
    · rintro ⟨_, idle⟩
      exact decide_eq_true idle
  | _ => simp

theorem throttle_tick (ticked : Ticked inputs w instruction next) :
    throttle next = (throttle w).after refreshPeriod (refreshCalls keys w (.tick inputs)) := by
  have enters := enters_wait_iff ticked.decoded
  obtain ⟨executed, effect, rfl⟩ := ticked.executes
  have ends : throttle (executed.finish inputs) =
      (throttle executed).next refreshPeriod (refreshCall .yes inputs.refresh) :=
    throttle_refresh { executed with delayTimer := executed.delayAfter inputs.now } .yes inputs.refresh
  rw [ends, refreshCalls, after_append]
  by_cases waits : EntersWait w.fetched instruction
  · rw [if_pos (enters.mpr waits)]
    obtain ⟨⟨x, rfl⟩, idle⟩ := waits
    rw [execute, if_pos idle] at effect
    cases effect
    have begun := throttle_refresh { w.fetched with lastOpcode := waitOpcode x } .no inputs.wait
    exact congrArg (State.next refreshPeriod · (refreshCall .yes inputs.refresh)) begun
  · rw [if_neg fun now => waits (enters.mp now), throttle_kept waits effect]
    rfl

/-- An event moves the throttle by the calls it makes. -/
theorem throttle_step (stepped : step keys w event = some next) :
    throttle next = (throttle w).after refreshPeriod (refreshCalls keys w event) := by
  cases step_iff.mp stepped with
  | tick ticked => exact throttle_tick ticked
  | @releaseIdle _ k taken found stopped idle =>
    rw [refreshCalls, if_pos ⟨by rw [found]; rfl, stopped, idle⟩]
    exact throttle_refresh { w.recordKey k 0 with lastOpcode := 0 } .no taken
  | otherRelease missing =>
    rw [refreshCalls, if_neg fun calls => by rw [missing] at calls; exact absurd calls.1 nofun]
    rfl
  | releaseRunning found running =>
    rw [refreshCalls, if_neg fun calls => by rw [running] at calls; exact absurd calls.2.1 (by decide)]
    rfl
  | releaseWaiting found stopped pending =>
    rw [refreshCalls, if_neg fun calls => pending calls.2.2]
    rfl
  | _ => rfl

/-! ## The rate -/

/-- The calls of a run, recorded as it goes. -/
def recordCalls (keys : QtKeys) (calls : List Call) (w : World) (event : Event) : List Call :=
  calls ++ refreshCalls keys w event

/-- Where the clock readings of these calls are in order, the monitor is sent
at most one picture for every 101 milliseconds of their span, and one for each
wait. -/
theorem frame_rate_bounded {keys : QtKeys} {now : Time} {events : List Event} {w : World} {calls : List Call}
    {lo hi : Time}
    (run : Run (withHistory (step keys) (recordCalls keys)) (fun p event => Live p.1 event) (.construct now, [])
      events (w, calls))
    (ordered : (readings calls).Pairwise (· ≤ ·)) (within : ∀ reading ∈ readings calls, lo ≤ reading ∧ reading ≤ hi)
    (stretch : lo ≤ hi) :
    101000000 * frames w ≤ 101000000 * forcedCount calls + (hi - lo) := by
  have recorded : throttle w = State.initial.after refreshPeriod calls := by
    refine run_invariant (fun p => throttle p.1 = State.initial.after refreshPeriod p.2) ?_ rfl run
    rintro ⟨v, before⟩ event ⟨next, longer⟩ holds _ stepped
    obtain ⟨completes, rfl⟩ := with_history_step.mp stepped
    rw [throttle_step completes, holds, recordCalls, after_append]
  have bound := passed_bound refreshPeriod ordered within stretch
  rw [← recorded] at bound
  exact bound

/-- One picture in exactly 101 milliseconds. -/
theorem frame_rate_reached : ∃ (w : World) (calls : List Call), frames w = 1 ∧ forcedCount calls = 0 ∧
    101000000 * (frames w : Int) ≤ 101000000 * forcedCount calls + (101000000 - 0) := by
  obtain ⟨⟨w, calls⟩, run, ends⟩ := run_of_test (withHistory (step .latin) (recordCalls .latin))
    (fun p event => Live p.1 event) (.construct 0, [])
    [.startCpu, .tick (.reading 0), .tick (.reading 101000000)]
    (fun p => frames p.1 = 1 ∧ forcedCount p.2 = 0 ∧ (readings p.2).Pairwise (· ≤ ·) ∧
      ∀ reading ∈ readings p.2, 0 ≤ reading ∧ reading ≤ 101000000) (by decide)
  obtain ⟨one, none, ordered, within⟩ := of_decide_eq_true ends
  exact ⟨w, calls, one, none, frame_rate_bounded run ordered within (by decide)⟩

/-! ## The picture shown -/

def sentPicture (w : World) : Option FrameBuffer := w.emitted.findSome? pictureReport

/-- The event hands over the picture it leaves, at a reading it took. -/
def HandsOver (event : Event) (next : World) : Prop :=
  sentPicture next = some next.frameBuffer ∧ ∃ reading ∈ steadyReadings event, next.lastUpdated = some reading

/-- The event hands nothing over: a tick comes too early for that. -/
structure HoldsBack (w : World) (event : Event) (next : World) : Prop where
  picture : sentPicture next = sentPicture w
  early : ∀ inputs, event = .tick inputs →
    next.lastUpdated = some (w.lastUpdated.getD inputs.refresh.first) ∧
      inputs.refresh.now - w.lastUpdated.getD inputs.refresh.first < refreshPeriod
  other : ¬ event.isTick → next.lastUpdated = w.lastUpdated

theorem refresh_shows (w : World) (period : CheckPeriod) (taken : SteadyReadings) (shows : w.Shows period taken) :
    sentPicture (w.refresh period taken) = some w.frameBuffer ∧
      (w.refresh period taken).lastUpdated = some taken.now := by
  have sent : (w.refresh period taken).emitted = .frameBufferChanged w.frameBuffer :: w.emitted := if_pos shows
  have measured : (w.refresh period taken).lastUpdated = some taken.now := congrArg some (if_pos shows)
  refine ⟨?_, measured⟩
  rw [sentPicture, sent]
  rfl

theorem refresh_keeps (w : World) (period : CheckPeriod) (taken : SteadyReadings) (hides : ¬ w.Shows period taken) :
    sentPicture (w.refresh period taken) = sentPicture w ∧
      (w.refresh period taken).lastUpdated = some (w.lastUpdated.getD taken.first) := by
  have sent : (w.refresh period taken).emitted = w.emitted := if_neg hides
  have measured : (w.refresh period taken).lastUpdated = some (w.lastUpdated.getD taken.first) :=
    congrArg some (if_neg hides)
  refine ⟨?_, measured⟩
  rw [sentPicture, sent]
  rfl

/-- An instruction that enters no wait hands nothing over. -/
theorem sent_kept (quiet : ¬ EntersWait w instruction) (effect : execute inputs w instruction = .ok executed) :
    sentPicture executed = sentPicture w := by
  refine execute_keeps (fun v => sentPicture v = sentPicture w) (fun _ _ _ kept => kept)
    (fun _ _ _ _ _ _ kept => kept) (fun _ => rfl) (fun _ _ => rfl) ?_ rfl effect
  intro x isWait
  rw [if_neg fun idle => quiet ⟨⟨x, isWait⟩, idle⟩]
  rfl

theorem tick_hands_over_or_back (ticked : Ticked inputs w instruction next) :
    HandsOver (.tick inputs) next ∨ HoldsBack w (.tick inputs) next := by
  obtain ⟨executed, effect, rfl⟩ := ticked.executes
  let ended : World := { executed with delayTimer := executed.delayAfter inputs.now }
  by_cases shows : ended.Shows .yes inputs.refresh
  · obtain ⟨sent, measured⟩ := refresh_shows ended .yes inputs.refresh shows
    exact .inl ⟨sent, inputs.refresh.now, by simp [steadyReadings], measured⟩
  · obtain ⟨kept, measured⟩ := refresh_keeps ended .yes inputs.refresh shows
    by_cases waits : EntersWait w.fetched instruction
    · obtain ⟨⟨x, rfl⟩, idle⟩ := waits
      rw [execute, if_pos idle] at effect
      cases effect
      obtain ⟨sent, started⟩ :=
        refresh_shows { w.fetched with lastOpcode := waitOpcode x } .no inputs.wait (.inr rfl)
      exact .inl ⟨kept.trans sent, inputs.wait.now, by simp [steadyReadings], measured.trans
        (congrArg (fun last => some (Option.getD last inputs.refresh.first)) started)⟩
    · obtain ⟨_, last⟩ := monitor_kept waits effect
      have same : ended.lastUpdated = w.lastUpdated := last
      rw [same] at measured
      have silent : sentPicture executed = sentPicture w.fetched := sent_kept waits effect
      refine .inr ⟨kept.trans silent, ?_, fun notTick => absurd rfl notTick⟩
      rintro _ ⟨⟩
      refine ⟨measured, ?_⟩
      rw [shows_iff, Passes, not_or, same] at shows
      exact Int.not_le.mp shows.1

theorem hands_over_or_back (stepped : step keys w event = some next) :
    HandsOver event next ∨ HoldsBack w event next := by
  cases step_iff.mp stepped with
  | tick ticked => exact tick_hands_over_or_back ticked
  | @releaseIdle _ k taken found stopped idle =>
    obtain ⟨sent, started⟩ :=
      refresh_shows { w.recordKey k 0 with lastOpcode := 0 } .no taken (.inr rfl)
    exact .inl ⟨sent, taken.now, by simp [steadyReadings], started⟩
  | _ => exact .inr ⟨rfl, nofun, fun _ => rfl⟩

/-- No tick of the list reads the clock a refresh period after `start`. -/
def Early (start : Time) (events : List Event) : Prop :=
  ∀ inputs, .tick inputs ∈ events → inputs.refresh.now - start < 101000000

theorem early_snoc (early : Early start events) (measured : w.lastUpdated = some start)
    (back : HoldsBack w event next) : Early start (events ++ [event]) ∧ next.lastUpdated = some start := by
  by_cases isTick : ∃ inputs, event = .tick inputs
  · obtain ⟨inputs, rfl⟩ := isTick
    obtain ⟨kept, soon⟩ := back.early inputs rfl
    rw [measured] at kept soon
    refine ⟨?_, kept⟩
    intro later member
    rcases List.mem_append.mp member with before | last
    · exact early later before
    · cases List.mem_singleton.mp last
      exact soon
  · have other : ¬ event.isTick := by
      cases event with
      | tick inputs => exact absurd ⟨inputs, rfl⟩ isTick
      | _ => nofun
    refine ⟨?_, (back.other other).trans measured⟩
    intro later member
    rcases List.mem_append.mp member with before | last
    · exact early later before
    · exact absurd ⟨later, (List.mem_singleton.mp last).symm⟩ isTick

/-- No picture has been handed over, and the ticks, if there are any, all come
within a refresh period of the reading the first of them starts the throttle with. -/
def Opening (events : List Event) (w : World) : Prop :=
  sentPicture w = none ∧
    ((w.lastUpdated = none ∧ ∀ event ∈ events, ¬ event.isTick) ∨
      ∃ before first after, events = before ++ .tick first :: after ∧ (∀ event ∈ before, ¬ event.isTick) ∧
        Early first.refresh.first (.tick first :: after) ∧ w.lastUpdated = some first.refresh.first)

/-- The picture handed over last is the one some event left, and no tick since
has come a refresh period after a reading that event took. -/
def Recent (keys : QtKeys) (now : Time) (events : List Event) (w : World) : Prop :=
  ∃ earlier sender after m reading, events = earlier ++ sender :: after ∧
    Run (step keys) Live (.construct now) (earlier ++ [sender]) m ∧ sentPicture w = some m.frameBuffer ∧
    reading ∈ steadyReadings sender ∧ Early reading after ∧ w.lastUpdated = some reading

theorem opening_snoc (opening : Opening events w) (back : HoldsBack w event next) :
    Opening (events ++ [event]) next := by
  obtain ⟨dark, untouched | ⟨before, first, after, split, quiet, early, measured⟩⟩ := opening
  · obtain ⟨unmeasured, quiet⟩ := untouched
    refine ⟨back.picture.trans dark, ?_⟩
    cases event with
    | tick inputs =>
      obtain ⟨measured, soon⟩ := back.early inputs rfl
      rw [unmeasured] at measured soon
      refine .inr ⟨events, inputs, [], rfl, quiet, ?_, measured⟩
      intro later member
      cases List.mem_singleton.mp member
      exact soon
    | _ =>
      refine .inl ⟨(back.other nofun).trans unmeasured, ?_⟩
      intro later member
      rcases List.mem_append.mp member with now | last
      · exact quiet later now
      · rw [List.mem_singleton.mp last]
        nofun
  · obtain ⟨longer, kept⟩ := early_snoc early measured back
    exact ⟨back.picture.trans dark, .inr ⟨before, first, after ++ [event], by simp [split], quiet, longer, kept⟩⟩

theorem recent_snoc (recent : Recent keys now events w) (back : HoldsBack w event next) :
    Recent keys now (events ++ [event]) next := by
  obtain ⟨earlier, sender, after, m, reading, split, reached, sent, taken, early, measured⟩ := recent
  obtain ⟨longer, kept⟩ := early_snoc early measured back
  exact ⟨earlier, sender, after ++ [event], m, reading, by simp [split], reached, back.picture.trans sent, taken,
    longer, kept⟩

theorem opening_or_recent (run : Run (step keys) Live (.construct now) events w) :
    Opening events w ∨ Recent keys now events w := by
  have both := run_records (fun events w => Run (step keys) Live (.construct now) events w ∧
    (Opening events w ∨ Recent keys now events w)) ?_ ⟨.done, .inl ⟨rfl, .inl ⟨rfl, nofun⟩⟩⟩ run
  · exact both.2
  · rintro before s event t ⟨reached, shown⟩ live stepped
    have further : Run (step keys) Live (.construct now) (before ++ [event]) t :=
      run_append.mpr ⟨s, reached, run_single.mpr ⟨live, stepped⟩⟩
    refine ⟨further, ?_⟩
    rcases hands_over_or_back stepped with ⟨sent, reading, taken, measured⟩ | back
    · exact .inr ⟨before, event, [], t, reading, rfl, further, sent, taken, nofun, measured⟩
    · exact shown.imp (opening_snoc · back) (recent_snoc · back)

/-- No tick has come 101 milliseconds after the reading the first one starts with. -/
def StartsOff (events : List Event) : Prop :=
  (∀ event ∈ events, ¬ event.isTick) ∨
    ∃ before first after, events = before ++ .tick first :: after ∧ (∀ event ∈ before, ¬ event.isTick) ∧
      Early first.refresh.first (.tick first :: after)

theorem starts_off (opening : Opening events w) : StartsOff events := by
  obtain ⟨_, ⟨_, quiet⟩ | ⟨before, first, after, split, quiet, early, _⟩⟩ := opening
  · exact .inl quiet
  · exact .inr ⟨before, first, after, split, quiet, early⟩

/-- The screen is dark, and no tick has come 101 milliseconds after the first
one's start; or it shows the picture the machine had after some event, and no
tick since has come 101 milliseconds after that event. -/
def ScreenRecent (keys : QtKeys) (now : Time) (events : List Event) (monitor : Monitor) : Prop :=
  (monitor.scene = [] ∧ StartsOff events) ∨
  ∃ earlier sender after m map reading, events = earlier ++ sender :: after ∧
    Run (step keys) Live (.construct now) (earlier ++ [sender]) m ∧
    monitor.scene = [map] ∧ Enlarges map (lit m.frameBuffer) ∧ reading ∈ steadyReadings sender ∧ Early reading after

theorem scene_dark (dark : sentPicture w = none) : (present qt w).monitor.scene = [] :=
  congrArg (fun sent : Option FrameBuffer => sent.toList.map (screen qt)) dark

/-- The picture handed over last is what the screen shows. -/
theorem scene_lit {qt : QtBitmaps} (reads : qt.ReadsMono) (scales : qt.ScalesWhole)
    (sent : sentPicture w = some buffer) :
    ∃ map, (present qt w).monitor.scene = [map] ∧ Enlarges map (lit buffer) := by
  refine ⟨screen qt buffer, ?_, screen_enlarges reads scales buffer⟩
  exact congrArg (fun sent : Option FrameBuffer => sent.toList.map (screen qt)) sent

/-- A draw, and a second timeout 101 milliseconds later. -/
def drawThenWait : List GuiEvent :=
  [.loadReleased (some [0xD0, 0x01]), .startReleased, .timeout (.reading 0), .timeout (.reading 101000000)]

end Chip8Emulator.MonitorRefresh
