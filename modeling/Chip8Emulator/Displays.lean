import Chip8Emulator.InstructionFrames
import Chip8Emulator.Foundations.Runs
import Mathlib.Data.Fintype.Basic

/-! The displays connected to the machine's signals. Each shows the last value
it was sent, so it is right exactly as long as every writer of what it shows
sends the new value: one writer of the index register does not, and the picture
is sent at most every tenth of a second, whatever stops the CPU. -/
namespace Chip8Emulator.Displays
open Foundations.Runs

/-! ## What the displays show -/

def registerReport (i : Fin 16) : Signal → Option Int
  | .vRegisterChanged j value => if j = i.val then some value else none
  | _ => none

def indexReport : Signal → Option Int
  | .indexRegisterChanged value => some value
  | _ => none

def pictureReport : Signal → Option FrameBuffer
  | .frameBufferChanged buffer => some buffer
  | _ => none

/-- The last value sent for `Vi`, zero before the first. -/
def shownRegister (w : World) (i : Fin 16) : Int := (w.emitted.findSome? (registerReport i)).getD 0

/-- The last value sent for the index register, zero before the first. -/
def shownIndex (w : World) : Int := (w.emitted.findSome? indexReport).getD 0

/-- The last picture handed to the monitor, dark before the first. -/
def shownPicture (w : World) : FrameBuffer := (w.emitted.findSome? pictureReport).getD fun _ _ => 0

/-- What holds of the signals and registers, an instruction keeps if its
announced writes and its wait do; the silent components do not matter. -/
theorem execute_keeps (holds : World → Prop)
    (written : ∀ v x value, holds v → holds (v.writeV x value))
    (silent : ∀ (v : World) ram buffer pointer counter delay, holds v → holds { v with
      ram := ram, frameBuffer := buffer, stackPointer := pointer, programCounter := counter
      delayTimer := delay })
    (indexed : ∀ value, holds (w.writeIndex value))
    (pointed : ∀ x, instruction = .glyph x →
      holds { w with indexRegister := BitVec.ofNat 16 (5 * (w.vRegisters x).toNat) })
    (waited : ∀ x, instruction = .waitKey x →
      holds (if w.lastOpcode = 0 then w.beginWait (waitOpcode x) inputs.wait else w.completeWait))
    (start : holds w) (effect : execute inputs w instruction = .ok executed) : holds executed := by
  cases instruction with
  | setByte | addByte | random | readDelay | copy | or | and | xor =>
    cases effect
    exact written _ _ _ start
  | add | sub | subFrom | shiftRight | shiftLeft =>
    cases effect
    exact written _ _ _ (written _ _ _ start)
  | restore x =>
    simp only [execute] at effect
    split at effect
    · cases effect
      exact restored_keeps w holds written start (by omega)
    · contradiction
  | setIndex | addIndex =>
    cases effect
    exact indexed _
  | glyph x =>
    cases effect
    exact pointed x rfl
  | waitKey x =>
    cases effect
    exact waited x rfl
  | draw | bcd | save | skipIfKey | skipUnlessKey =>
    simp only [execute] at effect
    split at effect
    · cases effect
      exact silent w _ _ _ _ _ start
    · contradiction
  | _ =>
    cases effect
    exact silent w _ _ _ _ _ start

/-! ## The register panel -/

/-- Every register display shows its register. -/
def RegistersShown (w : World) : Prop := ∀ i, shownRegister w i = (w.vRegisters i).toNat

theorem registers_shown_write (w : World) (x : Fin 16) (value : Byte) (shown : RegistersShown w) :
    RegistersShown (w.writeV x value) := by
  intro i
  by_cases same : i = x
  · subst same
    simp [shownRegister, World.writeV, registerReport]
  · have other : (x.val : Int) ≠ i.val := by omega
    have kept : shownRegister (w.writeV x value) i = shownRegister w i := by
      simp [shownRegister, World.writeV, registerReport, other]
    rw [kept, write_elsewhere w value same]
    exact shown i

theorem registers_shown_refresh (period : CheckPeriod) (readings : SteadyReadings) (shown : RegistersShown w) :
    RegistersShown (w.refresh period readings) := by
  intro i
  have kept : shownRegister (w.refresh period readings) i = shownRegister w i := by
    simp only [shownRegister, World.refresh]
    split <;> rfl
  rw [kept]
  exact shown i

/-- Every instruction announces the registers it writes. -/
theorem registers_shown_execute (shown : RegistersShown w)
    (effect : execute inputs w instruction = .ok executed) : RegistersShown executed := by
  refine execute_keeps RegistersShown registers_shown_write (fun _ _ _ _ _ _ kept => kept)
    (fun _ => shown) (fun _ _ => shown) ?_ shown effect
  intro x _
  split
  · exact registers_shown_refresh _ _ shown
  · exact registers_shown_write _ _ _ shown

theorem registers_shown_step (shown : RegistersShown w) (stepped : step keys w event = some next) :
    RegistersShown next := by
  cases step_iff.mp stepped with
  | @tick inputs _ _ ticked =>
    obtain ⟨executed, effect, rfl⟩ := ticked.executes
    have fetched : RegistersShown w.fetched := shown
    have reached : RegistersShown executed := registers_shown_execute fetched effect
    exact registers_shown_refresh _ _ reached
  | releaseIdle found stopped idle => exact registers_shown_refresh _ _ shown
  | releaseWaiting found stopped pending => exact registers_shown_write _ _ _ shown
  | _ => exact shown

/-- The index display shows the index register. -/
def IndexShown (w : World) : Prop := shownIndex w = w.indexRegister.toNat

theorem shown_index_refresh (w : World) (period : CheckPeriod) (readings : SteadyReadings) :
    shownIndex (w.refresh period readings) = shownIndex w := by
  simp only [shownIndex, World.refresh]
  split <;> rfl

theorem index_shown_refresh (period : CheckPeriod) (readings : SteadyReadings) (shown : IndexShown w) :
    IndexShown (w.refresh period readings) :=
  (shown_index_refresh w period readings).trans shown

/-- Every writer of the index register but one announces it. -/
theorem index_shown_execute (notGlyph : ∀ x, instruction ≠ .glyph x) (shown : IndexShown w)
    (effect : execute inputs w instruction = .ok executed) : IndexShown executed := by
  refine execute_keeps IndexShown (fun _ _ _ kept => kept) (fun _ _ _ _ _ _ kept => kept)
    (fun _ => rfl) (fun x isGlyph => absurd isGlyph (notGlyph x)) ?_ shown effect
  intro x _
  split
  · exact index_shown_refresh _ _ shown
  · exact shown

/-- An executed `Fx29` points where the index register already points. -/
def GlyphsInPlace (w : World) (event : Event) : Prop :=
  ∀ x, event.instruction w = some (.glyph x) → 5 * (w.vRegisters x).toNat = w.indexRegister.toNat

instance : ∀ w event, Decidable (GlyphsInPlace w event) := fun _ _ =>
  inferInstanceAs (Decidable (∀ _, _ → _))

/-- `Fx29` moves the index register and sends nothing. -/
theorem glyph_shows_iff (shown : IndexShown w) (ticked : Ticked inputs w (.glyph x) next) :
    IndexShown next ↔ 5 * (w.vRegisters x).toNat = w.indexRegister.toNat := by
  have moved : next.indexRegister.toNat = 5 * (w.vRegisters x).toNat := by
    have small := (w.vRegisters x).isLt
    rw [ticked.indexRegister]
    change (BitVec.ofNat 16 (5 * (w.vRegisters x).toNat)).toNat = _
    rw [BitVec.toNat_ofNat]
    omega
  have silent : shownIndex next = w.indexRegister.toNat := by
    obtain ⟨executed, effect, rfl⟩ := ticked.executes
    cases effect
    exact (shown_index_refresh _ _ _).trans shown
  rw [IndexShown, silent, moved]
  omega

/-- The whole panel. -/
structure PanelShown (w : World) : Prop where
  registers : RegistersShown w
  index : IndexShown w

theorem panel_step_iff (shown : PanelShown w) (stepped : step keys w event = some next) :
    PanelShown next ↔ GlyphsInPlace w event := by
  have registers := registers_shown_step shown.registers stepped
  have sent (index : IndexShown next) (place : GlyphsInPlace w event) :
      PanelShown next ↔ GlyphsInPlace w event := iff_of_true ⟨registers, index⟩ place
  cases step_iff.mp stepped with
  | @tick inputs instruction _ ticked =>
    by_cases isGlyph : ∃ x, instruction = .glyph x
    · obtain ⟨x, rfl⟩ := isGlyph
      constructor
      · intro after y executed
        obtain rfl : x = y := by
          have same := Option.some.inj (ticked.decoded.symm.trans executed)
          exact Instruction.glyph.inj same
        exact (glyph_shows_iff shown.index ticked).mp after.index
      · intro place
        exact ⟨registers, (glyph_shows_iff shown.index ticked).mpr (place x ticked.decoded)⟩
    · have notGlyph := not_exists.mp isGlyph
      refine sent ?_ fun x executed => absurd (Option.some.inj (ticked.decoded.symm.trans executed)) (notGlyph x)
      obtain ⟨executed, effect, rfl⟩ := ticked.executes
      have fetched : IndexShown w.fetched := shown.index
      have reached : IndexShown executed := index_shown_execute notGlyph fetched effect
      exact index_shown_refresh _ _ reached
  | releaseIdle found stopped idle => exact sent (index_shown_refresh _ _ shown.index) nofun
  | _ => exact sent shown.index nofun

/-- After every completed event of the list the panel shows the machine. -/
def PanelMirrors (keys : QtKeys) (now : Time) (events : List Event) : Prop :=
  ∀ before after m, events = before ++ after → Run (step keys) (fun _ _ => True) (.construct now) before m →
    PanelShown m

/-- The panel mirrors the machine exactly if no `Fx29` moves the index register. -/
theorem panel_mirrors_iff {keys : QtKeys} {now : Time} {events : List Event} {w : World}
    (run : Run (step keys) (fun _ _ => True) (.construct now) events w) :
    PanelMirrors keys now events ↔ Run (step keys) GlyphsInPlace (.construct now) events w := by
  have start : PanelShown (.construct now) := ⟨fun _ => rfl, rfl⟩
  have meets := run_meets_iff PanelShown GlyphsInPlace
    (fun _ _ _ shown _ stepped => panel_step_iff shown stepped) start run
  constructor
  · intro mirrors
    exact run_weaken (fun _ _ both => both.2) (meets.mpr mirrors)
  · intro inPlace
    exact meets.mp (run_weaken (fun _ _ place => ⟨trivial, place⟩) inPlace)

/-- `A005` is announced. -/
theorem panel_mirrors_index : ∃ w : World, w.indexRegister = 5 ∧
    PanelMirrors .latin 0 [.load (some [0xA0, 0x05]), .startCpu, .tick (.reading 0)] := by
  obtain ⟨w, run, ends⟩ := run_of_test (step .latin) GlyphsInPlace (.construct 0)
    [.load (some [0xA0, 0x05]), .startCpu, .tick (.reading 0)] (fun w => w.indexRegister = 5)
    (by decide)
  exact ⟨w, of_decide_eq_true ends, (panel_mirrors_iff (run_weaken (fun _ _ _ => trivial) run)).mpr run⟩

/-- `F029` with one in `V0` moves the index register behind the display's back. -/
theorem glyph_leaves_panel_stale :
    ¬ ∀ (keys : QtKeys) (now : Time) (events : List Event) (w : World),
      Run (step keys) Live (.construct now) events w → PanelMirrors keys now events := by
  intro always
  obtain ⟨w, run, ends⟩ := run_of_test (step .latin) Live (.construct 0)
    [.load (some [0x60, 0x01, 0xF0, 0x29]), .startCpu, .tick (.reading 0), .tick (.reading 0)]
    (fun w => w.indexRegister = 5 ∧ shownIndex w = 0) (by decide)
  obtain ⟨moved, stale⟩ := of_decide_eq_true ends
  have mirrors := always .latin 0 _ w run _ [] w (List.append_nil _).symm (run_weaken (fun _ _ _ => trivial) run)
  have shown := mirrors.index
  rw [IndexShown, stale, moved] at shown
  exact absurd shown (by decide)

/-! ## The monitor -/

/-- The monitor shows the frame buffer. -/
def PictureShown (w : World) : Prop := shownPicture w = w.frameBuffer

theorem shown_picture_refresh (w : World) (period : CheckPeriod) (readings : SteadyReadings) :
    shownPicture (w.refresh period readings) =
      if w.Shows period readings then w.frameBuffer else shownPicture w := by
  simp only [shownPicture, World.refresh]
  split <;> rfl

/-- A wait that is entered hands its picture over without looking at the throttle. -/
theorem picture_shown_begin (w : World) (opcode : DByte) (readings : SteadyReadings) :
    PictureShown (w.beginWait opcode readings) :=
  (shown_picture_refresh { w with lastOpcode := opcode } .no readings).trans (if_pos (.inr rfl))

theorem picture_shown_refresh (period : CheckPeriod) (readings : SteadyReadings) (shown : PictureShown w) :
    PictureShown (w.refresh period readings) := by
  refine (shown_picture_refresh w period readings).trans ?_
  split
  · rfl
  · exact shown

/-- The instruction enters a wait. -/
def EntersWait (w : World) (instruction : Instruction) : Prop :=
  (∃ x, instruction = .waitKey x) ∧ w.lastOpcode = 0

/-- Every other instruction leaves the monitor and its throttle alone. -/
theorem monitor_kept (quiet : ¬ EntersWait w instruction) (effect : execute inputs w instruction = .ok executed) :
    shownPicture executed = shownPicture w ∧ executed.lastUpdated = w.lastUpdated := by
  refine execute_keeps (fun v => shownPicture v = shownPicture w ∧ v.lastUpdated = w.lastUpdated)
    (fun _ _ _ kept => kept) (fun _ _ _ _ _ _ kept => kept) (fun _ => ⟨rfl, rfl⟩) (fun _ _ => ⟨rfl, rfl⟩)
    ?_ ⟨rfl, rfl⟩ effect
  intro x isWait
  rw [if_neg fun idle => quiet ⟨⟨x, isWait⟩, idle⟩]
  exact ⟨rfl, rfl⟩

/-- Such a tick ends with its picture shown if the throttle lets it through or
the picture was shown already. -/
theorem picture_shown_tick_iff (quiet : ¬ EntersWait w instruction) (ticked : Ticked inputs w instruction next) :
    PictureShown next ↔
      w.Shows .yes inputs.refresh ∨ shownPicture w = instruction.frameBufferAfter w.fetched := by
  have picture := ticked.frameBuffer
  obtain ⟨executed, effect, rfl⟩ := ticked.executes
  have calm : ¬ EntersWait w.fetched instruction := quiet
  have same : shownPicture executed = shownPicture w.fetched ∧ executed.lastUpdated = w.fetched.lastUpdated :=
    monitor_kept calm effect
  obtain ⟨kept, updated⟩ : shownPicture executed = shownPicture w ∧ executed.lastUpdated = w.lastUpdated := same
  have buffer : executed.frameBuffer = instruction.frameBufferAfter w.fetched := picture
  have throttle : executed.Shows .yes inputs.refresh ↔ w.Shows .yes inputs.refresh := by
    rw [World.Shows, updated]
    exact Iff.rfl
  have shown : shownPicture (executed.finish inputs) =
      if executed.Shows .yes inputs.refresh then executed.frameBuffer else shownPicture executed :=
    shown_picture_refresh { executed with delayTimer := executed.delayAfter inputs.now } .yes inputs.refresh
  unfold PictureShown
  rw [shown, picture, buffer, kept]
  by_cases lets : w.Shows .yes inputs.refresh
  · rw [if_pos (throttle.mpr lets)]
    exact iff_of_true rfl (.inl lets)
  · rw [if_neg (fun passes => lets (throttle.mp passes)), or_iff_right lets]

/-- A tick that enters a wait ends with its picture shown. -/
theorem picture_shown_wait (idle : w.lastOpcode = 0) (ticked : Ticked inputs w (.waitKey x) next) :
    PictureShown next := by
  obtain ⟨executed, effect, rfl⟩ := ticked.executes
  have idle' : w.fetched.lastOpcode = 0 := idle
  rw [execute, if_pos idle'] at effect
  cases effect
  exact picture_shown_refresh .yes inputs.refresh (picture_shown_begin w.fetched _ _)

/-- Whenever the timer is inactive the monitor shows the frame buffer. -/
def StoppedShown (w : World) : Prop := ¬ w.Running → PictureShown w

/-- What keeps a stopped machine's picture on the monitor. The end of RAM: a
wait is entered, the throttle lets the picture through, or it was shown
already; Stop: the picture was shown already; a load under a stopped timer: a
dark picture was. -/
def StopsShown (w : World) : Event → Prop
  | .tick inputs => ∀ instruction, decode w.opcodeAt = some instruction →
      (instruction.programCounterAfter w.fetched).toNat = ramSize →
      EntersWait w instruction ∨ w.Shows .yes inputs.refresh ∨
        shownPicture w = instruction.frameBufferAfter w.fetched
  | .stopCpu => w.Running → PictureShown w
  | .load (some _) => ¬ w.Running → shownPicture w = fun _ _ => 0
  | _ => True

instance (w : World) : Decidable (PictureShown w) := inferInstanceAs (Decidable (_ = _))

instance (w : World) (instruction : Instruction) : Decidable (EntersWait w instruction) :=
  inferInstanceAs (Decidable (_ ∧ _))

instance (w : World) : ∀ event, Decidable (StopsShown w event)
  | .tick inputs => inferInstanceAs (Decidable (∀ instruction ∈ decode w.opcodeAt,
      (instruction.programCounterAfter w.fetched).toNat = ramSize → EntersWait w instruction ∨
        w.Shows .yes inputs.refresh ∨ shownPicture w = instruction.frameBufferAfter w.fetched))
  | .stopCpu => inferInstanceAs (Decidable (w.Running → PictureShown w))
  | .load (some _) => inferInstanceAs (Decidable (¬ w.Running → shownPicture w = fun _ _ => 0))
  | .load none | .startCpu | .keyPress _ | .keyRelease _ _ => isTrue trivial

theorem stopped_tick_iff (running : w.Running) (ticked : Ticked inputs w instruction next) :
    StoppedShown next ↔ StopsShown w (.tick inputs) := by
  have only (other : Instruction) (decoded : decode w.opcodeAt = some other) : other = instruction :=
    Option.some.inj (decoded.symm.trans ticked.decoded)
  by_cases waits : EntersWait w instruction
  · obtain ⟨⟨x, rfl⟩, idle⟩ := waits
    refine iff_of_true (fun _ => picture_shown_wait idle ticked) fun other decoded _ => .inl ?_
    rw [only other decoded]
    exact ⟨⟨x, rfl⟩, idle⟩
  · have timer := ticked.timer
    have active : instruction.timerAfter w.fetched = some { isActive := true } := by
      cases instruction with
      | waitKey x =>
        have pending : w.fetched.lastOpcode ≠ 0 := fun idle => waits ⟨⟨x, rfl⟩, idle⟩
        rw [Instruction.timerAfter, if_neg pending]
      | _ => exact running
    rw [active] at timer
    by_cases atEnd : next.programCounter.toNat = ramSize
    · rw [if_pos atEnd] at timer
      have stopped : ¬ next.Running := by simp [Chip8Pc.Running, timer]
      rw [StoppedShown, imp_iff_right stopped, picture_shown_tick_iff waits ticked]
      constructor
      · intro shown other decoded _
        rw [only other decoded]
        exact .inr shown
      · intro shows
        rw [ticked.programCounter] at atEnd
        exact (shows instruction ticked.decoded atEnd).resolve_left waits
    · rw [if_neg atEnd] at timer
      refine iff_of_true (fun stopped => absurd timer stopped) fun other decoded ends => ?_
      rw [only other decoded, ← ticked.programCounter] at ends
      exact absurd ends atEnd

theorem stopped_step_iff (holds : StoppedShown w) (live : Live w event)
    (stepped : step keys w event = some next) : StoppedShown next ↔ StopsShown w event := by
  cases step_iff.mp stepped with
  | tick ticked => exact stopped_tick_iff live ticked
  | start => exact iff_of_true (fun stopped => absurd rfl stopped) trivial
  | stop =>
    constructor
    · intro shown _
      exact shown (not_running_stopped w)
    · intro shown _
      by_cases running : w.Running
      · exact shown running
      · exact holds running
  | releaseIdle found stopped idle => exact iff_of_true (fun _ => picture_shown_begin _ _ _) trivial
  | releaseWaiting found stopped pending => exact iff_of_true (fun inactive => absurd rfl inactive) trivial
  | loaded fits => exact Iff.rfl
  | _ => exact iff_of_true holds trivial

/-- Whenever the timer is inactive after an event of the list, the monitor
shows the frame buffer. -/
def FinalPictures (keys : QtKeys) (now : Time) (events : List Event) : Prop :=
  ∀ before after m, events = before ++ after → Run (step keys) Live (.construct now) before m →
    ¬ m.Running → PictureShown m

/-- A stopped machine shows its final picture exactly if every event that stops
it, and every load while it is stopped, finds the picture shown or shows it. -/
theorem final_pictures_iff {keys : QtKeys} {now : Time} {events : List Event} {w : World}
    (run : Run (step keys) Live (.construct now) events w) :
    FinalPictures keys now events ↔
      Run (step keys) (fun w event => Live w event ∧ StopsShown w event) (.construct now) events w := by
  have start : StoppedShown (.construct now) := fun _ => rfl
  exact (run_meets_iff StoppedShown StopsShown
    (fun _ _ _ holds live stepped => stopped_step_iff holds live stepped) start run).symm

/-- The readings of the steady clock an event takes, in order. -/
def steadyReadings : Event → List Time
  | .tick inputs => [inputs.wait.first, inputs.wait.now, inputs.refresh.first, inputs.refresh.now]
  | .keyRelease _ readings => [readings.first, readings.now]
  | _ => []

/-- A draw, a wait, and a click on Stop. -/
def drawAndWait : List Event :=
  [.load (some [0xD0, 0x01, 0xF0, 0x0A]), .startCpu, .tick (.reading 0), .tick (.reading 0), .stopCpu]

/-- A wait entered right after a draw shows it, and Stop finds it shown. -/
theorem final_pictures_iff_wait : FinalPictures .latin 0 drawAndWait ∧
    ∃ w, Run (step .latin) Live (.construct 0) drawAndWait w ∧ ¬ w.Running ∧ shownPicture w 0 0 = 0xF0 := by
  obtain ⟨w, shows, ends⟩ := run_of_test (step .latin) (fun w event => Live w event ∧ StopsShown w event)
    (.construct 0) drawAndWait (fun w => ¬ w.Running ∧ shownPicture w 0 0 = 0xF0) (by decide)
  have run : Run (step .latin) Live (.construct 0) drawAndWait w := run_weaken (fun _ _ both => both.1) shows
  exact ⟨(final_pictures_iff run).mpr shows, w, run, of_decide_eq_true ends⟩

/-- Stop clicked within a tenth of a second of the first draw hides it. -/
theorem stop_hides_last_draw :
    ¬ ∀ (keys : QtKeys) (now : Time) (events : List Event) (w : World),
      Run (step keys) Live (.construct now) events w →
      (events.flatMap steadyReadings).Pairwise (· ≤ ·) → FinalPictures keys now events := by
  intro always
  obtain ⟨w, run, ends⟩ := run_of_test (step .latin) Live (.construct 0)
    [.load (some [0xD0, 0x01]), .startCpu, .tick (.reading 0), .stopCpu]
    (fun w => ¬ w.Running ∧ shownPicture w 0 0 = 0 ∧ w.frameBuffer 0 0 = 0xF0) (by decide)
  obtain ⟨stopped, dark, drawn⟩ := of_decide_eq_true ends
  have shown := always .latin 0 _ w run (by decide) _ [] w (List.append_nil _).symm run stopped
  have byte : shownPicture w 0 0 = w.frameBuffer 0 0 := congrFun (congrFun shown 0) 0
  rw [dark, drawn] at byte
  exact absurd byte (by decide)

end Chip8Emulator.Displays
