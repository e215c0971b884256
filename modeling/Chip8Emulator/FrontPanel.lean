import Chip8Emulator.Application
import Chip8Emulator.Displays
import Chip8Emulator.SpriteDrawing

/-! The application around the machine shows what the machine's signals say and
passes on what is meant for it, and does nothing else: a run of the one is a
run of the other, no display is ever sent a value it cannot take, and the
labels and the screen can be read back as the machine's registers and picture. -/
namespace Chip8Emulator.FrontPanel
open Foundations.Numerals Foundations.Runs Displays SpriteDrawing

/-! ## What the signals say -/

def opcodeReport : Signal → Option Int
  | .currentOpcodeChanged value => some value
  | _ => none

def counterReport : Signal → Option Int
  | .programCounterChanged value => some value
  | _ => none

/-- A register signal names a register and a byte. -/
def Sound : Signal → Prop
  | .vRegisterChanged i value => ∃ (x : Fin 16) (byte : Byte), i = x.val ∧ value = byte.toNat
  | _ => True

/-- A label with the last value sent to it. -/
def label (name : String) (sent : Option Int) : NumberDisplay where
  nameTag := name
  valueDisplay := (sent.map NumberDisplay.format).getD "0"

section Bitmaps
variable (qt : QtBitmaps)

/-- What Qt makes of a frame buffer. -/
def screen (buffer : FrameBuffer) : Bitmap := qt.scaled (qt.fromData 64 32 (frameBytes buffer)) 640 320

/-- The application whose machine is `pc` and whose displays were sent `sent`,
the latest first. -/
def showing (pc : World) (sent : List Signal) : Application where
  pc := { pc with emitted := [] }
  monitor := { Monitor.construct 64 32 10 with scene := (sent.findSome? pictureReport).toList.map (screen qt) }
  currentOpcodeDisplay := label "Opcode" (sent.findSome? opcodeReport)
  programCounterDisplay := label "Program Counter" (sent.findSome? counterReport)
  indexRegisterDisplay := label "Index Register" (sent.findSome? indexReport)
  vDisplays := List.ofFn fun i : Fin 16 => label (registerName i.val) (sent.findSome? (registerReport i))

/-- The application around a machine. -/
def present (w : World) : Application := showing qt w w.emitted

end Bitmaps

variable {qt : QtBitmaps}

/-! ## Delivery -/

theorem format_length (value : Int) : (NumberDisplay.format value).length ≤ 10 := by
  have digits : (hexNumeral (BitVec.ofInt 32 value).toNat).length ≤ 8 :=
    Nat.le_trans (Nat.le_of_eq String.length_ofList) (numeral_length 16 hexDigit 8 _)
  rw [NumberDisplay.format, String.length_append]
  exact Nat.add_le_add_left digits 2

/-- No value overruns the buffer its text is printed into. -/
theorem label_updated (name : String) (sent : Option Int) (value : Int) :
    (label name sent).updateValue value = some (label name (some value)) := by
  have short := format_length value
  rw [NumberDisplay.updateValue, if_pos (by omega)]
  rfl

theorem monitor_updated (scene : List Bitmap) (buffer : FrameBuffer) :
    Monitor.update qt { Monitor.construct 64 32 10 with scene := scene } buffer =
      { Monitor.construct 64 32 10 with scene := [screen qt buffer] } := by
  simp only [Monitor.update, Monitor.construct, screen, Nat.reduceMul]

theorem set_of_fn {α : Type} (f : Fin n → α) (k : Fin n) (value : α) :
    (List.ofFn f).set k.val value = List.ofFn (Function.update f k value) := by
  refine List.ext_getElem (by simp) fun i left right => ?_
  simp [List.getElem_set, Function.update_apply, Fin.ext_iff, eq_comm]

/-- Every signal finds a display that takes it. -/
theorem deliver_showing (pc : World) (sent : List Signal) (sound : Sound signal) :
    deliver qt (showing qt pc sent) signal = some (showing qt pc (signal :: sent)) := by
  cases signal with
  | frameBufferChanged buffer => simp only [deliver, showing, monitor_updated]; rfl
  | indexRegisterChanged value => simp only [deliver, showing, label_updated]; rfl
  | programCounterChanged value => simp only [deliver, showing, label_updated]; rfl
  | currentOpcodeChanged value => simp only [deliver, showing, label_updated]; rfl
  | vRegisterChanged i value =>
    obtain ⟨x, byte, rfl, rfl⟩ := sound
    have position : (BitVec.ofInt 64 x.val).toNat = x.val := by
      rw [BitVec.ofInt_natCast, BitVec.toNat_ofNat]
      omega
    have cut : ((BitVec.ofInt 8 byte.toNat).toNat : Int) = byte.toNat := by
      rw [BitVec.ofInt_natCast, BitVec.ofNat_toNat, BitVec.setWidth_eq]
    have found : (showing qt pc sent).vDisplays[x.val]? =
        some (label (registerName x.val) (sent.findSome? (registerReport x))) := by
      rw [showing, List.getElem?_ofFn, dif_pos x.isLt]
    simp only [deliver, position, cut, found, Option.bind_eq_bind, Option.bind_some, label_updated]
    simp only [showing, set_of_fn]
    congr 3
    funext i
    by_cases same : i = x
    · subst same
      simp [registerReport]
    · have other : (x.val : Int) ≠ i.val := by omega
      simp [same, registerReport, other]

theorem deliver_all_showing (pc : World) (past : List Signal) (sound : ∀ signal ∈ sent, Sound signal) :
    deliverAll qt (showing qt pc past) sent = some (showing qt pc (sent ++ past)) := by
  induction sent with
  | nil => rfl
  | cons signal earlier ih =>
    obtain ⟨head, tail⟩ := List.forall_mem_cons.mp sound
    rw [deliverAll, ih tail]
    exact deliver_showing pc (earlier ++ past) head

/-! ## Reading the screen -/

/-- A map shows a picture, ten by ten dots a pixel. -/
structure Enlarges (map : Bitmap) (picture : Pixel → Bool) : Prop where
  width : map.width = 640
  height : map.height = 320
  dots : ∀ (pixel : Pixel) (i j : Fin 10),
    map.dot (pixel.column.val * 10 + i.val) (pixel.row.val * 10 + j.val) = picture pixel

theorem frame_bytes_length (buffer : FrameBuffer) : (frameBytes buffer).length = 256 := by
  rw [frameBytes, List.length_ofFn]

theorem frame_bytes_at (buffer : FrameBuffer) (row : Fin 32) (column : Fin 8) :
    (frameBytes buffer).getD (row.val * 8 + column.val) 0 = buffer row column := by
  have bound : row.val * 8 + column.val < 256 := by omega
  have position : (row.val * 8 + column.val) / 8 = row.val ∧ (row.val * 8 + column.val) % 8 = column.val := by
    omega
  rw [List.getD_eq_getElem _ _ (by rwa [frame_bytes_length])]
  simp only [frameBytes, List.getElem_ofFn]
  simp only [position.1, position.2, Fin.eta]

/-- The bits of the bytes are the pixels. -/
theorem frame_bits (buffer : FrameBuffer) (pixel : Pixel) :
    ((frameBytes buffer).getD (pixel.row.val * 8 + pixel.column.val / 8) 0).getMsbD (pixel.column.val % 8) =
      lit buffer pixel := by
  have byte := frame_bytes_at buffer pixel.row ⟨pixel.column.val / 8, by omega⟩
  have bit : pixel.column.val % 8 < 8 := Nat.mod_lt _ (by decide)
  rw [byte]
  simp [lit, BitVec.getMsbD, bit]

/-- The bytes of the frame buffer make a whole map, and the map a whole screen. -/
theorem screen_enlarges (reads : qt.ReadsMono) (scales : qt.ScalesWhole) (buffer : FrameBuffer) :
    Enlarges (screen qt buffer) (lit buffer) := by
  have whole : 32 * ((64 + 7) / 8) ≤ (frameBytes buffer).length := by
    rw [frame_bytes_length]
  obtain ⟨width, height, bits⟩ :=
    reads 64 32 (frameBytes buffer) (by decide) (by decide) (by decide) (by decide) whole
  have scaled := scales (qt.fromData 64 32 (frameBytes buffer)) 10
  rw [width, height] at scaled
  obtain ⟨wide, high, dots⟩ := scaled (by decide) (by decide) (by decide) (by decide) (by decide)
  refine ⟨wide, high, fun pixel i j => ?_⟩
  have column : (pixel.column.val * 10 + i.val) / 10 = pixel.column.val := by omega
  have row : (pixel.row.val * 10 + j.val) / 10 = pixel.row.val := by omega
  have dot := dots (pixel.column.val * 10 + i.val) (pixel.row.val * 10 + j.val) (by omega) (by omega)
  rw [column, row, bits _ _ pixel.column.isLt pixel.row.isLt] at dot
  exact dot.trans (frame_bits buffer pixel)

/-- A pair of functions that meets both assumptions, for runs on given inputs. -/
def plainBitmaps : QtBitmaps where
  fromData width height data := {
    width, height
    dot := fun x y => (data.getD (y * ((width + 7) / 8) + x / 8) 0).getMsbD (x % 8) }
  scaled map width height := {
    width, height
    dot := fun x y => map.dot (x * map.width / width) (y * map.height / height) }

theorem plain_reads : plainBitmaps.ReadsMono :=
  fun _ _ _ _ _ _ _ _ => ⟨rfl, rfl, fun _ _ _ _ => rfl⟩

theorem plain_scales : plainBitmaps.ScalesWhole := by
  intro map factor wide high positive _ _
  refine ⟨rfl, rfl, fun x y _ _ => ?_⟩
  have column : x * map.width / (map.width * factor) = x / factor := by
    rw [Nat.mul_comm x, Nat.mul_div_mul_left _ _ wide]
  have row : y * map.height / (map.height * factor) = y / factor := by
    rw [Nat.mul_comm y, Nat.mul_div_mul_left _ _ high]
  simp only [plainBitmaps, column, row]

/-! ## One event -/

/-- The machine with signals behind those it has sent. -/
def withPast (past : List Signal) (w : World) : World := { w with emitted := w.emitted ++ past }

theorem refresh_with_past (past : List Signal) (w : World) (period : CheckPeriod) (readings : SteadyReadings) :
    (withPast past w).refresh period readings = withPast past (w.refresh period readings) := by
  have same : (withPast past w).Shows period readings ↔ w.Shows period readings := Iff.rfl
  simp only [World.refresh, same]
  by_cases shows : w.Shows period readings <;> simp [withPast, shows]

theorem begin_with_past (past : List Signal) (w : World) (opcode : DByte) (readings : SteadyReadings) :
    (withPast past w).beginWait opcode readings = withPast past (w.beginWait opcode readings) :=
  congrArg World.stopTimer (refresh_with_past past { w with lastOpcode := opcode } .no readings)

/-- What an instruction does depends on no signal. -/
theorem execute_with_past (past : List Signal) (w : World) (instruction : Instruction) :
    execute inputs (withPast past w) instruction = (execute inputs w instruction).map (withPast past) := by
  cases instruction with
  | waitKey x =>
    have idle : (withPast past w).lastOpcode = w.lastOpcode := rfl
    simp only [execute, Except.map, idle, begin_with_past]
    split <;> rfl
  | restore x =>
    have index : (withPast past w).indexRegister = w.indexRegister := rfl
    simp only [execute, index]
    split
    · simp only [Except.map, World.restoreUpTo, withPast, List.append_assoc]
      rfl
    · rfl
  | draw | bcd | save | skipIfKey | skipUnlessKey =>
    have index : (withPast past w).indexRegister = w.indexRegister := rfl
    have registers : (withPast past w).vRegisters = w.vRegisters := rfl
    simp only [execute, index, registers]
    split <;> rfl
  | _ => rfl

theorem release_with_past (past : List Signal) (w : World) (readings : SteadyReadings) :
    (withPast past w).releaseKey readings = (w.releaseKey readings).map (withPast past) := by
  have timer : (withPast past w).mainProcessTimer = w.mainProcessTimer := rfl
  have latch : (withPast past w).lastOpcode = w.lastOpcode := rfl
  simp only [World.releaseKey, timer, latch, begin_with_past]
  cases w.mainProcessTimer with
  | none => rfl
  | some observed =>
    simp only
    split
    · rfl
    · split <;> rfl

theorem step_tick_eq (w : World) : step keys w (.tick inputs) = (tick inputs w).toOption := by
  rw [← process_refines, step, handle]
  cases (process inputs).run w <;> rfl

theorem step_with_past (keys : QtKeys) (past : List Signal) (w : World) (event : Event) :
    step keys (withPast past w) event = (step keys w event).map (withPast past) := by
  cases event with
  | tick inputs =>
    have fetched : (withPast past w).fetched = withPast past w.fetched := rfl
    have counter : (withPast past w).programCounter = w.programCounter := rfl
    have opcode : (withPast past w).opcodeAt = w.opcodeAt := rfl
    rw [step_tick_eq, step_tick_eq]
    simp only [tick, counter, opcode]
    split
    · cases decode w.opcodeAt with
      | none => rfl
      | some instruction =>
        simp only [fetched, execute_with_past]
        cases execute inputs w.fetched instruction with
        | error fault => rfl
        | ok executed =>
          have ends := refresh_with_past past
            { executed with delayTimer := executed.delayAfter inputs.now } .yes inputs.refresh
          simp only [Except.map, Except.toOption, Option.map_some, Option.some.injEq, World.finish]
          exact congrArg (fun v : World => { v with
            mainProcessTimer := if executed.programCounter.toNat = ramSize
              then executed.stopTimer.mainProcessTimer else executed.mainProcessTimer }) ends
    · rfl
  | startCpu =>
    rw [step_startCpu, step_startCpu]
    rfl
  | stopCpu =>
    rw [step_stopCpu, step_stopCpu]
    rfl
  | keyPress key =>
    rw [step_keyPress, step_keyPress]
    cases keys.find key <;> rfl
  | keyRelease key readings =>
    rw [step_keyRelease, step_keyRelease]
    cases keys.find key with
    | none => rfl
    | some k =>
      have recorded : (withPast past w).recordKey k 0 = withPast past (w.recordKey k 0) := rfl
      simp only [recorded, release_with_past]
  | load file =>
    cases file with
    | none => rw [step_load_cancelled, step_load_cancelled]; rfl
    | some file =>
      rw [step_load, step_load]
      split <;> rfl

/-! ## Runs -/

def AllSound (w : World) : Prop := ∀ signal ∈ w.emitted, Sound signal

theorem sound_write (w : World) (x : Fin 16) (value : Byte) (sound : AllSound w) : AllSound (w.writeV x value) :=
  List.forall_mem_cons.mpr ⟨⟨x, value, rfl, rfl⟩, sound⟩

theorem sound_refresh (period : CheckPeriod) (readings : SteadyReadings) (sound : AllSound w) :
    AllSound (w.refresh period readings) := by
  intro signal sent
  simp only [World.refresh] at sent
  split at sent
  · rcases List.mem_cons.mp sent with rfl | earlier
    · trivial
    · exact sound signal earlier
  · exact sound signal sent

theorem sound_step (sound : AllSound w) (stepped : step keys w event = some next) : AllSound next := by
  cases step_iff.mp stepped with
  | @tick inputs _ _ ticked =>
    obtain ⟨executed, effect, rfl⟩ := ticked.executes
    have fetched : AllSound w.fetched :=
      List.forall_mem_cons.mpr ⟨trivial, List.forall_mem_cons.mpr ⟨trivial, sound⟩⟩
    have reached : AllSound executed := by
      refine execute_keeps AllSound sound_write (fun _ _ _ _ _ _ kept => kept)
        (fun _ => List.forall_mem_cons.mpr ⟨trivial, fetched⟩) (fun _ _ => fetched) ?_ fetched effect
      intro x _
      split
      · exact sound_refresh _ _ fetched
      · exact sound_write _ _ _ fetched
    exact sound_refresh _ _ reached
  | releaseIdle found stopped idle => exact sound_refresh _ _ sound
  | releaseWaiting found stopped pending => exact sound_write _ _ _ sound
  | _ => exact sound

/-- An event that reaches the machine does to the application what it does to
the machine. -/
theorem application_step (sound : AllSound w) (sent : forward raw = some event) :
    (present qt w).step qt keys raw = (step keys w event).map (present qt) := by
  have past := step_with_past keys w.emitted { w with emitted := [] } event
  change step keys w event = _ at past
  have sends : (present qt w).step qt keys raw = (step keys (present qt w).pc event).bind fun pc =>
      deliverAll qt { present qt w with pc := { pc with emitted := [] } } pc.emitted := by
    simp only [Application.step, sent]
  rw [sends]
  cases stepped : step keys { w with emitted := [] } event with
  | none =>
    rw [stepped] at past
    rw [past]
    exact congrArg (Option.bind · _) stepped
  | some next =>
    rw [stepped] at past
    have fresh : ∀ signal ∈ next.emitted, Sound signal := fun signal now =>
      sound_step sound past signal (List.mem_append_left w.emitted now)
    rw [past]
    exact (congrArg (Option.bind · _) stepped).trans (deliver_all_showing next w.emitted fresh)

theorem live_present (sent : forward raw = some event) : (present qt w).Live raw ↔ Live w event := by
  cases raw with
  | keyPress key | keyRelease key =>
    obtain ⟨code, _, rfl⟩ := Option.map_eq_some_iff.mp sent
    exact Iff.rfl
  | _ =>
    cases sent
    exact Iff.rfl

theorem hidden_present (keys : QtKeys) (hidden : forward raw = none) :
    (present qt w).Live raw ∧ (present qt w).step qt keys raw = some (present qt w) := by
  refine ⟨?_, by rw [Application.step, hidden]⟩
  cases raw with
  | timeout inputs => contradiction
  | _ => trivial

/-- The application does what its machine does. -/
theorem application_follows (sound : AllSound w)
    (run : Run (Application.step qt keys) Application.Live (present qt w) raw app) :
    ∃ v, Run (step keys) Live w (raw.filterMap forward) v ∧ app = present qt v ∧ AllSound v := by
  refine run_projects (fun app v => app = present qt v ∧ AllSound v) forward ?_ ?_ ⟨rfl, sound⟩ run
  · rintro _ raw m v ⟨rfl, sound⟩ _ hidden stepped
    rw [(hidden_present keys hidden).2] at stepped
    cases stepped
    exact ⟨rfl, sound⟩
  · rintro _ raw m v event ⟨rfl, sound⟩ live sent stepped
    rw [application_step sound sent] at stepped
    obtain ⟨next, completes, rfl⟩ := Option.map_eq_some_iff.mp stepped
    exact ⟨(live_present sent).mp live, next, completes, rfl, sound_step sound completes⟩

/-- And the other way round: whatever its machine can do, it does. -/
theorem application_led (qt : QtBitmaps) (sound : AllSound w)
    (run : Run (step keys) Live w (raw.filterMap forward) v) :
    ∃ app, Run (Application.step qt keys) Application.Live (present qt w) raw app ∧
      app = present qt v ∧ AllSound v := by
  refine run_lifts (fun app v => app = present qt v ∧ AllSound v) forward ?_ ?_ ⟨rfl, sound⟩ run
  · rintro _ raw v ⟨rfl, sound⟩ hidden
    obtain ⟨live, stays⟩ := hidden_present keys hidden
    exact ⟨live, _, stays, rfl, sound⟩
  · rintro _ raw v event next ⟨rfl, sound⟩ sent live completes
    refine ⟨(live_present sent).mpr live, present qt next, ?_, rfl, sound_step sound completes⟩
    rw [application_step sound sent, completes, Option.map_some]

theorem sound_construct (now : Time) : AllSound (.construct now) := nofun

/-- The runs of the application are those of the machine, the key events the
keyboard repeats left out, and its displays show what the machine has sent. No
event fails that the machine completes. -/
theorem application_runs_machine {keys : QtKeys} {now : Time} {raw : List GuiEvent} {app : Application} :
    Run (Application.step qt keys) Application.Live (.main now) raw app ↔
      ∃ w, Run (step keys) Live (.construct now) (raw.filterMap forward) w ∧ app = present qt w := by
  constructor
  · intro run
    obtain ⟨w, follows, shown, _⟩ := application_follows (sound_construct now) run
    exact ⟨w, follows, shown⟩
  · rintro ⟨w, run, rfl⟩
    obtain ⟨app, led, rfl, _⟩ := application_led qt (sound_construct now) run
    exact led

/-! ## Reading the labels -/

def digitValue (digit : Char) : Nat :=
  ['0', '1', '2', '3', '4', '5', '6', '7', '8', '9', 'A', 'B', 'C', 'D', 'E', 'F'].idxOf digit

/-- The number a label shows: hexadecimal after `0x`, else decimal. -/
def shownNumber (display : NumberDisplay) : Nat :=
  match display.valueDisplay.toList with
  | '0' :: 'x' :: digits => number 16 digitValue digits
  | digits => number 10 digitValue digits

theorem shown_number (name : String) (sent : Option Int) (value : Nat) (bound : value < 65536)
    (said : sent.getD 0 = value) : shownNumber (label name sent) = value := by
  cases sent with
  | none =>
    have zero : value = 0 := by simpa using said.symm
    have text : (label name none).valueDisplay.toList = ['0'] := String.toList_ofList
    rw [zero, shownNumber, text]
    rfl
  | some shown =>
    have same : shown = (value : Int) := said
    subst same
    have unsigned : (BitVec.ofInt 32 value).toNat = value := by
      rw [BitVec.ofInt_natCast, BitVec.toNat_ofNat]
      omega
    have text : (NumberDisplay.format value).toList = '0' :: 'x' :: numeral 16 hexDigit 8 value := by
      have digits : (hexNumeral value).toList = numeral 16 hexDigit 8 value := String.toList_ofList
      rw [NumberDisplay.format, String.toList_append, unsigned, digits]
      exact congrArg (· ++ numeral 16 hexDigit 8 value) String.toList_ofList
    change (match (NumberDisplay.format value).toList with
      | '0' :: 'x' :: digits => number 16 digitValue digits
      | digits => number 10 digitValue digits) = value
    rw [text]
    exact number_numeral (by decide) (by omega)

theorem label_reads (shown : RegistersShown w) (i : Fin 16) :
    ∃ display, (present qt w).vDisplays[i.val]? = some display ∧ display.getName = registerName i.val ∧
      shownNumber display = (w.vRegisters i).toNat := by
  have byte := (w.vRegisters i).isLt
  refine ⟨label (registerName i.val) (w.emitted.findSome? (registerReport i)), ?_, rfl, ?_⟩
  · simp only [present, showing, List.getElem?_ofFn, i.isLt, ↓reduceDIte]
  · exact shown_number _ _ _ (by omega) (shown i)

theorem registers_shown_run (run : Run (step keys) Live (.construct now) events w) : RegistersShown w :=
  run_invariant RegistersShown (fun _ _ _ shown _ stepped => registers_shown_step shown stepped) (fun _ => rfl) run

/-- In every run the sixteen labels are named after the registers and show
their values. -/
theorem labels_read_registers {keys : QtKeys} {now : Time} {raw : List GuiEvent} {app : Application}
    (run : Run (Application.step qt keys) Application.Live (.main now) raw app) (i : Fin 16) :
    ∃ display, app.vDisplays[i.val]? = some display ∧ display.getName = registerName i.val ∧
      shownNumber display = (app.pc.vRegisters i).toNat := by
  obtain ⟨w, follows, rfl, _⟩ := application_follows (sound_construct now) run
  exact label_reads (registers_shown_run follows) i

/-- The events of a session that loads `602A`, starts it and runs one tick. -/
def oneInstruction : List GuiEvent :=
  [.loadReleased (some [0x60, 0x2A]), .startReleased, .timeout (.reading 0)]

theorem one_instruction_runs (qt : QtBitmaps) : ∃ app,
    Run (Application.step qt .latin) Application.Live (.main 0) oneInstruction app ∧ app.pc.vRegisters 0 = 0x2A := by
  obtain ⟨w, run, ends⟩ := run_of_test (step .latin) Live (.construct 0) (oneInstruction.filterMap forward)
    (fun w => w.vRegisters 0 = 0x2A) (by decide)
  obtain ⟨_, led, rfl, _⟩ := application_led qt (sound_construct 0) run
  exact ⟨_, led, of_decide_eq_true ends⟩

/-- After `602A` the first label shows 2A. -/
theorem labels_read_byte : ∃ (app : Application) (display : NumberDisplay), app.pc.vRegisters 0 = 0x2A ∧
    app.vDisplays[0]? = some display ∧ display.getName = registerName 0 ∧
      shownNumber display = (app.pc.vRegisters 0).toNat := by
  obtain ⟨app, run, byte⟩ := one_instruction_runs plainBitmaps
  obtain ⟨display, found, named, shown⟩ := labels_read_registers run 0
  exact ⟨app, display, byte, found, named, shown⟩

/-! ## The last instruction -/

/-- What the two labels of the fetched instruction were sent last. -/
structure Announced (opcode counter : Option Int) (w : World) : Prop where
  opcode : w.emitted.findSome? opcodeReport = opcode
  counter : w.emitted.findSome? counterReport = counter

theorem announced_refresh (period : CheckPeriod) (readings : SteadyReadings)
    (announced : Announced opcode counter w) : Announced opcode counter (w.refresh period readings) := by
  obtain ⟨said, placed⟩ := announced
  constructor <;>
  · simp only [World.refresh]
    split <;> assumption

theorem announced_execute (announced : Announced opcode counter w)
    (effect : execute inputs w instruction = .ok executed) : Announced opcode counter executed := by
  refine execute_keeps (Announced opcode counter) (fun _ _ _ kept => ⟨kept.opcode, kept.counter⟩)
    (fun _ _ _ _ _ _ kept => ⟨kept.opcode, kept.counter⟩) (fun _ => ⟨announced.opcode, announced.counter⟩)
    (fun _ _ => ⟨announced.opcode, announced.counter⟩) ?_ announced effect
  intro x _
  split
  · obtain ⟨said, placed⟩ := announced_refresh (w := { w with lastOpcode := waitOpcode x }) .no inputs.wait
      ⟨announced.opcode, announced.counter⟩
    exact ⟨said, placed⟩
  · exact ⟨announced.opcode, announced.counter⟩

theorem announced_tick (ticked : Ticked inputs w instruction next) :
    Announced (some w.opcodeAt.toNat) (some w.programCounter.toNat) next := by
  obtain ⟨executed, effect, rfl⟩ := ticked.executes
  have fetched : Announced (some w.opcodeAt.toNat) (some w.programCounter.toNat) w.fetched := ⟨rfl, rfl⟩
  have reached := announced_execute fetched effect
  obtain ⟨said, placed⟩ := announced_refresh (w := { executed with delayTimer := executed.delayAfter inputs.now })
    .yes inputs.refresh ⟨reached.opcode, reached.counter⟩
  exact ⟨said, placed⟩

theorem announced_other (announced : Announced opcode counter w) (other : ¬ event.isTick)
    (stepped : step keys w event = some next) : Announced opcode counter next := by
  cases step_iff.mp stepped with
  | tick ticked => exact absurd rfl other
  | @releaseIdle _ k readings found stopped idle =>
    obtain ⟨said, placed⟩ := announced_refresh (w := { w.recordKey k 0 with lastOpcode := 0 }) .no readings
      ⟨announced.opcode, announced.counter⟩
    exact ⟨said, placed⟩
  | _ => exact ⟨announced.opcode, announced.counter⟩

theorem announced_run {raw : List GuiEvent} (quiet : ∀ event ∈ raw, ¬ event.isTimeout)
    (announced : Announced opcode counter w)
    (run : Run (step keys) Live w (raw.filterMap forward) v) : Announced opcode counter v := by
  have others : ∀ event ∈ raw.filterMap forward, ¬ event.isTick := by
    intro event sent
    obtain ⟨gui, member, becomes⟩ := List.mem_filterMap.mp sent
    have notTimeout := quiet gui member
    cases gui with
    | timeout inputs => exact absurd rfl notTimeout
    | keyPress key | keyRelease key =>
      obtain ⟨code, _, rfl⟩ := Option.map_eq_some_iff.mp becomes
      nofun
    | _ =>
      cases becomes
      nofun
  exact run_invariant (Announced opcode counter)
    (fun _ _ _ announced allowed stepped => announced_other announced allowed.2 stepped) announced
    (run_restrict others run)

/-- What the labels of the opcode and the program counter show. -/
def ShowsInstruction (opcode counter : Nat) (app : Application) : Prop :=
  shownNumber app.currentOpcodeDisplay = opcode ∧ shownNumber app.programCounterDisplay = counter

theorem shows_announced (opcode counter : DByte)
    (announced : Announced (some opcode.toNat) (some counter.toNat) w) :
    ShowsInstruction opcode.toNat counter.toNat (present qt w) := by
  constructor
  · exact shown_number _ _ _ opcode.isLt (congrArg (Option.getD · 0) announced.opcode)
  · exact shown_number _ _ _ counter.isLt (congrArg (Option.getD · 0) announced.counter)

/-- The two labels show zero before the first timeout, and from then on the
instruction the last timeout executed and where it stood. -/
theorem labels_name_last_instruction {keys : QtKeys} {now : Time} {raw : List GuiEvent} {app : Application}
    (run : Run (Application.step qt keys) Application.Live (.main now) raw app) :
    ((∀ event ∈ raw, ¬ event.isTimeout) → ShowsInstruction 0 0 app) ∧
    ∀ before inputs after, raw = before ++ .timeout inputs :: after → (∀ event ∈ after, ¬ event.isTimeout) →
      ∃ m, Run (Application.step qt keys) Application.Live (.main now) before m ∧
        ShowsInstruction m.pc.opcodeAt.toNat m.pc.programCounter.toNat app := by
  constructor
  · intro quiet
    obtain ⟨w, follows, rfl, _⟩ := application_follows (sound_construct now) run
    have start : Announced none none (.construct now) := ⟨rfl, rfl⟩
    obtain ⟨said, placed⟩ := announced_run quiet start follows
    constructor
    · exact shown_number _ _ 0 (by decide) (congrArg (Option.getD · 0) said)
    · exact shown_number _ _ 0 (by decide) (congrArg (Option.getD · 0) placed)
  · rintro before inputs after rfl quiet
    obtain ⟨m, reached, later⟩ := run_append.mp run
    obtain ⟨live, n, stepped, rest⟩ := run_cons.mp later
    obtain ⟨w, _, rfl, sound⟩ := application_follows (sound_construct now) reached
    rw [application_step sound rfl] at stepped
    obtain ⟨next, completes, rfl⟩ := Option.map_eq_some_iff.mp stepped
    obtain ⟨instruction, ticked⟩ := step_tick_iff.mp completes
    obtain ⟨v, follows, rfl, _⟩ := application_follows (sound_step sound completes) rest
    have shows : ShowsInstruction w.opcodeAt.toNat w.programCounter.toNat (present qt v) :=
      shows_announced _ _ (announced_run quiet (announced_tick ticked) follows)
    exact ⟨_, reached, shows⟩

/-- The tick that executes `602A` has its place named. -/
theorem labels_name_one_instruction : ∃ app m : Application,
    Run (Application.step plainBitmaps .latin) Application.Live (.main 0)
      [.loadReleased (some [0x60, 0x2A]), .startReleased] m ∧
      ShowsInstruction m.pc.opcodeAt.toNat m.pc.programCounter.toNat app := by
  obtain ⟨app, run, _⟩ := one_instruction_runs plainBitmaps
  obtain ⟨m, reached, shows⟩ := (labels_name_last_instruction run).2
    [.loadReleased (some [0x60, 0x2A]), .startReleased] (.reading 0) [] rfl nofun
  exact ⟨app, m, reached, shows⟩

end Chip8Emulator.FrontPanel
