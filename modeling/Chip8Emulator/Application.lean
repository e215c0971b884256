import Chip8Emulator.Process
import Chip8Emulator.Foundations.Numerals

/-! The application `main` puts together around one machine: a panel of number
displays, a monitor that also takes the keyboard, three buttons, and the
connections between them. Slots are called while a signal is emitted; no slot
of a display reaches the machine, so the signals of an event are delivered in
their order once the event is over. -/
namespace Chip8Emulator
open Foundations.Numerals

/-! ## Number displays -/

/-- The digits of `%X`, and of `std::hex` with `std::uppercase`. -/
def hexDigit (digit : Nat) : Char :=
  ['0', '1', '2', '3', '4', '5', '6', '7', '8', '9', 'A', 'B', 'C', 'D', 'E', 'F'].getD digit '0'

/-- `%X` of a thirty-two bit number. -/
def hexNumeral (n : Nat) : String := String.ofList (numeral 16 hexDigit 8 n)

/-- The texts of the two labels. -/
structure NumberDisplay where
  nameTag : String
  valueDisplay : String

namespace NumberDisplay

def construct : NumberDisplay where
  nameTag := "Unknown"
  valueDisplay := "0"

def setName (display : NumberDisplay) (name : String) : NumberDisplay := { display with nameTag := name }

def getName (display : NumberDisplay) : String := display.nameTag

/-- `0x%X` of an `int`, which `%X` reads as unsigned. -/
def format (value : Int) : String := "0x" ++ hexNumeral (BitVec.ofInt 32 value).toNat

/-- `sprintf` into thirty characters, the last one the terminator; nothing
where it would write past them. -/
def updateValue (display : NumberDisplay) (value : Int) : Option NumberDisplay :=
  if (format value).length < 30 then some { display with valueDisplay := format value } else none

end NumberDisplay

/-! ## The monitor -/

/-- What is seen of a `QBitmap` or a `QPixmap`: which of its dots are set. -/
structure Bitmap where
  width : Nat
  height : Nat
  dot : Nat → Nat → Bool

/-- The functions of Qt the monitor calls: `QBitmap::fromData` with
`Format_Mono`, and `scaled` with `IgnoreAspectRatio` and `FastTransformation`. -/
structure QtBitmaps where
  fromData (width height : Nat) (data : List Byte) : Bitmap
  scaled (map : Bitmap) (width height : Nat) : Bitmap

namespace QtBitmaps

/-- The longest side of a map these functions are relied on for. -/
def sideLimit : Nat := 32767

/-- `Format_Mono`: a map of the given size whose dots are the bits of the data,
in rows of whole bytes with the most significant bit first. -/
def ReadsMono (qt : QtBitmaps) : Prop :=
  ∀ width height data, 0 < width → 0 < height → width ≤ sideLimit → height ≤ sideLimit →
    height * ((width + 7) / 8) ≤ data.length →
    (qt.fromData width height data).width = width ∧ (qt.fromData width height data).height = height ∧
    ∀ x y, x < width → y < height →
      (qt.fromData width height data).dot x y = (data.getD (y * ((width + 7) / 8) + x / 8) 0).getMsbD (x % 8)

/-- Nothing is smoothed: a map scaled to a multiple of its size has a square of
dots in the place of each. -/
def ScalesWhole (qt : QtBitmaps) : Prop :=
  ∀ map factor, 0 < map.width → 0 < map.height → 0 < factor →
    map.width * factor ≤ sideLimit → map.height * factor ≤ sideLimit →
    (qt.scaled map (map.width * factor) (map.height * factor)).width = map.width * factor ∧
    (qt.scaled map (map.width * factor) (map.height * factor)).height = map.height * factor ∧
    ∀ x y, x < map.width * factor → y < map.height * factor →
      (qt.scaled map (map.width * factor) (map.height * factor)).dot x y = map.dot (x / factor) (y / factor)

end QtBitmaps

/-- A `QKeyEvent`. -/
structure KeyEvent where
  key : Int
  isAutoRepeat : Bool

structure Monitor where
  graphicsWidth : Nat
  graphicsHeight : Nat
  graphicsScaleConstant : Nat
  /-- The items of the scene. -/
  scene : List Bitmap

/-- The bytes from `&frame_buffer[0][0]` on. -/
def frameBytes (frameBuffer : FrameBuffer) : List Byte :=
  List.ofFn fun i : Fin 256 => frameBuffer ⟨i.val / 8, by omega⟩ ⟨i.val % 8, by omega⟩

namespace Monitor

def construct (width height scale : Nat) : Monitor where
  graphicsWidth := width
  graphicsHeight := height
  graphicsScaleConstant := scale
  scene := []

/-- The scene is cleared before the new picture is added. -/
def update (qt : QtBitmaps) (monitor : Monitor) (frameBuffer : FrameBuffer) : Monitor :=
  let map := qt.fromData monitor.graphicsWidth monitor.graphicsHeight (frameBytes frameBuffer)
  { monitor with
    scene := [qt.scaled map (monitor.graphicsWidth * monitor.graphicsScaleConstant)
      (monitor.graphicsHeight * monitor.graphicsScaleConstant)] }

/-- The key `signalKeyPressEvent` carries, if it is emitted. -/
def keyPressEvent (event : KeyEvent) : Option Int := if event.isAutoRepeat then none else some event.key

/-- The key `signalKeyReleaseEvent` carries, if it is emitted. -/
def keyReleaseEvent (event : KeyEvent) : Option Int := if event.isAutoRepeat then none else some event.key

end Monitor

/-! ## The connections -/

def getGraphicsWidth : Nat := 64
def getGraphicsHeight : Nat := 32

/-- The objects of `main` with a state. Between events no signal of the machine
is pending. -/
structure Application where
  pc : World
  monitor : Monitor
  currentOpcodeDisplay : NumberDisplay
  programCounterDisplay : NumberDisplay
  indexRegisterDisplay : NumberDisplay
  vDisplays : List NumberDisplay

/-- The name of a register's display, with the blanks that widen it. -/
def registerName (i : Nat) : String := "V" ++ hexNumeral i ++ String.ofList (List.replicate 12 ' ')

/-- The objects as `main` sets them up. -/
def Application.main (now : Time) : Application where
  pc := .construct now
  monitor := .construct getGraphicsWidth getGraphicsHeight 10
  currentOpcodeDisplay := NumberDisplay.construct.setName "Opcode"
  programCounterDisplay := NumberDisplay.construct.setName "Program Counter"
  indexRegisterDisplay := NumberDisplay.construct.setName "Index Register"
  vDisplays := List.ofFn fun i : Fin 16 => NumberDisplay.construct.setName (registerName i.val)

/-- The slot a signal is connected to. The lambda takes the register's index
into `v_displays.at`, which throws outside, and cuts the value to a byte. -/
def deliver (qt : QtBitmaps) (app : Application) : Signal → Option Application
  | .frameBufferChanged buffer => some { app with monitor := app.monitor.update qt buffer }
  | .indexRegisterChanged value =>
    (app.indexRegisterDisplay.updateValue value).map fun display => { app with indexRegisterDisplay := display }
  | .programCounterChanged value =>
    (app.programCounterDisplay.updateValue value).map fun display => { app with programCounterDisplay := display }
  | .currentOpcodeChanged value =>
    (app.currentOpcodeDisplay.updateValue value).map fun display => { app with currentOpcodeDisplay := display }
  | .vRegisterChanged i value => do
    let position := (BitVec.ofInt 64 i).toNat
    let display ← app.vDisplays[position]?
    let updated ← display.updateValue (BitVec.ofInt 8 value).toNat
    return { app with vDisplays := app.vDisplays.set position updated }

/-- The signals of an event, the latest first. -/
def deliverAll (qt : QtBitmaps) (app : Application) : List Signal → Option Application
  | [] => some app
  | signal :: earlier => (deliverAll qt app earlier).bind (deliver qt · signal)

/-- What the event loop hands to the application. -/
inductive GuiEvent where
  | timeout (inputs : TickInputs)
  | loadReleased (file : Option (List Byte))
  | startReleased
  | stopReleased
  | keyPress (event : KeyEvent)
  | keyRelease (event : KeyEvent) (readings : SteadyReadings)

def GuiEvent.isTimeout : GuiEvent → Bool
  | .timeout _ => true
  | _ => false

/-- The event of the machine it becomes, if it reaches the machine. -/
def forward : GuiEvent → Option Event
  | .timeout inputs => some (.tick inputs)
  | .loadReleased file => some (.load file)
  | .startReleased => some .startCpu
  | .stopReleased => some .stopCpu
  | .keyPress event => (Monitor.keyPressEvent event).map .keyPress
  | .keyRelease event readings => (Monitor.keyReleaseEvent event).map (.keyRelease · readings)

/-- One event of the loop: the machine's slot runs and its signals are delivered. -/
def Application.step (qt : QtBitmaps) (keys : QtKeys) (app : Application) (event : GuiEvent) : Option Application :=
  match forward event with
  | none => some app
  | some event =>
    (Chip8Emulator.step keys app.pc event).bind fun pc =>
      deliverAll qt { app with pc := { pc with emitted := [] } } pc.emitted

/-- The machine's timer times out only while it is active. -/
def Application.Live (app : Application) : GuiEvent → Prop
  | .timeout _ => app.pc.Running
  | _ => True

instance (app : Application) : ∀ event, Decidable (app.Live event)
  | .timeout _ => inferInstanceAs (Decidable app.pc.Running)
  | .loadReleased _ | .startReleased | .stopReleased | .keyPress _ | .keyRelease _ _ => isTrue trivial

end Chip8Emulator
