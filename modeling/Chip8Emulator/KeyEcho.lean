import Chip8Emulator.KeyWait
import Chip8Emulator.DecimalDisplay

/-! Waiting for a key, from the program's side. `Fx0A` in placed code stops the
timer, whatever the user does short of starting it or loading changes nothing
the program can see, and the first release of a hexadecimal key takes the
machine to the next instruction with the key in `Vx`; with `Fx29` and `Dab5`
behind it the key is shown. -/
namespace Chip8Emulator.KeyEcho
open Foundations.Memory Foundations.Runs Foundations.Toggles Foundations.LeadsTo SpriteDrawing FontGlyphs KeyWait
open ProgramImage ProgramLogic DecimalDisplay RegisterBlocks

/-- What a user may do during a wait without ending it. -/
def Calm (keys : QtKeys) : Event → Prop
  | .tick _ | .startCpu => False
  | .stopCpu | .keyPress _ => True
  | .keyRelease key _ => keys.find key = none
  | .load file => file = none

instance (keys : QtKeys) : ∀ event, Decidable (Calm keys event)
  | .tick _ | .startCpu => isFalse id
  | .stopCpu | .keyPress _ => isTrue trivial
  | .keyRelease _ _ | .load _ => inferInstanceAs (Decidable (_ = _))

/-- A wait for `Vx` entered in `w` goes on: the machine is stopped behind the
instruction, with nothing changed. -/
structure Waits (code : Code) (k : Nat) (x : Fin 16) (w v : World) : Prop where
  stopped : v.mainProcessTimer = some { isActive := false }
  latch : v.lastOpcode = waitOpcode x
  counter : v.programCounter.toNat = code.base + 2 * (k + 1)
  registers : v.vRegisters = w.vRegisters
  ram : v.ram = w.ram
  picture : v.frameBuffer = w.frameBuffer

section Wait
variable (keys : QtKeys) {code : Code} {x : Fin 16} {w : World}

theorem wait_entered (place : At code k w) (reads : code.program[k]? = some (.waitKey x)) (idle : w.lastOpcode = 0)
    (inputs : TickInputs) : ∃ v, step keys w (.tick inputs) = some v ∧ Waits code k x w v := by
  obtain ⟨low, decoded⟩ := at_decodes place reads
  obtain ⟨within, _⟩ := List.getElem?_eq_some_iff.mp reads
  have ticked : Ticked inputs w (.waitKey x) ((w.fetched.beginWait (waitOpcode x) inputs.wait).finish inputs) := by
    refine ⟨low, decoded, _, ?_, rfl⟩
    exact congrArg Except.ok (if_pos idle)
  have counter := place.counter
  have room := code.inside
  have target := straight_target ticked rfl
  have past : ¬ (((w.fetched.beginWait (waitOpcode x) inputs.wait).finish inputs).programCounter.toNat = 4096) := by
    omega
  have running : w.fetched.mainProcessTimer = some { isActive := true } := place.running
  refine ⟨_, step_tick_iff.mpr ⟨_, ticked⟩, ?_, rfl, by omega, rfl, rfl, rfl⟩
  refine ticked.timer.trans ((if_neg past).trans ((if_pos idle).trans ?_))
  rw [World.stopTimer, running]
  rfl

/-- A calm event completes and the wait goes on. -/
theorem wait_continues (waits : Waits code k x w v) (calm : Calm keys event) :
    Live v event ∧ ∃ next, step keys v event = some next ∧ Waits code k x w next := by
  cases event with
  | tick inputs | startCpu => contradiction
  | stopCpu =>
    refine ⟨trivial, v.stopTimer, step_stopCpu, { waits with stopped := ?_ }⟩
    rw [World.stopTimer, waits.stopped]
    rfl
  | keyPress key =>
    refine ⟨trivial, ?_⟩
    rw [step_keyPress]
    cases keys.find key with
    | none => exact ⟨v, rfl, waits⟩
    | some k => exact ⟨v.recordKey k 1, rfl, { waits with }⟩
  | keyRelease key readings =>
    refine ⟨trivial, v, ?_, waits⟩
    rw [step_keyRelease, calm]
  | load file =>
    obtain rfl : file = none := calm
    exact ⟨trivial, v, step_load_cancelled, waits⟩

theorem wait_lasts (waits : Waits code k x w v) (calm : ∀ event ∈ events, Calm keys event) :
    ∃ next, Run (step keys) Live v events next ∧ Waits code k x w next := by
  induction events generalizing v with
  | nil => exact ⟨v, .done, waits⟩
  | cons event events ih =>
    obtain ⟨first, others⟩ := List.forall_mem_cons.mp calm
    obtain ⟨live, m, stepped, still⟩ := wait_continues keys waits first
    obtain ⟨next, run, ends⟩ := ih still others
    exact ⟨next, .next live stepped run, ends⟩

/-- The release of a hexadecimal key ends it. -/
theorem wait_ends (placed : Stored w.ram code.base (assemble code.program)) (waits : Waits code k x w v)
    (found : keys.find key = some digit) (readings : SteadyReadings) :
    ∃ next, step keys v (.keyRelease key readings) = some next ∧ At code (k + 1) next ∧
      next.vRegisters = Function.update w.vRegisters x (BitVec.ofNat 8 digit.val) ∧ next.ram = w.ram ∧
      next.frameBuffer = w.frameBuffer := by
  have pending : v.lastOpcode ≠ 0 := by
    rw [waits.latch]
    exact wait_opcode_ne_zero x
  refine ⟨_, (release_iff found).mpr (.inr (.inr ⟨waits.stopped, pending, rfl⟩)), ⟨rfl, ?_, waits.counter⟩, ?_,
    waits.ram, waits.picture⟩
  · have ram : (v.recordKey digit 0).completeWait.ram = w.ram := waits.ram
    rw [ram]
    exact placed
  · have register : xOf v.lastOpcode = x := by rw [waits.latch, wait_opcode_register]
    rw [← waits.registers, ← register]
    rfl

end Wait

/-- With the glyph table in place and no wait pending, whatever the user does in
between, short of Start and of loading a file, `Fx0A; Fx29; Dab5` shows the first
hexadecimal key that is released, within two ticks after that, and leaves it in
`Vx`. -/
theorem key_is_shown (keys : QtKeys) {code : Code} {k : Nat} {w : World} {x a b digit : Fin 16} {key : Int}
    {between : List Event} (reads : code.program[k]? = some (.waitKey x))
    (glyphs : code.program[k + 1]? = some (.glyph x)) (draws : code.program[k + 2]? = some (.draw a b 5))
    (place : At code k w) (idle : w.lastOpcode = 0) (intact : FontsIntact w)
    (calm : ∀ event ∈ between, Calm keys event) (found : keys.find key = some digit) (inputs : TickInputs)
    (readings : SteadyReadings) (later : Nat → TickInputs) :
    ∃ m ≤ 2, ∃ v, Run (step keys) Live w
        (.tick inputs :: (between ++ .keyRelease key readings :: (List.range m).map fun i => .tick (later i))) v ∧
      At code (k + 3) v ∧ v.vRegisters = Function.update w.vRegisters x (BitVec.ofNat 8 digit.val) ∧
      lit v.frameBuffer =
        toggleAll (lit w.frameBuffer) (Draw.pixels ⟨v.vRegisters a, v.vRegisters b, glyph digit⟩) := by
  obtain ⟨entered, stepped, waits⟩ := wait_entered keys place reads idle inputs
  obtain ⟨last, calmRun, still⟩ := wait_lasts keys waits calm
  obtain ⟨woken, released, next, registers, ram, picture⟩ := wait_ends keys place.placed still found readings
  have holds : (woken.vRegisters x).toNat = digit.val := by
    have small := digit.isLt
    rw [registers, Function.update_self, BitVec.toNat_ofNat]
    omega
  have kept : FontsIntact woken := fonts_same intact ram
  have leads := digit_leads keys (fun _ => True) glyphs draws next kept holds
  obtain ⟨m, bound, v, run, ends, same, _, shown⟩ := leads_run leads (fun i => .tick (later i))
    fun i => ⟨later i, rfl, trivial⟩
  refine ⟨m, bound, v, ?_, ends, same.trans registers, ?_⟩
  · refine .next place.running stepped (run_append.mpr ⟨last, calmRun, ?_⟩)
    exact .next trivial released run
  · rw [shown, same, picture]

/-- `F00A; F029; D125`, with five pressed and released, and Stop clicked in between. -/
theorem key_is_shown_five : ∃ v : World, v.vRegisters 0 = 5 ∧
    lit v.frameBuffer = toggleAll (lit (World.construct 0).frameBuffer)
      (Draw.pixels ⟨v.vRegisters 1, v.vRegisters 2, glyph 5⟩) := by
  let echo : Code := ⟨[.waitKey 0, .glyph 0, .draw 1 2 5], 0x200, by decide, by decide⟩
  have place : At echo 0 (World.loaded (.construct 0) (assemble echo.program)).startTimer := by
    refine ⟨rfl, ?_, rfl⟩
    exact Loading.loaded_contents (.construct 0) (by decide)
  have intact : FontsIntact (World.loaded (.construct 0) (assemble echo.program)).startTimer :=
    (Loading.loaded_fonts (.construct 0) _).mpr (fonts_initial 0)
  have reads : echo.program[0]? = some (.waitKey 0) := rfl
  have glyphs : echo.program[1]? = some (.glyph 0) := rfl
  have draws : echo.program[2]? = some (.draw 1 2 5) := rfl
  have calm : ∀ event ∈ [Event.keyPress 0x35, .stopCpu], Calm .latin event := by decide
  have found : QtKeys.latin.find 0x35 = some 5 := by decide
  obtain ⟨_, _, v, _, _, registers, shown⟩ := key_is_shown .latin reads glyphs draws place rfl intact calm found
    (.reading 0) ⟨0, 0⟩ fun _ => .reading 0
  refine ⟨v, ?_, shown⟩
  rw [registers]
  rfl

end Chip8Emulator.KeyEcho
