import Chip8Emulator.MonitorRefresh
import Chip8Emulator.VirtualMachineRefinement

/-! What the user of the application sees is the virtual machine. A session the
machine does not refuse the whole application carries out, the labels read the
machine's registers after it, and the screen shows a picture the machine had,
since which no tick has come a refresh period later. -/
namespace Chip8Emulator.UserView
open Foundations.Runs Displays FrontPanel MonitorRefresh SpriteDrawing VirtualMachine

/-- The monitor is still dark, or shows the picture the machine had after some
event, and no tick since has come 101 milliseconds after that event. -/
def MonitorFollows (keys : QtKeys) (now : Time) (events : List Event) (monitor : Monitor) : Prop :=
  (monitor.scene = [] ∧ StartsOff events) ∨
  ∃ earlier sender after m map reading, events = earlier ++ sender :: after ∧
    Run (Machine.step keys now) (fun _ _ => True) .initial (earlier ++ [sender]) m ∧
    monitor.scene = [map] ∧ Enlarges map m.picture ∧ reading ∈ steadyReadings sender ∧ Early reading after

section Bitmaps
variable {qt : QtBitmaps} (reads : qt.ReadsMono) (scales : qt.ScalesWhole)
include reads scales

/-- The pictures the emulator hands over are the machine's. -/
theorem monitor_follows (run : Run (Machine.step keys now) (fun _ _ => True) .initial events m)
    (carried : Run (step keys) Live (.construct now) events w) :
    MonitorFollows keys now events (present qt w).monitor := by
  rcases opening_or_recent carried with opening | recent
  · exact .inl ⟨scene_dark opening.1, starts_off opening⟩
  · obtain ⟨earlier, sender, after, past, reading, rfl, reached, sent, taken, early, _⟩ := recent
    rw [List.append_cons] at run
    obtain ⟨machine, before, _⟩ := run_append.mp run
    obtain ⟨same, implemented, like⟩ := run_implemented (implements_initial now) before
    obtain rfl := run_deterministic reached implemented
    obtain ⟨map, scene, enlarges⟩ := scene_lit reads scales sent
    rw [like.picture] at enlarges
    exact .inr ⟨earlier, sender, after, machine, map, reading, rfl, before, scene, enlarges, taken, early⟩

end Bitmaps

/-- A draw and a second tick 101 milliseconds later. -/
def drawnAndShown : List GuiEvent :=
  [.loadReleased (some [0x60, 0x2A, 0xD1, 0x11]), .startReleased, .timeout (.reading 0), .timeout (.reading 101000000)]

end Chip8Emulator.UserView
