import Chip8Emulator.FontGlyphs
import Chip8Emulator.MemoryInstructions
import Chip8Emulator.RegisterBlocks

/-! Showing a number. `Fx29` and `Dab5` draw the digit in a register from the
glyph table, a row of registers is drawn side by side by moving the column on,
and after `Fx33` and `F265` the row of `V0`, `V1`, `V2` is the number in `Vx`. -/
namespace Chip8Emulator.DecimalDisplay
open Foundations.Memory Foundations.Toggles Foundations.LeadsTo SpriteDrawing FontGlyphs MemoryInstructions
open ProgramImage ProgramLogic RegisterBlocks

/-- The pixels of digits next to each other, five columns for each. -/
def digitPixels (row column : Byte) : List (Fin 16) → List Pixel
  | [] => []
  | digit :: rest => Draw.pixels ⟨column, row, glyph digit⟩ ++ digitPixels row (column + 5) rest

theorem fonts_same (intact : FontsIntact w) (same : v.ram = w.ram) : FontsIntact v := by
  unfold FontsIntact
  rw [same]
  exact intact

/-- `Fr29; Dab5; 7a05` for each of the registers. -/
def digitsCode (a b : Fin 16) (registers : List (Fin 16)) : List Instruction :=
  registers.flatMap fun r => [.glyph r, .draw a b 5, .addByte a 5]

section Instructions
variable (keys : QtKeys) (admissible : TickInputs → Prop) {code : Code} {w : World}

/-- The glyph of the digit in `Vr` drawn at the coordinates in `Va` and `Vb`. -/
theorem digit_leads {r a b digit : Fin 16} (glyphs : code.program[k]? = some (.glyph r))
    (draws : code.program[k + 1]? = some (.draw a b 5)) (place : At code k w) (intact : FontsIntact w)
    (holds : (w.vRegisters r).toNat = digit.val) :
    Reaches keys admissible (fun v => At code (k + 2) v ∧ v.vRegisters = w.vRegisters ∧ v.ram = w.ram ∧
      lit v.frameBuffer =
        toggleAll (lit w.frameBuffer) (Draw.pixels ⟨w.vRegisters a, w.vRegisters b, glyph digit⟩)) 2 w := by
  refine reaches_instruction place glyphs (fun _ => ⟨_, rfl⟩) ?_
  intro inputs v _ pointed
  have registers : v.vRegisters = w.vRegisters := funext fun _ => pointed.registers_elsewhere List.not_mem_nil
  have ram : v.ram = w.ram := pointed.ram
  have picture : v.frameBuffer = w.frameBuffer := pointed.frameBuffer
  have index : v.indexRegister.toNat = 5 * digit.val := by
    have small := digit.isLt
    rw [pointed.indexRegister]
    change (BitVec.ofNat 16 (5 * (w.vRegisters r).toNat)).toNat = _
    rw [holds, BitVec.toNat_ofNat]
    omega
  have next : At code (k + 1) v :=
    straight_at place glyphs (fun _ => Instruction.noConfusion) rfl pointed (ram ▸ place.placed)
  have bound : v.indexRegister.toNat + 5 ≤ 4096 := by
    have small := digit.isLt
    omega
  refine reaches_instruction next draws (fun _ => ⟨_, if_pos (.inr bound)⟩) ?_
  intro second u _ drawn
  have stored : Stored v.ram v.indexRegister.toNat (glyph digit) := by
    rw [index, ram]
    exact glyph_stored intact digit
  have size : ∀ d : Fin 16, (glyph d).length = 5 := by decide
  have sprite : v.bytesAtIndex 5 = glyph digit := sprite_of_stored (size digit) stored
  have same : u.ram = w.ram := drawn.ram.trans ram
  refine leads_now ⟨?_, ?_, same, ?_⟩
  · exact straight_at next draws (fun _ => Instruction.noConfusion) rfl drawn (same ▸ place.placed)
  · exact (funext fun _ => drawn.registers_elsewhere List.not_mem_nil).trans registers
  · rw [drawn.frameBuffer, ← picture, ← registers, ← sprite]
    exact lit_draw (drawOf v a b 5) v.frameBuffer

/-- Digits in registers other than the column's are drawn side by side. -/
theorem digits_lead {a b : Fin 16} {registers digits : List (Fin 16)} {after : List Instruction} (apart : b ≠ a)
    (found : code.program.drop k = digitsCode a b registers ++ after) (place : At code k w) (intact : FontsIntact w)
    (holds : List.Forall₂ (fun r (d : Fin 16) => r ≠ a ∧ (w.vRegisters r).toNat = d.val) registers digits) :
    Reaches keys admissible (fun v => At code (k + 3 * registers.length) v ∧ v.ram = w.ram ∧
      (∀ r, r ≠ a → v.vRegisters r = w.vRegisters r) ∧
      lit v.frameBuffer = toggleAll (lit w.frameBuffer) (digitPixels (w.vRegisters b) (w.vRegisters a) digits))
      (3 * registers.length) w := by
  induction registers generalizing k w digits with
  | nil =>
    cases holds
    exact leads_now ⟨place, rfl, fun _ _ => rfl, rfl⟩
  | cons r rest ih =>
    cases holds with
    | @cons _ digit _ digits first others =>
      have split : code.program.drop k =
          [.glyph r, .draw a b 5] ++ ([.addByte a 5] ++ (digitsCode a b rest ++ after)) := found
      have moves : code.program.drop (k + 2) = [.addByte a 5] ++ (digitsCode a b rest ++ after) := behind_block split
      have behind : code.program.drop (k + 2 + 1) = digitsCode a b rest ++ after := behind_block moves
      have length : 3 * (r :: rest).length = 2 + (1 + 3 * rest.length) := by
        rw [List.length_cons]
        omega
      rw [length]
      refine leads_then (digit_leads keys admissible (word_of_block split 0 Nat.zero_lt_two)
        (word_of_block split 1 Nat.one_lt_two) place intact first.2) ?_
      rintro v ⟨drawn, registers, ram, picture⟩
      refine leads_then (block_leads keys admissible moves drawn rfl) ?_
      rintro u ⟨next, moved, same⟩
      have column : u.vRegisters a = w.vRegisters a + 5 := by
        rw [moved, registers, Function.update_self]
      have elsewhere (s : Fin 16) (other : s ≠ a) : u.vRegisters s = w.vRegisters s := by
        rw [moved, registers, Function.update_of_ne other]
      have ramKept : u.ram = w.ram := same.ram.trans ram
      have kept : FontsIntact u := fonts_same intact ramKept
      have row : List.Forall₂ (fun s (d : Fin 16) => s ≠ a ∧ (u.vRegisters s).toNat = d.val) rest digits := by
        refine others.imp fun s d => ?_
        rintro ⟨other, value⟩
        exact ⟨other, elsewhere s other ▸ value⟩
      refine leads_mono ?_ (ih behind next kept row)
      rintro t ⟨arrives, ramLast, registersLast, shown⟩
      refine ⟨?_, ramLast.trans ramKept, fun s other => (registersLast s other).trans (elsewhere s other), ?_⟩
      · have place : k + (2 + (1 + 3 * rest.length)) = k + 2 + 1 + 3 * rest.length := by omega
        rw [place]
        exact arrives
      · rw [shown, same.picture, picture, column, elsewhere b apart, ← toggle_all_append]
        rfl

/-- The decimal digits of `Vx` stored behind the index register and loaded
into `V0`, `V1`, `V2`, away from the code and the glyph table. -/
theorem digits_loaded {x : Fin 16} (stores : code.program[k]? = some (.bcd x))
    (loads : code.program[k + 1]? = some (.restore 2)) (place : At code k w) (room : w.indexRegister.toNat ≤ 4093)
    (away : w.indexRegister.toNat + 3 ≤ code.base ∨ code.base + 2 * code.program.length ≤ w.indexRegister.toNat) :
    Reaches keys admissible (fun v => At code (k + 2) v ∧ v.frameBuffer = w.frameBuffer ∧
      (∀ address, address < w.indexRegister.toNat ∨ w.indexRegister.toNat + 3 ≤ address →
        readAt v.ram address = readAt w.ram address) ∧
      v.vRegisters 0 = w.vRegisters x / 100 ∧ v.vRegisters 1 = w.vRegisters x / 10 % 10 ∧
      v.vRegisters 2 = w.vRegisters x % 10 ∧ ∀ r : Fin 16, 2 < r.val → v.vRegisters r = w.vRegisters r) 2 w := by
  refine reaches_instruction place stores (fun _ => ⟨_, if_pos room⟩) ?_
  intro inputs v _ stored
  have registers : v.vRegisters = w.vRegisters := funext fun _ => stored.registers_elsewhere List.not_mem_nil
  have index : v.indexRegister = w.indexRegister := stored.indexRegister
  have ram : v.ram = storeList w.ram w.indexRegister.toNat (decimalDigits (w.vRegisters x)) := stored.ram
  have digits : Stored v.ram w.indexRegister.toNat (decimalDigits (w.vRegisters x)) := by
    have length := digits_length (w.vRegisters x)
    rw [ram]
    exact stored_store (by omega)
  have outside (address : Nat) (clear : address < w.indexRegister.toNat ∨ w.indexRegister.toNat + 3 ≤ address) :
      readAt v.ram address = readAt w.ram address := by
    rw [stored.ram]
    refine read_elsewhere w.fetched (.bcd x) address fun written => ?_
    obtain ⟨i, inRange, rfl⟩ := List.mem_map.mp written
    have small := List.mem_range.mp inRange
    have cell : w.fetched.indexRegister = w.indexRegister := rfl
    rw [cell] at clear
    omega
  have kept : Stored v.ram code.base (assemble code.program) := by
    have length := assemble_length code.program
    exact stored_of_agree place.placed fun address _ _ => outside address (by omega)
  have next : At code (k + 1) v := straight_at place stores (fun _ => Instruction.noConfusion) rfl stored kept
  have inRam : v.indexRegister.toNat + 2 ≤ 4095 := by
    rw [index]
    omega
  refine reaches_instruction next loads (fun _ => ⟨_, if_pos inRam⟩) ?_
  intro second u _ loaded
  have same : u.ram = v.ram := loaded.ram
  have register (r : Fin 16) : u.vRegisters r =
      if r.val < 3 then readAt v.ram (w.indexRegister.toNat + r.val) else w.vRegisters r := by
    obtain ⟨executed, effect, rfl⟩ := loaded.executes
    cases effect.symm.trans (if_pos inRam)
    have restored := restored_register v.fetched 3 r
    rw [← index, ← registers]
    exact restored
  refine leads_now ⟨?_, ?_, ?_, ?_, ?_, ?_, fun r above => ?_⟩
  · exact straight_at next loads (fun _ => Instruction.noConfusion) rfl loaded (same ▸ kept)
  · exact loaded.frameBuffer.trans stored.frameBuffer
  · exact fun address clear => same ▸ outside address clear
  · exact (register 0).trans (digits 0 (show 0 < 3 by decide))
  · exact (register 1).trans (digits 1 (show 1 < 3 by decide))
  · exact (register 2).trans (digits 2 (show 2 < 3 by decide))
  · exact (register r).trans (if_neg (Nat.not_lt.mpr above))

end Instructions

/-- `Fx33; F265` and the row of the three digits: with the glyph table in place
and three bytes behind the index register to spare, the number in `Vx` is drawn
in decimal, its digits side by side from the column in `Va` on, in eleven ticks
whatever they read. -/
theorem number_is_shown (keys : QtKeys) (admissible : TickInputs → Prop) {code : Code} {k : Nat} {w : World}
    {x a b : Fin 16} {after : List Instruction}
    (found : code.program.drop k = [.bcd x, .restore 2] ++ (digitsCode a b [0, 1, 2] ++ after))
    (place : At code k w) (intact : FontsIntact w) (above : 0x50 ≤ w.indexRegister.toNat)
    (room : w.indexRegister.toNat ≤ 4093)
    (away : w.indexRegister.toNat + 3 ≤ code.base ∨ code.base + 2 * code.program.length ≤ w.indexRegister.toNat)
    (column : 2 < a.val) (row : 2 < b.val) (apart : b ≠ a) :
    ∃ hundreds tens ones : Fin 16, hundreds.val ≤ 9 ∧ tens.val ≤ 9 ∧ ones.val ≤ 9 ∧
      100 * hundreds.val + 10 * tens.val + ones.val = (w.vRegisters x).toNat ∧
      Reaches keys admissible (fun v => At code (k + 11) v ∧
        (∀ r : Fin 16, 2 < r.val → r ≠ a → v.vRegisters r = w.vRegisters r) ∧
        (∀ address, address < w.indexRegister.toNat ∨ w.indexRegister.toNat + 3 ≤ address →
          readAt v.ram address = readAt w.ram address) ∧
        lit v.frameBuffer = toggleAll (lit w.frameBuffer)
          (digitPixels (w.vRegisters b) (w.vRegisters a) [hundreds, tens, ones])) 11 w := by
  obtain ⟨first, second, third, sum⟩ := decimal_digits (w.vRegisters x)
  have digit (value : Byte) (small : value.toNat ≤ 9) : ∃ d : Fin 16, d.val = value.toNat :=
    ⟨⟨value.toNat, Nat.lt_of_le_of_lt small (by decide)⟩, rfl⟩
  obtain ⟨h, hundred⟩ := digit _ first
  obtain ⟨t, ten⟩ := digit _ second
  obtain ⟨o, one⟩ := digit _ third
  refine ⟨h, t, o, by omega, by omega, by omega, by omega, ?_⟩
  have behind : code.program.drop (k + 2) = digitsCode a b [0, 1, 2] ++ after := behind_block found
  have stores : code.program[k]? = some (.bcd x) := word_of_block found 0 Nat.zero_lt_two
  have loads : code.program[k + 1]? = some (.restore 2) := word_of_block found 1 Nat.one_lt_two
  refine leads_then (n := 9) (digits_loaded keys admissible stores loads place room away) ?_
  rintro v ⟨next, picture, ram, hundreds, tens, ones, others⟩
  have kept : FontsIntact v := stored_of_agree intact fun address _ below => by
    have low : address < 0x50 := below
    exact ram address (by omega)
  have clear (r : Fin 16) (low : r.val ≤ 2) : r ≠ a := fun same => by
    subst same
    omega
  have holds : List.Forall₂ (fun r (d : Fin 16) => r ≠ a ∧ (v.vRegisters r).toNat = d.val) [0, 1, 2] [h, t, o] :=
    .cons ⟨clear 0 (by decide), by rw [hundreds, hundred]⟩ (.cons ⟨clear 1 (by decide), by rw [tens, ten]⟩
      (.cons ⟨clear 2 (by decide), by rw [ones, one]⟩ .nil))
  refine leads_mono ?_ (digits_lead keys admissible apart behind next kept holds)
  rintro u ⟨arrives, ramLast, registers, shown⟩
  refine ⟨arrives, fun r high other => (registers r other).trans (others r high), ?_, ?_⟩
  · exact fun address outside => ramLast ▸ ram address outside
  · rw [shown, picture, others a column, others b row]

/-- 42 in `V5` shown at the coordinates in `V3` and `V4`, with space for its
digits at 0x300. -/
theorem number_is_shown_forty_two : ∃ w : World, w.vRegisters 5 = 42 ∧ ∃ hundreds tens ones : Fin 16,
    hundreds.val ≤ 9 ∧ tens.val ≤ 9 ∧ ones.val ≤ 9 ∧ 100 * hundreds.val + 10 * tens.val + ones.val = 42 ∧
    Reaches .latin (fun _ => True) (fun v =>
      lit v.frameBuffer = toggleAll (lit w.frameBuffer) (digitPixels 0 0 [hundreds, tens, ones])) 11 w := by
  let code : Code := ⟨[.bcd 5, .restore 2] ++ digitsCode 3 4 [0, 1, 2], 0x200, by decide, by decide⟩
  let w : World := { (World.loaded (.construct 0) (assemble code.program)).startTimer with
    indexRegister := 0x300
    vRegisters := fun r => if r = 5 then 42 else 0 }
  have place : At code 0 w := by
    refine ⟨rfl, ?_, rfl⟩
    exact Loading.loaded_contents (.construct 0) (by decide)
  have intact : FontsIntact w := (Loading.loaded_fonts (.construct 0) _).mpr (fonts_initial 0)
  have found : code.program.drop 0 = [.bcd 5, .restore 2] ++ (digitsCode 3 4 [0, 1, 2] ++ []) := rfl
  obtain ⟨h, t, o, first, second, third, sum, leads⟩ := number_is_shown .latin (fun _ => True) found place intact
    (by decide) (by decide) (by decide) (by decide) (by decide) (by decide)
  refine ⟨w, rfl, h, t, o, first, second, third, sum, leads_mono ?_ leads⟩
  rintro v ⟨_, _, _, shown⟩
  exact shown

end Chip8Emulator.DecimalDisplay
