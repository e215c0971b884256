import Chip8Emulator.SpriteDrawing

/-! The glyph table at the bottom of RAM. The interpreter writes RAM only to
push return addresses, so the table survives as long as every push lands above
it; the eight-bit stack pointer wraps into it otherwise. -/
namespace Chip8Emulator.FontGlyphs
open Foundations.Memory Foundations.Runs Foundations.Toggles SpriteDrawing

/-- The five bytes of a hexadecimal digit. -/
def glyph (d : Fin 16) : List Byte := fonts.getD d.val []

/-- The whole table is in place. -/
def FontsIntact (w : World) : Prop := Stored w.ram 0 fonts.flatten

/-- No store of the program reaches the table. -/
def StoresAbove (w : World) (event : Event) : Prop :=
  ∀ instruction ∈ event.instruction w, ∀ address ∈ instruction.stored w, 0x50 ≤ address

instance : ∀ w event, Decidable (StoresAbove w event) := fun _ _ =>
  inferInstanceAs (Decidable (∀ _ ∈ _, _))

/-- Every push lands above the table: both bytes below it would have to wrap. -/
def PushesAbove (w : World) (event : Event) : Prop :=
  ∀ instruction ∈ event.instruction w,
    instruction.isCall → 0x4F ≤ w.stackPointer.toNat ∧ w.stackPointer.toNat ≤ 0xFD

instance : ∀ w event, Decidable (PushesAbove w event) := fun _ _ =>
  inferInstanceAs (Decidable (∀ _ ∈ _, _))

theorem fonts_initial (now : Time) : FontsIntact (.construct now) := by
  intro i within
  have position : i < 80 := within
  rw [Nat.zero_add, read_at_of_lt _ (show i < 4096 by omega)]
  exact List.getD_eq_getElem _ _ within

/-- A digit's bytes lie at five times the digit. -/
theorem glyph_stored (intact : FontsIntact w) (d : Fin 16) : Stored w.ram (5 * d.val) (glyph d) := by
  have slice : ∀ d : Fin 16, (fonts.flatten.drop (5 * d.val)).take 5 = glyph d := by decide
  have stored := stored_slice intact (5 * d.val) 5
  rwa [slice d, Nat.zero_add] at stored

theorem fonts_step (intact : FontsIntact w) (stores : StoresAbove w event) (pushes : PushesAbove w event)
    (stepped : step keys w event = some next) : FontsIntact next := by
  rcases step_cases stepped with ⟨inputs, instruction, rfl, executed, ticked⟩ |
      ⟨file, rfl, _, _, rfl⟩ | ⟨_, _, _, same⟩
  · refine stored_of_agree intact fun address _ upper => ?_
    have low : address < 0x50 := upper
    rw [ticked.ram]
    refine read_elsewhere w.fetched instruction address fun written => ?_
    have above := stores instruction executed address
    cases instruction with
    | call target =>
      obtain ⟨lower, higher⟩ := pushes (.call target) executed rfl
      have first : (w.stackPointer + 1).toNat = w.stackPointer.toNat + 1 :=
        BitVec.toNat_add_of_lt (show w.stackPointer.toNat + 1 < 256 by omega)
      have second : (w.stackPointer + 2).toNat = w.stackPointer.toNat + 2 :=
        BitVec.toNat_add_of_lt (show w.stackPointer.toNat + 2 < 256 by omega)
      have pushed : address ∈ [(w.stackPointer + 1).toNat, (w.stackPointer + 2).toNat] := written
      simp only [List.mem_cons, List.not_mem_nil, or_false] at pushed
      omega
    | _ => exact absurd (above written) (Nat.not_le.mpr low)
  · exact stored_of_agree intact fun address _ upper =>
      read_loaded w file address (Nat.lt_trans upper (by decide))
  · unfold FontsIntact
    rw [same.ram]
    exact intact

/-- An executed `Fx29` with a digit in `Vx` finds that digit: the index points
at its glyph, and drawing five rows from there, however much later, draws it. -/
def ServesGlyphs (keys : QtKeys) (allowed : World → Event → Prop) (w : World) : Prop :=
  ∀ x (d : Fin 16) inputs next, (w.vRegisters x).toNat = d.val → decode w.opcodeAt = some (.glyph x) →
    allowed w (.tick inputs) → step keys w (.tick inputs) = some next →
    next.indexRegister.toNat = 5 * d.val ∧ Stored next.ram (5 * d.val) (glyph d) ∧
    ∀ later m a b drawing after, Run (step keys) allowed next later m → m.indexRegister = next.indexRegister →
      decode m.opcodeAt = some (.draw a b 5) → step keys m (.tick drawing) = some after →
      lit after.frameBuffer =
        toggleAll (lit m.frameBuffer) (Draw.pixels ⟨m.vRegisters a, m.vRegisters b, glyph d⟩)

/-- Neither a store of the program nor a push reaches the table. -/
def TableSafe (w : World) (event : Event) : Prop := StoresAbove w event ∧ PushesAbove w event

instance : ∀ w event, Decidable (TableSafe w event) := fun _ _ =>
  inferInstanceAs (Decidable (_ ∧ _))

theorem fonts_of_run (intact : FontsIntact w) (run : Run (step keys) TableSafe w events next) :
    FontsIntact next :=
  run_invariant FontsIntact (fun _ _ _ intact safe stepped => fonts_step intact safe.1 safe.2 stepped) intact run

theorem sprite_of_stored {w : World} {sprite : List Byte} (count : sprite.length = n)
    (stored : Stored w.ram w.indexRegister.toNat sprite) : w.bytesAtIndex n = sprite := by
  apply List.ext_getElem
  · rw [bytes_length, count]
  · intro i _ within
    rw [bytes_getElem, stored i within]

/-- As long as every push lands above the table, the glyphs are served. -/
theorem glyphs_stay_available {keys : QtKeys} {now : Time} {events : List Event} {w : World}
    (run : Run (step keys) TableSafe (.construct now) events w) : ServesGlyphs keys TableSafe w := by
  intro x d inputs next digit executes safe stepped
  have intact : FontsIntact next :=
    fonts_step (fonts_of_run (fonts_initial now) run) safe.1 safe.2 stepped
  obtain ⟨instruction, ticked⟩ := step_tick_iff.mp stepped
  obtain rfl : instruction = .glyph x := Option.some.inj (ticked.decoded.symm.trans executes)
  have index : next.indexRegister.toNat = 5 * d.val := by
    have small := d.isLt
    rw [ticked.indexRegister]
    change (BitVec.ofNat 16 (5 * (w.vRegisters x).toNat)).toNat = _
    rw [digit, BitVec.toNat_ofNat]
    omega
  refine ⟨index, glyph_stored intact d, ?_⟩
  intro later m a b drawing after laterRun sameIndex draws drew
  have size : ∀ d : Fin 16, (glyph d).length = 5 := by decide
  obtain ⟨instruction, drawn⟩ := step_tick_iff.mp drew
  obtain rfl : instruction = .draw a b 5 := Option.some.inj (drawn.decoded.symm.trans draws)
  have stored : Stored m.ram m.indexRegister.toNat (glyph d) := by
    rw [sameIndex, index]
    exact glyph_stored (fonts_of_run intact laterRun) d
  rw [drawn.frameBuffer, ← sprite_of_stored (size d) stored]
  exact lit_draw (drawOf m a b 5) m.frameBuffer

/-- Two nested calls and their returns before an `F029`. -/
def callsBeforeGlyph : List Event :=
  [.load (some [0x22, 0x04, 0xF0, 0x29, 0x22, 0x08, 0x00, 0xEE, 0x00, 0xEE]), .startCpu,
    .tick (.reading 0), .tick (.reading 0), .tick (.reading 0), .tick (.reading 0)]

/-- The pushes of the calls spare the glyph. -/
theorem glyphs_available_after_calls : ∃ w : World, w.ram 0x81 = 0x02 ∧ w.ram 0x83 = 0x06 ∧
    decode w.opcodeAt = some (.glyph 0) ∧ ServesGlyphs .latin TableSafe w := by
  obtain ⟨w, run, ends⟩ := run_of_test (step .latin) TableSafe (.construct 0) callsBeforeGlyph
    (fun w => w.ram 0x81 = 0x02 ∧ w.ram 0x83 = 0x06 ∧ decode w.opcodeAt = some (.glyph 0)) (by decide)
  obtain ⟨outer, inner, executes⟩ := of_decide_eq_true ends
  exact ⟨w, outer, inner, executes, glyphs_stay_available run⟩

/-- 65 calls, each to the next word, then `F129`. -/
private def deepCalls : List Byte :=
  ((List.range 65).flatMap fun i => [0x22, BitVec.ofNat 8 (2 * i + 2)]) ++ [0xF1, 0x29]

/-- The 65th pending call is pushed onto the glyph of zero. -/
theorem deep_calls_destroy_glyph :
    ¬ ∀ (keys : QtKeys) (now : Time) (events : List Event) (w : World),
      Run (step keys) (fun w event => Live w event ∧ StoresAbove w event) (.construct now) events w →
      ServesGlyphs keys (fun w event => Live w event ∧ StoresAbove w event) w := by
  intro always
  obtain ⟨w, run, ends⟩ := run_of_test (step .latin)
    (fun w event => Live w event ∧ StoresAbove w event) (.construct 0)
    (.load (some deepCalls) :: .startCpu :: List.replicate 65 (.tick (.reading 0)))
    (fun w : World => decode w.opcodeAt = some (.glyph 1) ∧ w.vRegisters 1 = 0 ∧ w.ram 0 = 2 ∧
      w.Running ∧ (step .latin w (.tick (.reading 0))).isSome)
    (by decide +kernel)
  obtain ⟨executes, zero, overwritten, running, completes⟩ := of_decide_eq_true ends
  obtain ⟨next, stepped⟩ := Option.isSome_iff_exists.mp completes
  have stores : StoresAbove w (.tick (.reading 0)) := by
    intro instruction executed
    obtain rfl : instruction = .glyph 1 := Option.some.inj (executed.symm.trans executes)
    simp [Instruction.stored]
  obtain ⟨_, stored, _⟩ := always .latin 0 _ w run 1 0 (.reading 0) next
    (by rw [zero]; rfl) executes ⟨running, stores⟩ stepped
  obtain ⟨instruction, ticked⟩ := step_tick_iff.mp stepped
  obtain rfl : instruction = .glyph 1 := Option.some.inj (ticked.decoded.symm.trans executes)
  have first : readAt next.ram 0 = 0xF0 := stored 0 (by decide)
  rw [ticked.ram] at first
  have byte : w.ram 0 = 0xF0 := first
  rw [overwritten] at byte
  exact absurd byte (by decide)

end Chip8Emulator.FontGlyphs
