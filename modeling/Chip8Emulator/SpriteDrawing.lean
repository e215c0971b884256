import Chip8Emulator.InstructionFrames
import Chip8Emulator.Foundations.Runs
import Chip8Emulator.Foundations.Toggles
import Mathlib.Data.List.Nodup

/-! Drawing as a picture of single pixels. A sprite is a batch of toggled
places, and the packed buffer after any run shows every place toggled as often
as the sprite bits drawn since the last clear say. That a draw puts out a lit
pixel is recorded nowhere. -/
namespace Chip8Emulator.SpriteDrawing
open Foundations.Memory Foundations.Runs Foundations.Toggles

structure Pixel where
  column : Fin 64
  row : Fin 32
  deriving DecidableEq

/-- The pixel in column `c` is bit `7 - c % 8` of byte `c / 8` of its row. -/
def lit (buffer : FrameBuffer) (pixel : Pixel) : Bool :=
  (buffer pixel.row ⟨pixel.column.val / 8, by omega⟩).getLsbD (7 - pixel.column.val % 8)

/-- Two buffers that show the same pixels are the same. -/
theorem lit_injective : Function.Injective lit := by
  intro first second same
  funext row column
  apply BitVec.eq_of_getLsbD_eq
  intro i bound
  have pixel := congrFun same ⟨⟨8 * column.val + (7 - i), by omega⟩, row⟩
  have byte : (8 * column.val + (7 - i)) / 8 = column.val := by omega
  have bit : 7 - (8 * column.val + (7 - i)) % 8 = i := by omega
  simpa only [lit, byte, bit] using pixel

/-! ## One sprite -/

/-- A sprite drawn at the coordinates two registers held. -/
structure Draw where
  vx : Byte
  vy : Byte
  sprite : List Byte
  deriving DecidableEq

/-- Where bit `j` of byte `i` lands, 0 being the most significant bit. -/
def Draw.landing (draw : Draw) (i j : Nat) : Pixel :=
  { column := ⟨(draw.vx.toNat % 64 + j) % 64, Nat.mod_lt _ (by decide)⟩
    row := ⟨(draw.vy.toNat % 32 + i) % 32, Nat.mod_lt _ (by decide)⟩ }

/-- The set bits of a byte, most significant first. -/
def setBits (value : Byte) : List Nat := (List.range 8).filter fun j => value.getLsbD (7 - j)

/-- Where the set bits of the sprite land, one entry for each bit. -/
def Draw.pixels (draw : Draw) : List Pixel :=
  draw.sprite.zipIdx.flatMap fun (value, i) => (setBits value).map (draw.landing i)

theorem lit_xor_byte (buffer : FrameBuffer) (y i : Nat) (value : Byte) (pixel : Pixel) :
    lit (xorByte buffer y i value) pixel =
      (lit buffer pixel ^^
        (decide (pixel.row.val = y ∧ pixel.column.val / 8 = i) && value.getLsbD (7 - pixel.column.val % 8))) := by
  unfold lit xorByte
  by_cases here : pixel.row.val = y ∧ pixel.column.val / 8 = i
  · simp [here]
  · simp [here]

/-- A sprite byte toggles the pixels its bits reach from column `x` on. -/
theorem lit_draw_row (buffer : FrameBuffer) (x y : Nat) (value : Byte) (pixel : Pixel) (column : x < 64) :
    lit (drawRow buffer x y value) pixel =
      (lit buffer pixel ^^
        (decide (pixel.row.val = y ∧ (pixel.column.val + 64 - x) % 64 < 8) &&
          value.getLsbD (7 - (pixel.column.val + 64 - x) % 64))) := by
  obtain ⟨⟨c, bound⟩, ⟨r, rows⟩⟩ := pixel
  obtain ⟨j, position⟩ : ∃ j, j = (c + 64 - x) % 64 := ⟨_, rfl⟩
  obtain ⟨o, offset⟩ : ∃ o, o = x % 8 := ⟨_, rfl⟩
  unfold drawRow
  rw [← offset]
  simp only [← position]
  by_cases row : r = y
  case neg =>
    split <;> simp [lit_xor_byte, row]
  by_cases aligned : o = 0
  · rw [if_pos aligned, lit_xor_byte]
    by_cases same : c / 8 = x / 8
    · have within : j < 8 := by omega
      have bit : 7 - c % 8 = 7 - j := by omega
      simp [row, same, within, bit]
    · have beyond : ¬ j < 8 := by omega
      simp [row, same, beyond]
  · rw [if_neg aligned, lit_xor_byte, lit_xor_byte]
    simp only [BitVec.getLsbD_ushiftRight, BitVec.getLsbD_shiftLeft]
    by_cases same : c / 8 = x / 8
    · have other : x / 8 ≠ (x / 8 + 1) % 8 := by omega
      by_cases reached : o ≤ c % 8
      · have within : j < 8 := by omega
        have bit : o + (7 - c % 8) = 7 - j := by omega
        simp [row, other, same, within, bit]
      · have beyond : ¬ j < 8 := by omega
        have high := value.getLsbD_of_ge (o + (7 - c % 8)) (by omega)
        simp [row, other, same, beyond, high]
    · by_cases next : c / 8 = (x / 8 + 1) % 8
      · have other : (x / 8 + 1) % 8 ≠ x / 8 := by omega
        by_cases reached : c % 8 < o
        · have within : j < 8 := by omega
          have small : 7 - c % 8 < 8 := by omega
          have shifted : ¬ 7 - c % 8 < 8 - o := by omega
          have bit : 7 - c % 8 - (8 - o) = 7 - j := by omega
          simp [row, other, next, within, small, shifted, bit]
        · have beyond : ¬ j < 8 := by omega
          have shifted : 7 - c % 8 < 8 - o := by omega
          simp [row, other, next, beyond, shifted]
      · have beyond : ¬ j < 8 := by omega
        simp [row, same, next, beyond]

theorem mem_set_bits (value : Byte) (j : Nat) : j ∈ setBits value ↔ j < 8 ∧ value.getLsbD (7 - j) = true := by
  simp [setBits]

/-- Within one row the bits of a byte land on different pixels. -/
theorem landings_distinct (draw : Draw) (i : Nat) (value : Byte) :
    ((setBits value).map (draw.landing i)).Nodup := by
  have distinct : (setBits value).Nodup := List.nodup_range.filter _
  refine List.Nodup.map_on ?_ distinct
  intro j first k second same
  have small := ((mem_set_bits value j).mp first).1
  have other := ((mem_set_bits value k).mp second).1
  have columns : (draw.vx.toNat % 64 + j) % 64 = (draw.vx.toNat % 64 + k) % 64 :=
    congrArg (fun pixel : Pixel => pixel.column.val) same
  omega

/-- Up to a screenful of rows no two bits of a sprite land on the same pixel. -/
theorem pixels_distinct (draw : Draw) (short : draw.sprite.length ≤ 32) : draw.pixels.Nodup := by
  rw [Draw.pixels, List.nodup_flatMap]
  refine ⟨fun (value, i) _ => landings_distinct draw i value, ?_⟩
  rw [List.pairwise_iff_getElem]
  intro i k first second before
  rw [List.length_zipIdx] at second
  rw [List.getElem_zipIdx, List.getElem_zipIdx]
  intro pixel upper lower
  obtain ⟨_, _, rfl⟩ := List.mem_map.mp upper
  obtain ⟨_, _, same⟩ := List.mem_map.mp lower
  have rows : (draw.vy.toNat % 32 + (0 + k)) % 32 = (draw.vy.toNat % 32 + (0 + i)) % 32 :=
    congrArg (fun pixel : Pixel => pixel.row.val) same
  omega

theorem set_bits_nil_iff : setBits value = [] ↔ value = 0 := by
  constructor
  · intro none
    apply BitVec.eq_of_getLsbD_eq
    intro i bound
    have clear : 7 - i ∉ setBits value := by simp [none]
    have position : 7 - (7 - i) = i := by omega
    rw [mem_set_bits, position] at clear
    simpa [bound] using fun set => clear ⟨by omega, set⟩
  · rintro rfl
    decide

theorem pixels_nil_iff (draw : Draw) : draw.pixels = [] ↔ ∀ value ∈ draw.sprite, value = 0 := by
  rw [Draw.pixels, List.flatMap_eq_nil_iff]
  constructor
  · intro none value member
    obtain ⟨i, within, same⟩ := List.mem_iff_getElem.mp member
    have entry : (value, i) ∈ draw.sprite.zipIdx :=
      List.mk_mem_zipIdx_iff_getElem?.mpr (List.getElem?_eq_some_iff.mpr ⟨within, same⟩)
    have nothing : (setBits value).map (draw.landing i) = [] := none (value, i) entry
    exact set_bits_nil_iff.mp (List.map_eq_nil_iff.mp nothing)
  · rintro blank ⟨value, i⟩ entry
    rw [blank value (List.fst_mem_of_mem_zipIdx entry)]
    rfl

theorem lit_row (draw : Draw) (buffer : FrameBuffer) (i : Nat) (value : Byte) :
    lit (drawRow buffer (draw.vx.toNat % 64) ((draw.vy.toNat % 32 + i) % 32) value) =
      toggleAll (lit buffer) ((setBits value).map (draw.landing i)) := by
  funext pixel
  rw [lit_draw_row _ _ _ _ _ (Nat.mod_lt _ (by decide)), toggle_all_nodup _ (landings_distinct draw i value)]
  congr 1
  obtain ⟨⟨c, bound⟩, ⟨r, rows⟩⟩ := pixel
  rw [Bool.eq_iff_iff]
  simp only [Bool.and_eq_true, decide_eq_true_eq, List.mem_map, mem_set_bits, Draw.landing,
    Pixel.mk.injEq, Fin.mk.injEq]
  constructor
  · rintro ⟨⟨row, within⟩, set⟩
    exact ⟨_, ⟨within, set⟩, by omega, row.symm⟩
  · rintro ⟨j, ⟨within, set⟩, column, row⟩
    have position : (c + 64 - draw.vx.toNat % 64) % 64 = j := by omega
    rw [position]
    exact ⟨⟨row.symm, within⟩, set⟩

theorem lit_rows (draw : Draw) (sprite : List Byte) (buffer : FrameBuffer) (k : Nat) :
    lit (drawSprite buffer (draw.vx.toNat % 64) ((draw.vy.toNat % 32 + k) % 32) sprite) =
      toggleAll (lit buffer) ((sprite.zipIdx k).flatMap fun (value, i) => (setBits value).map (draw.landing i)) := by
  induction sprite generalizing buffer k with
  | nil => rfl
  | cons value sprite ih =>
    have below : ((draw.vy.toNat % 32 + k) % 32 + 1) % 32 = (draw.vy.toNat % 32 + (k + 1)) % 32 := by omega
    rw [drawSprite, below, ih, List.zipIdx_cons, List.flatMap_cons, toggle_all_append, lit_row]

/-- A sprite toggles exactly the pixels its set bits land on. -/
theorem lit_draw (draw : Draw) (buffer : FrameBuffer) :
    lit (drawSprite buffer (draw.vx.toNat % 64) (draw.vy.toNat % 32) draw.sprite) =
      toggleAll (lit buffer) draw.pixels := by
  have rows := lit_rows draw draw.sprite buffer 0
  rwa [Nat.add_zero, Nat.mod_mod] at rows

/-- A draw leaves the picture as it is only if its bytes are all zero. -/
theorem draw_eq_self_iff (draw : Draw) (buffer : FrameBuffer) (short : draw.sprite.length ≤ 32) :
    drawSprite buffer (draw.vx.toNat % 64) (draw.vy.toNat % 32) draw.sprite = buffer ↔
      ∀ value ∈ draw.sprite, value = 0 := by
  rw [← lit_injective.eq_iff, lit_draw, toggle_all_eq_self_iff _ (pixels_distinct draw short), pixels_nil_iff]

/-! ## Runs -/

/-- The draw a sprite instruction makes. -/
def drawOf (w : World) (x y : Fin 16) (n : Nat) : Draw where
  vx := w.vRegisters x
  vy := w.vRegisters y
  sprite := w.bytesAtIndex n

/-- The draws in the order they were executed. -/
def recordDraws (draws : List Draw) (w : World) (event : Event) : List Draw :=
  match event.instruction w with
  | some (.draw x y n) => draws ++ [drawOf w x y n]
  | _ => draws

/-- An event that clears the picture, if it completes. -/
def Clears (w : World) (event : Event) : Prop :=
  event.instruction w = some .clear ∨ event.loads

instance : ∀ w event, Decidable (Clears w event) := fun _ _ =>
  inferInstanceAs (Decidable (_ ∨ _))

/-- The states a stretch of drawing starts from. -/
inductive JustCleared (keys : QtKeys) : World → Prop where
  | constructed (now : Time) : JustCleared keys (.construct now)
  | cleared (clears : Clears w event) (stepped : step keys w event = some next) : JustCleared keys next

theorem dark_of_just_cleared (cleared : JustCleared keys w) : w.frameBuffer = fun _ _ => 0 := by
  cases cleared with
  | constructed now => rfl
  | @cleared before event _ clears stepped =>
    rcases step_cases stepped with ⟨inputs, instruction, rfl, executed, ticked⟩ |
        ⟨file, rfl, _, _, rfl⟩ | ⟨executed, _, notLoad, _⟩
    · rcases clears with clear | load
      · obtain rfl : instruction = .clear := Option.some.inj (executed.symm.trans clear)
        exact ticked.frameBuffer
      · contradiction
    · rfl
    · rcases clears with clear | load
      · rw [executed] at clear
        contradiction
      · exact absurd load notLoad

/-- Between clears an event adds the pixels of its draw and nothing else. -/
theorem draws_step (keeps : ¬ Clears w event) (stepped : step keys w event = some next) :
    ∃ added, recordDraws draws w event = draws ++ added ∧
      lit next.frameBuffer = toggleAll (lit w.frameBuffer) (added.flatMap Draw.pixels) := by
  have unchanged (same : next.frameBuffer = w.frameBuffer) (none : recordDraws draws w event = draws) :
      ∃ added, recordDraws draws w event = draws ++ added ∧
        lit next.frameBuffer = toggleAll (lit w.frameBuffer) (added.flatMap Draw.pixels) :=
    ⟨[], by rw [none, List.append_nil], by rw [same]; rfl⟩
  rcases step_cases stepped with ⟨inputs, instruction, rfl, executed, ticked⟩ |
      ⟨file, rfl, _, _, rfl⟩ | ⟨executed, _, _, same⟩
  · have picture := ticked.frameBuffer
    cases instruction with
    | clear => exact absurd (.inl executed) keeps
    | draw x y n =>
      refine ⟨[drawOf w x y n], by simp only [recordDraws, executed], ?_⟩
      rw [picture, List.flatMap_singleton]
      exact lit_draw (drawOf w x y n) w.frameBuffer
    | _ => exact unchanged picture (by simp only [recordDraws, executed])
  · exact absurd (.inr rfl) keeps
  · exact unchanged same.frameBuffer (by simp only [recordDraws, executed])

/-- A run without clears, with the draws recorded. -/
def KeepsPicture (p : World × List Draw) (event : Event) : Prop := ¬ Clears p.1 event

instance : ∀ p event, Decidable (KeepsPicture p event) := fun _ _ =>
  inferInstanceAs (Decidable (¬ _))

theorem draws_of_run (run : Run (withHistory (step keys) recordDraws) KeepsPicture p events q) :
    ∃ added, q.2 = p.2 ++ added ∧
      lit q.1.frameBuffer = toggleAll (lit p.1.frameBuffer) (added.flatMap Draw.pixels) := by
  refine run_relates (fun p q : World × List Draw => ∃ added, q.2 = p.2 ++ added ∧
    lit q.1.frameBuffer = toggleAll (lit p.1.frameBuffer) (added.flatMap Draw.pixels)) ?_ ?_ run
  · exact fun p => ⟨[], (List.append_nil _).symm, rfl⟩
  · rintro ⟨w, draws⟩ ⟨m, drawn⟩ event ⟨next, reached⟩ ⟨added, split, picture⟩ keeps stepped
    obtain ⟨happened, rfl⟩ := with_history_step.mp stepped
    obtain ⟨more, grown, toggled⟩ := draws_step keeps happened
    refine ⟨added ++ more, ?_, ?_⟩
    · have before : drawn = draws ++ added := split
      change recordDraws drawn m event = draws ++ (added ++ more)
      rw [grown, before, List.append_assoc]
    · rw [toggled, picture, List.flatMap_append, toggle_all_append]

/-- From a clear on, the picture is the draws' pixels toggled on a dark screen. -/
theorem picture_of_draws (cleared : JustCleared keys start)
    (run : Run (withHistory (step keys) recordDraws) KeepsPicture (start, []) events (w, draws)) :
    lit w.frameBuffer = toggleAll (fun _ => false) (draws.flatMap Draw.pixels) := by
  obtain ⟨added, split, picture⟩ := draws_of_run run
  obtain rfl : draws = added := split
  have dark : lit start.frameBuffer = fun _ => false := by
    rw [dark_of_just_cleared cleared]
    funext pixel
    exact BitVec.getLsbD_zero
  rw [← dark]
  exact picture

/-- A pixel is lit exactly if an odd number of drawn sprite bits landed on it.
So the order of the draws does not matter, and a repeated draw is undone. -/
theorem picture_is_parity {keys : QtKeys} {start w : World} {events : List Event} {draws : List Draw}
    (cleared : JustCleared keys start)
    (run : Run (withHistory (step keys) recordDraws) KeepsPicture (start, []) events (w, draws)) :
    (∀ pixel, lit w.frameBuffer pixel = true ↔ Odd ((draws.flatMap Draw.pixels).count pixel)) ∧
    (∀ origin others other reordered, JustCleared keys origin →
      Run (withHistory (step keys) recordDraws) KeepsPicture (origin, []) others (other, reordered) →
      reordered.Perm draws → other.frameBuffer = w.frameBuffer) ∧
    ∀ later after draw,
      Run (withHistory (step keys) recordDraws) KeepsPicture (w, draws) later (after, draws ++ [draw, draw]) →
      after.frameBuffer = w.frameBuffer := by
  have picture := picture_of_draws cleared run
  refine ⟨?_, ?_, ?_⟩
  · intro pixel
    rw [picture, toggle_all_parity, Bool.false_xor, decide_eq_true_eq]
  · intro origin others other reordered otherCleared otherRun same
    apply lit_injective
    rw [picture, picture_of_draws otherCleared otherRun]
    exact toggle_all_perm _ (same.flatMap_right _)
  · intro later after draw more
    obtain ⟨added, split, redrawn⟩ := draws_of_run more
    obtain rfl : [draw, draw] = added := List.append_cancel_left split
    apply lit_injective
    rw [redrawn, List.flatMap_cons, List.flatMap_singleton, toggle_all_append]
    exact toggle_all_twice _ _

/-- One glyph row drawn in the corner of a freshly loaded machine. -/
theorem picture_is_parity_corner : ∃ w : World, ∀ pixel,
    lit w.frameBuffer pixel = true ↔ Odd (([⟨0, 0, [0xF0]⟩].flatMap Draw.pixels).count pixel) := by
  have loaded : step .latin (.construct 0) (.load (some [0xD0, 0x01])) =
      some ((World.construct 0).loaded [0xD0, 0x01]) := step_load
  obtain ⟨⟨w, draws⟩, run, ends⟩ := run_of_test (withHistory (step .latin) recordDraws)
    KeepsPicture ((World.construct 0).loaded [0xD0, 0x01], []) [.tick (.reading 0)]
    (fun p => p.2 = [⟨0, 0, [0xF0]⟩]) (by decide)
  obtain rfl : draws = [⟨0, 0, [0xF0]⟩] := of_decide_eq_true ends
  exact ⟨w, (picture_is_parity (.cleared (.inr rfl) loaded) run).1⟩

/-! ## Collisions -/

/-- A pixel that was lit is dark afterwards. -/
def Collides (before after : FrameBuffer) : Prop := ∃ pixel, lit before pixel = true ∧ lit after pixel = false

/-- The flag says whether a pixel that was lit went dark. -/
def RecordsCollision (flag : Byte) (before after : FrameBuffer) : Prop :=
  (Collides before after ∧ flag = 1) ∨ (¬ Collides before after ∧ flag = 0)

/-- A draw collides exactly where one of its set bits lands on a lit pixel. -/
theorem collides_iff (draw : Draw) (buffer : FrameBuffer) (short : draw.sprite.length ≤ 32) :
    Collides buffer (drawSprite buffer (draw.vx.toNat % 64) (draw.vy.toNat % 32) draw.sprite) ↔
      ∃ pixel ∈ draw.pixels, lit buffer pixel = true := by
  unfold Collides
  simp only [lit_draw, toggle_all_nodup _ (pixels_distinct draw short)]
  constructor
  · rintro ⟨pixel, bright, dark⟩
    rw [bright, Bool.true_xor, Bool.not_eq_false', decide_eq_true_eq] at dark
    exact ⟨pixel, dark, bright⟩
  · rintro ⟨pixel, member, bright⟩
    exact ⟨pixel, bright, by simp [bright, member]⟩

/-- The value that records the collision of a draw. -/
theorem records_collision_iff (flag : Byte) (draw : Draw) (buffer : FrameBuffer) (short : draw.sprite.length ≤ 32) :
    RecordsCollision flag buffer (drawSprite buffer (draw.vx.toNat % 64) (draw.vy.toNat % 32) draw.sprite) ↔
      flag = if ∃ pixel ∈ draw.pixels, lit buffer pixel = true then 1 else 0 := by
  rw [RecordsCollision, collides_iff draw buffer short]
  split <;> rename_i hit <;> simp [hit]

/-- `Dxyn` toggles pixels and writes no register, so that `VF` records the
collision exactly where it already held its outcome. -/
theorem draw_keeps_flag (w : World) (opcode : DByte)
    (inside : nOf opcode = 0 ∨ w.indexRegister.toNat + nOf opcode ≤ 4096) :
    ∃ next, (performDxyn opcode).run w = .ok () next ∧ next.vRegisters = w.vRegisters ∧
      lit next.frameBuffer =
        toggleAll (lit w.frameBuffer) (drawOf w (xOf opcode) (yOf opcode) (nOf opcode)).pixels ∧
      (RecordsCollision (next.vRegisters vF) w.frameBuffer next.frameBuffer ↔
        w.vRegisters vF = if ∃ pixel ∈ (drawOf w (xOf opcode) (yOf opcode) (nOf opcode)).pixels,
          lit w.frameBuffer pixel = true then 1 else 0) := by
  have digit : nOf opcode < 16 := Nat.mod_lt _ (by decide)
  have short : (w.bytesAtIndex (nOf opcode)).length ≤ 32 := by
    rw [bytes_length]
    omega
  exact ⟨_, run_performDxyn w opcode inside, rfl, lit_draw (drawOf w _ _ _) w.frameBuffer,
    records_collision_iff _ (drawOf w _ _ _) w.frameBuffer short⟩

/-- A machine with the first and the fourth pixel lit, whose `VF` is one. -/
def litAndFlagged : World :=
  { World.construct 0 with
    frameBuffer := drawRow (fun _ _ => 0) 0 0 0x90
    vRegisters := Function.update (fun _ => 0) vF 1 }

/-- Four pixels drawn over them: the first goes dark, the second lights up, and
`VF` is still the one that was there. -/
theorem draw_keeps_flag_collision : ∃ next, (performDxyn 0xD001).run litAndFlagged = .ok () next ∧
    next.vRegisters = litAndFlagged.vRegisters ∧
    lit litAndFlagged.frameBuffer ⟨0, 0⟩ = true ∧ lit next.frameBuffer ⟨0, 0⟩ = false ∧
    lit next.frameBuffer ⟨1, 0⟩ = true ∧
    RecordsCollision (next.vRegisters vF) litAndFlagged.frameBuffer next.frameBuffer := by
  obtain ⟨next, drawn, kept, toggled, records⟩ := draw_keeps_flag litAndFlagged 0xD001 (.inr (by decide))
  have first := congrFun toggled ⟨0, 0⟩
  have second := congrFun toggled ⟨1, 0⟩
  exact ⟨next, drawn, kept, by decide, first.trans (by decide), second.trans (by decide), records.mpr (by decide)⟩

/-- The same row drawn a second time goes dark, and `VF` stays zero. -/
theorem collision_leaves_flag :
    ¬ ∀ (w : World) (opcode : DByte), nOf opcode = 0 ∨ w.indexRegister.toNat + nOf opcode ≤ 4096 →
      ∃ next, (performDxyn opcode).run w = .ok () next ∧
        RecordsCollision (next.vRegisters vF) w.frameBuffer next.frameBuffer ∧
        ∀ r, r ≠ vF → next.vRegisters r = w.vRegisters r := by
  intro always
  have inside : nOf 0xD001 = 0 ∨
      ({ World.construct 0 with frameBuffer := drawRow (fun _ _ => 0) 0 0 0xF0 } : World).indexRegister.toNat +
        nOf 0xD001 ≤ 4096 := .inr (by decide)
  obtain ⟨next, drawn, records, _⟩ := always _ 0xD001 inside
  have result := drawn.symm.trans (run_performDxyn _ 0xD001 inside)
  cases result
  rcases records with ⟨_, flag⟩ | ⟨none, _⟩
  · exact absurd flag (by decide)
  · exact none ⟨⟨0, 0⟩, by decide, by decide⟩

end Chip8Emulator.SpriteDrawing
