import Chip8Emulator.ProgramImage
import Chip8Emulator.Foundations.LeadsTo

/-! Rules for programs. A piece of code in memory leads the machine from one
place to another whatever its ticks read, and the pieces programs are made of
have rules: an instruction in its place, a wait for the delay timer, a loop
that counts a register down, a subroutine. -/
namespace Chip8Emulator.ProgramLogic
open Foundations.Memory Foundations.Runs Foundations.LeadsTo CallStack ProgramImage

/-- Ticks with admissible readings. -/
def Ticks (admissible : TickInputs → Prop) (event : Event) : Prop :=
  ∃ inputs, event = .tick inputs ∧ admissible inputs

abbrev Reaches (keys : QtKeys) (admissible : TickInputs → Prop) (goal : World → Prop) : Nat → World → Prop :=
  LeadsWithin (step keys) Live (Ticks admissible) goal

/-- A piece of code and where it lies, with room for an instruction behind it. -/
structure Code where
  program : List Instruction
  base : Nat
  fits : ∀ instruction ∈ program, Fits instruction
  inside : base + 2 * program.length < 4096

section Block
variable {code : Code} {block after : List Instruction} (found : code.program.drop k = block ++ after)
include found

theorem word_of_block (i : Nat) (inBlock : i < block.length) : code.program[k + i]? = block[i]? := by
  rw [← List.getElem?_drop, found]
  exact List.getElem?_append_left inBlock

theorem behind_block : code.program.drop (k + block.length) = after := by
  rw [← List.drop_drop, found]
  exact List.drop_left

end Block

/-- The machine runs, with the code in memory, and is at its `k`-th instruction. -/
structure At (code : Code) (k : Nat) (w : World) : Prop where
  running : w.Running
  placed : Stored w.ram code.base (assemble code.program)
  counter : w.programCounter.toNat = code.base + 2 * k

/-- Everything but the registers, the place and what the clocks and signals drive. -/
structure SameBesides (w v : World) : Prop where
  index : v.indexRegister = w.indexRegister
  stack : v.stackPointer = w.stackPointer
  ram : v.ram = w.ram
  picture : v.frameBuffer = w.frameBuffer
  latch : v.lastOpcode = w.lastOpcode
  since : v.lastTime = w.lastTime
  lastKey : v.lastActiveKey = w.lastActiveKey
  keypad : v.interestedKeysStatuses = w.interestedKeysStatuses

theorem SameBesides.refl (w : World) : SameBesides w w := ⟨rfl, rfl, rfl, rfl, rfl, rfl, rfl, rfl⟩

theorem SameBesides.trans (first : SameBesides w v) (second : SameBesides v u) : SameBesides w u where
  index := second.index.trans first.index
  stack := second.stack.trans first.stack
  ram := second.ram.trans first.ram
  picture := second.picture.trans first.picture
  latch := second.latch.trans first.latch
  since := second.since.trans first.since
  lastKey := second.lastKey.trans first.lastKey
  keypad := second.keypad.trans first.keypad

/-- The same where of the registers only `Vx` may change. -/
structure SameBut (x : Fin 16) (w v : World) : Prop extends SameBesides w v where
  registers : ∀ y, y ≠ x → v.vRegisters y = w.vRegisters y

theorem SameBut.refl (x : Fin 16) (w : World) : SameBut x w w := ⟨.refl w, fun _ _ => rfl⟩

theorem SameBut.trans (first : SameBut x w v) (second : SameBut x v u) : SameBut x w u where
  toSameBesides := first.toSameBesides.trans second.toSameBesides
  registers y other := (second.registers y other).trans (first.registers y other)

/-! ## One instruction -/

section Instruction
variable {keys : QtKeys} {admissible : TickInputs → Prop} {goal : World → Prop} {w : World}

/-- An instruction that completes leads where its ticks lead. -/
theorem reaches_decoded (running : w.Running) (low : w.programCounter.toNat ≤ 4094)
    (decoded : decode w.opcodeAt = some instruction)
    (completes : ∀ inputs, ∃ executed, execute inputs w.fetched instruction = .ok executed)
    (leads : ∀ inputs next, admissible inputs → Ticked inputs w instruction next →
      Reaches keys admissible goal n next) : Reaches keys admissible goal (n + 1) w := by
  refine leads_next ?_
  rintro _ ⟨inputs, rfl, reads⟩
  obtain ⟨executed, effect⟩ := completes inputs
  have ticked : Ticked inputs w instruction (executed.finish inputs) := ⟨low, decoded, executed, effect, rfl⟩
  exact ⟨running, _, step_tick_iff.mpr ⟨instruction, ticked⟩, leads inputs _ reads ticked⟩

/-- What the machine decodes in placed code. -/
theorem at_decodes {code : Code} (place : At code k w) (found : code.program[k]? = some instruction) :
    w.programCounter.toNat ≤ 4094 ∧ decode w.opcodeAt = some instruction := by
  obtain ⟨within, rfl⟩ := List.getElem?_eq_some_iff.mp found
  have counter := place.counter
  have room := code.inside
  have opcode : w.opcodeAt = encode code.program[k] := by
    have word := assembled_word code.program k within place.placed
    rw [← counter] at word
    exact word
  exact ⟨by omega, opcode ▸ decode_encode_iff.mpr (code.fits _ (List.getElem_mem within))⟩

/-- The same for an instruction of placed code. -/
theorem reaches_instruction {code : Code} (place : At code k w) (found : code.program[k]? = some instruction)
    (completes : ∀ inputs, ∃ executed, execute inputs w.fetched instruction = .ok executed)
    (leads : ∀ inputs next, admissible inputs → Ticked inputs w instruction next →
      Reaches keys admissible goal n next) : Reaches keys admissible goal (n + 1) w := by
  obtain ⟨low, decoded⟩ := at_decodes place found
  exact reaches_decoded place.running low decoded completes leads

end Instruction

/-- A tick away from a wait goes on running, unless it ends at the end of RAM. -/
theorem ticked_running (running : w.Running) (notWait : ∀ x, instruction ≠ .waitKey x)
    (ticked : Ticked inputs w instruction next) (notEnd : next.programCounter.toNat ≠ ramSize) : next.Running := by
  have timer := ticked.timer
  rw [if_neg notEnd] at timer
  have kept : instruction.timerAfter w.fetched = w.mainProcessTimer := by
    cases instruction with
    | waitKey x => exact absurd rfl (notWait x)
    | _ => rfl
  exact (timer.trans kept).trans running

/-- The instructions of a loop's control write no register but `Vx`. -/
inductive Controls (x : Fin 16) : Instruction → Prop where
  | read : Controls x (.readDelay x)
  | count (kk : Byte) : Controls x (.addByte x kk)
  | test (kk : Byte) : Controls x (.skipIfByte x kk)
  | jump (target : DByte) : Controls x (.jump target)

theorem control_completes (controls : Controls x instruction) (w : World) (inputs : TickInputs) :
    ∃ executed, execute inputs w instruction = .ok executed := by
  cases controls <;> exact ⟨_, rfl⟩

theorem control_same (controls : Controls x instruction) (ticked : Ticked inputs w instruction next) :
    SameBut x w next := by
  have registers (y : Fin 16) (other : y ≠ x) : next.vRegisters y = w.vRegisters y := by
    refine ticked.registers_elsewhere ?_
    cases controls with
    | read | count => exact fun written => other (List.mem_singleton.mp written)
    | test | jump => exact List.not_mem_nil
  have index := ticked.indexRegister
  have stack := ticked.stackPointer
  have ram := ticked.ram
  have picture := ticked.frameBuffer
  have latch := ticked.latch
  cases controls <;>
    exact ⟨⟨index, stack, ram, picture, latch, ticked.lastTime, ticked.lastActiveKey, ticked.keyStatuses⟩, registers⟩

/-- Where an instruction that is no wait and keeps the code leads. -/
theorem at_next {code : Code} (place : At code k w) (notWait : ∀ x, instruction ≠ .waitKey x)
    (ticked : Ticked inputs w instruction next) (kept : Stored next.ram code.base (assemble code.program))
    (target : next.programCounter.toNat = code.base + 2 * j) (within : j ≤ code.program.length) : At code j next := by
  have room := code.inside
  refine ⟨ticked_running place.running notWait ticked ?_, kept, target⟩
  change next.programCounter.toNat ≠ 4096
  omega

theorem control_at {code : Code} (controls : Controls x instruction) (place : At code k w)
    (ticked : Ticked inputs w instruction next) (target : next.programCounter.toNat = code.base + 2 * j)
    (within : j ≤ code.program.length) : At code j next := by
  have ram := (control_same controls ticked).ram
  refine at_next place ?_ ticked (ram ▸ place.placed) target within
  rintro y rfl
  cases controls

theorem test_target (ticked : Ticked inputs w (.skipIfByte x kk) next) :
    next.programCounter.toNat = w.programCounter.toNat + if w.vRegisters x = kk then 4 else 2 := by
  rw [ticked.programCounter]
  exact skip_target ticked.fits (w.vRegisters x = kk)

theorem straight_target (ticked : Ticked inputs w instruction next)
    (straight : instruction.programCounterAfter w.fetched = w.fetched.programCounter) :
    next.programCounter.toNat = w.programCounter.toNat + 2 := by
  rw [ticked.programCounter, straight]
  exact next_word ticked.fits

/-- The next place, where the instruction goes straight on. -/
theorem straight_at {code : Code} (place : At code k w) (found : code.program[k]? = some instruction)
    (notWait : ∀ x, instruction ≠ .waitKey x)
    (straight : instruction.programCounterAfter w.fetched = w.fetched.programCounter)
    (ticked : Ticked inputs w instruction next) (kept : Stored next.ram code.base (assemble code.program)) :
    At code (k + 1) next := by
  obtain ⟨within, _⟩ := List.getElem?_eq_some_iff.mp found
  have counter := place.counter
  have target := straight_target ticked straight
  exact at_next place notWait ticked kept (by omega) within

/-- A tick that sets no delay makes it no longer. -/
theorem delay_not_longer (ticked : Ticked inputs w instruction next)
    (notSet : instruction.delayTimerAfter w.fetched = w.delayTimer) :
    next.delayTimer.toNat ≤ w.delayTimer.toNat := by
  have timer := ticked.delayTimer
  rw [notSet] at timer
  omega

/-! ## Loops -/

section Loops
variable {keys : QtKeys} {admissible : TickInputs → Prop} {goal : World → Prop} {code : Code} {x : Fin 16}

/-- An instruction of a loop's control that goes on to the next one. -/
theorem straight_leads (place : At code k w) (found : code.program[k]? = some instruction)
    (controls : Controls x instruction) (straight : ∀ v, instruction.programCounterAfter v = v.programCounter)
    (leads : ∀ inputs next, admissible inputs → Ticked inputs w instruction next → At code (k + 1) next →
      SameBut x w next → Reaches keys admissible goal n next) : Reaches keys admissible goal (n + 1) w := by
  refine reaches_instruction place found (control_completes controls _) ?_
  intro inputs next reads ticked
  have target := straight_target ticked (straight w.fetched)
  have here := place.counter
  obtain ⟨within, _⟩ := List.getElem?_eq_some_iff.mp found
  exact leads inputs next reads ticked (control_at controls place ticked (by omega) within)
    (control_same controls ticked)

/-- The end of a loop, `3x00; 1nnn`: out where `Vx` is zero, else round again. -/
theorem loop_end_leads {start : DByte} (place : At code k w) (test : code.program[k]? = some (.skipIfByte x 0))
    (back : code.program[k + 1]? = some (.jump start)) (entry : start.toNat = code.base + 2 * j) (earlier : j ≤ k) :
    Reaches keys admissible (fun v => SameBut x w v ∧ v.vRegisters x = w.vRegisters x ∧
      v.delayTimer.toNat ≤ w.delayTimer.toNat ∧
      if w.vRegisters x = 0 then At code (k + 2) v else At code j v) 2 w := by
  have here := place.counter
  obtain ⟨within, _⟩ := List.getElem?_eq_some_iff.mp back
  refine reaches_instruction place test (control_completes (.test 0) _) ?_
  intro first v _ ticked
  have target := test_target ticked
  have same := control_same (.test 0) ticked
  have register : v.vRegisters x = w.vRegisters x := ticked.registers_elsewhere List.not_mem_nil
  have delay := delay_not_longer ticked rfl
  by_cases zero : w.vRegisters x = 0
  · rw [if_pos zero] at target
    refine leads_now ⟨same, register, delay, ?_⟩
    rw [if_pos zero]
    exact control_at (.test 0) place ticked (by omega) within
  · rw [if_neg zero] at target
    have next : At code (k + 1) v := control_at (.test 0) place ticked (by omega) (Nat.le_of_lt within)
    refine reaches_instruction next back (control_completes (x := x) (.jump start) _) ?_
    intro second u _ jumped
    have arrives : u.programCounter = start := jumped.programCounter
    refine leads_now ⟨same.trans (control_same (.jump start) jumped), ?_, ?_, ?_⟩
    · exact (jumped.registers_elsewhere List.not_mem_nil).trans register
    · exact Nat.le_trans (delay_not_longer jumped rfl) delay
    · rw [if_neg zero]
      exact control_at (x := x) (.jump start) next jumped (by rw [arrives, entry]) (by omega)

end Loops

/-! ## Waiting for the delay timer -/

/-- The sixtieths since `since` are one or more, as far as sixteen bits count them. -/
def Timely (since : Time) (inputs : TickInputs) : Prop := 1 ≤ (sixtieths (inputs.now - since)).toNat

/-- `Fx07; 3x00; 1nnn` at `base`. -/
def delayWait (x : Fin 16) (base : DByte) (room : base.toNat + 6 < 4096) : Code where
  program := [.readDelay x, .skipIfByte x 0, .jump base]
  base := base.toNat
  fits := by
    intro instruction member
    simp only [List.mem_cons, List.not_mem_nil, or_false] at member
    rcases member with rfl | rfl | rfl
    · trivial
    · trivial
    · exact Nat.lt_of_le_of_lt (Nat.le_add_right _ 6) room
  inside := room

theorem read_delay (ticked : Ticked inputs w (.readDelay x) next) :
    next.vRegisters x = w.delayTimer.setWidth 8 := by
  obtain ⟨executed, effect, rfl⟩ := ticked.executes
  cases effect
  exact write_same w.fetched x _

section DelayWait
variable (keys : QtKeys) {x : Fin 16} {base : DByte} {room : base.toNat + 6 < 4096}

/-- One round: the wait is over, or the delay is shorter. -/
theorem delay_wait_round {start : World} (place : At (delayWait x base room) 0 w) (same : SameBut x start w) :
    Reaches keys (Timely start.lastTime)
      (fun v => (At (delayWait x base room) 3 v ∧ v.vRegisters x = 0 ∧ SameBut x start v) ∨
        ∃ shorter < w.delayTimer.toNat, At (delayWait x base room) 0 v ∧ SameBut x start v ∧
          v.delayTimer.toNat = shorter) 3 w := by
  refine straight_leads place rfl .read (fun _ => rfl) ?_
  intro inputs v timely ticked tested sameRead
  have read := read_delay ticked
  have timer : v.delayTimer.toNat = w.delayTimer.toNat - (sixtieths (inputs.now - w.lastTime)).toNat :=
    ticked.delayTimer
  rw [same.since] at timer
  refine leads_mono ?_ (loop_end_leads tested rfl rfl (Nat.add_zero _).symm (Nat.zero_le 1))
  rintro u ⟨sameEnd, register, delay, leads⟩
  have kept := same.trans (sameRead.trans sameEnd)
  by_cases zero : v.vRegisters x = 0
  · rw [if_pos zero] at leads
    exact .inl ⟨leads, register.trans zero, kept⟩
  · rw [if_neg zero] at leads
    have positive : w.delayTimer.toNat ≠ 0 := by
      intro none
      apply zero
      rw [read, BitVec.eq_of_toNat_eq (y := 0#16) none]
      rfl
    unfold Timely at timely
    exact .inr ⟨u.delayTimer.toNat, by omega, leads, kept, rfl⟩

/-- However the clock goes on, as long as no tick counts zero sixtieths since
the machine was made, as it does in the first one and whenever sixteen bits have
come round, a wait for the delay timer is over after three ticks for each count
and three more, with nothing changed but the register it reads into. -/
theorem delay_wait_ends {w : World} (place : At (delayWait x base room) 0 w) (inputs : Nat → TickInputs)
    (timely : ∀ i, Timely w.lastTime (inputs i)) :
    ∃ m ≤ 3 * (w.delayTimer.toNat + 1), ∃ v,
      Run (step keys) Live w ((List.range m).map fun i => .tick (inputs i)) v ∧ v.Running ∧
      v.programCounter.toNat = base.toNat + 6 ∧ v.vRegisters x = 0 ∧ SameBut x w v := by
  have leads : Reaches keys (Timely w.lastTime)
      (fun v => At (delayWait x base room) 3 v ∧ v.vRegisters x = 0 ∧ SameBut x w v)
      (3 * (w.delayTimer.toNat + 1)) w := by
    refine leads_loop (fun d v => At (delayWait x base room) 0 v ∧ SameBut x w v ∧ v.delayTimer.toNat = d) ?_
      ⟨place, .refl x w, rfl⟩
    rintro _ v ⟨place, same, rfl⟩
    exact delay_wait_round keys place same
  obtain ⟨m, bound, v, run, ends, zero, same⟩ := leads_run leads (fun i => .tick (inputs i))
    fun i => ⟨inputs i, rfl, timely i⟩
  exact ⟨m, bound, v, run, ends.running, ends.counter, zero, same⟩

/-- A delay of five is waited for within eighteen ticks. -/
theorem delay_wait_ends_five : ∃ m ≤ 18, ∃ v : World, v.programCounter.toNat = 0x206 ∧ v.vRegisters 3 = 0 ∧
    Run (step .latin) Live
      { (World.loaded (.construct 0) [0xF3, 0x07, 0x33, 0x00, 0x12, 0x00]).startTimer with delayTimer := 5 }
      (List.replicate m (.tick (.reading 20000000))) v := by
  have place : At (delayWait 3 0x200 (by decide)) 0
      { (World.loaded (.construct 0) [0xF3, 0x07, 0x33, 0x00, 0x12, 0x00]).startTimer with delayTimer := 5 } := by
    refine ⟨rfl, ?_, rfl⟩
    exact Loading.loaded_contents (.construct 0) (by decide)
  obtain ⟨m, bound, v, run, _, counter, zero, _⟩ := delay_wait_ends .latin place
    (fun _ => .reading 20000000) (fun _ => show 1 ≤ (sixtieths (20000000 - 0)).toNat by decide)
  rw [List.map_const', List.length_range] at run
  exact ⟨m, bound, v, counter, zero, run⟩

end DelayWait

/-! ## Counting down -/

section CountedLoop
variable {x : Fin 16}

/-- `body; 7xFF; 3x00; 1nnn` at `base`. -/
def countedLoop (body : List Instruction) (x : Fin 16) (base : DByte) (fits : ∀ instruction ∈ body, Fits instruction)
    (room : base.toNat + 2 * (body.length + 3) < 4096) : Code where
  program := body ++ [.addByte x 0xFF, .skipIfByte x 0, .jump base]
  base := base.toNat
  fits := by
    intro instruction member
    simp only [List.mem_append, List.mem_cons, List.not_mem_nil, or_false] at member
    rcases member with inBody | rfl | rfl | rfl
    · exact fits instruction inBody
    · trivial
    · trivial
    · exact show base.toNat < 0x1000 by omega
  inside := by simpa using room

theorem add_byte (ticked : Ticked inputs w (.addByte x kk) next) : next.vRegisters x = w.vRegisters x + kk := by
  obtain ⟨executed, effect, rfl⟩ := ticked.executes
  cases effect
  exact write_same w.fetched x _

/-- A loop that counts `Vx` down: where its body takes `invariant (n + 1)` to
`invariant n` and leaves `Vx` alone, and the invariant does not depend on `Vx`,
the place or the clocks, the loop takes `invariant n` with `n` in `Vx`, one or
more, to `invariant 0`, behind the loop. -/
theorem counted_loop_ends (keys : QtKeys) (admissible : TickInputs → Prop) (invariant : Nat → World → Prop)
    {body : List Instruction} {base : DByte} {fits : ∀ instruction ∈ body, Fits instruction}
    {room : base.toNat + 2 * (body.length + 3) < 4096} {n round : Nat} {w : World}
    (stable : ∀ n w v, SameBut x w v → invariant n w → invariant n v)
    (bodyLeads : ∀ n w, At (countedLoop body x base fits room) 0 w → (w.vRegisters x).toNat = n + 1 →
      invariant (n + 1) w → Reaches keys admissible (fun v => At (countedLoop body x base fits room) body.length v ∧
        (v.vRegisters x).toNat = n + 1 ∧ invariant n v) round w)
    (place : At (countedLoop body x base fits room) 0 w) (count : (w.vRegisters x).toNat = n + 1)
    (holds : invariant (n + 1) w) :
    Reaches keys admissible (fun v => At (countedLoop body x base fits room) (body.length + 3) v ∧
      v.vRegisters x = 0 ∧ invariant 0 v) ((round + 3) * (n + 1)) w := by
  refine leads_loop (fun n v => At (countedLoop body x base fits room) 0 v ∧ (v.vRegisters x).toNat = n + 1 ∧
    invariant (n + 1) v) ?_ ⟨place, count, holds⟩
  rintro n v ⟨place, count, holds⟩
  refine leads_then (bodyLeads n v place count holds) ?_
  rintro u ⟨counts, count, holds⟩
  have tail (i : Nat) (inTail : i < 3) : (countedLoop body x base fits room).program[body.length + i]? =
      [Instruction.addByte x 0xFF, .skipIfByte x 0, .jump base][i]? := by
    change (body ++ _)[body.length + i]? = _
    rw [List.getElem?_append_right (Nat.le_add_right _ _), Nat.add_sub_cancel_left]
  refine straight_leads counts (tail 0 (by decide)) (.count 0xFF) (fun _ => rfl) ?_
  intro inputs t _ ticked tested same
  have counted : (t.vRegisters x).toNat = n := by
    rw [add_byte ticked, BitVec.toNat_add, count]
    have small := (u.vRegisters x).isLt
    change (n + 1 + 255) % 256 = n
    omega
  refine leads_mono ?_ (loop_end_leads tested (tail 1 (by decide)) (tail 2 (by decide)) (Nat.add_zero _).symm
    (Nat.zero_le _))
  rintro s ⟨sameEnd, register, _, leads⟩
  have reached : invariant n s := stable n u s (same.trans sameEnd) holds
  by_cases zero : t.vRegisters x = 0
  · rw [if_pos zero] at leads
    have none : n = 0 := by rw [← counted, zero]; rfl
    exact .inl ⟨leads, register.trans zero, none ▸ reached⟩
  · rw [if_neg zero] at leads
    obtain ⟨fewer, rfl⟩ : ∃ fewer, n = fewer + 1 := by
      refine Nat.exists_eq_succ_of_ne_zero fun none => zero (BitVec.eq_of_toNat_eq ?_)
      rw [counted, none]
      rfl
    exact .inr ⟨fewer, Nat.lt_succ_self fewer, leads, by rw [register, counted], reached⟩

/-- Three added four times, within sixteen ticks. -/
theorem counted_loop_ends_four : Reaches .latin (fun _ => True) (fun v => v.vRegisters 1 = 12) 16
    { (World.loaded (.construct 0) [0x71, 0x03, 0x70, 0xFF, 0x30, 0x00, 0x12, 0x00]).startTimer with
      vRegisters := fun i => if i = 0 then 4 else 0 } := by
  have place : At (countedLoop [.addByte 1 3] 0 0x200 (by decide) (by decide)) 0
      { (World.loaded (.construct 0) [0x71, 0x03, 0x70, 0xFF, 0x30, 0x00, 0x12, 0x00]).startTimer with
        vRegisters := fun i => if i = 0 then 4 else 0 } := by
    refine ⟨rfl, ?_, rfl⟩
    exact Loading.loaded_contents (.construct 0) (by decide)
  have ends : Reaches .latin (fun _ => True) _ ((1 + 3) * (3 + 1)) _ := counted_loop_ends .latin (fun _ => True)
    (fun left v => (v.vRegisters 1).toNat + 3 * left = 12) ?_ ?_ place rfl rfl
  · refine leads_mono ?_ ends
    rintro v ⟨_, _, sum⟩
    exact BitVec.eq_of_toNat_eq sum
  · intro left w v same sum
    rw [same.registers 1 (by decide)]
    exact sum
  · intro left w place count sum
    refine straight_leads (x := 1) place rfl (.count 3) (fun _ => rfl) ?_
    intro inputs v _ ticked next same
    refine leads_now ⟨next, ?_, ?_⟩
    · rw [same.registers 0 (by decide)]
      exact count
    · rw [add_byte ticked, BitVec.toNat_add]
      change ((w.vRegisters 1).toNat + 3) % 256 + 3 * left = 12
      omega

end CountedLoop

/-! ## Subroutines -/

/-- Where a return finds the address a call pushed, and the pointer is where
the call left it. -/
structure AtReturn (caller u : World) : Prop where
  running : u.Running
  low : u.programCounter.toNat ≤ 4094
  decoded : decode u.opcodeAt = some .ret
  pointer : u.stackPointer = caller.stackPointer + 2
  high : u.ram (stackCell (caller.stackPointer + 1)) = highByte (caller.programCounter + 2)
  lower : u.ram (stackCell (caller.stackPointer + 2)) = lowByte (caller.programCounter + 2)

theorem return_address (caller : World) (low : caller.programCounter.toNat ≤ 0xFFC) (at_return : AtReturn caller u) :
    u.poppedAddress = caller.programCounter + 2 := by
  have below : u.stackPointer - 1 = caller.stackPointer + 1 := by
    rw [at_return.pointer]
    bv_omega
  have cell (pointer : Byte) : readAt u.ram pointer.toNat = u.ram (stackCell pointer) :=
    read_at_of_lt u.ram (stackCell pointer).isLt
  rw [World.poppedAddress, below, at_return.pointer, cell, cell, at_return.high, at_return.lower]
  exact pushed_address_low low

/-- A call comes back behind itself with its stack pointer, where the subroutine
leads to a return with the pushed address in place. -/
theorem call_returns (keys : QtKeys) (admissible : TickInputs → Prop) (post : World → Prop) {w : World}
    {target : DByte} {n : Nat} (running : w.Running) (low : w.programCounter.toNat ≤ 0xFFC)
    (decoded : decode w.opcodeAt = some (.call target))
    (subroutine : ∀ inputs entry, admissible inputs → Ticked inputs w (.call target) entry →
      Reaches keys admissible (fun u => AtReturn w u ∧ post u) n entry) :
    Reaches keys admissible (fun v => v.Running ∧ v.programCounter = w.programCounter + 2 ∧
      v.stackPointer = w.stackPointer ∧ ∃ u inputs, post u ∧ Ticked inputs u .ret v) (n + 2) w := by
  refine reaches_decoded running (by omega) decoded (fun _ => ⟨_, rfl⟩) ?_
  intro inputs entry reads called
  refine leads_then (subroutine inputs entry reads called) ?_
  rintro u ⟨back, after⟩
  refine reaches_decoded back.running back.low back.decoded (fun _ => ⟨_, rfl⟩) ?_
  intro second v _ returned
  have popped : v.programCounter = u.poppedAddress := returned.programCounter
  have arrives : v.programCounter = w.programCounter + 2 := popped.trans (return_address w low back)
  have pointer : v.stackPointer = w.stackPointer := by
    have popped : v.stackPointer = u.stackPointer - 2 := returned.stackPointer
    rw [popped, back.pointer]
    bv_omega
  have inside : v.programCounter.toNat ≠ ramSize := by
    have next := next_word (w := w) (by omega)
    rw [arrives, next]
    change w.programCounter.toNat + 2 ≠ 4096
    omega
  have goesOn := ticked_running back.running (fun _ => Instruction.noConfusion) returned inside
  exact leads_now ⟨goesOn, arrives, pointer, u, second, after, returned⟩

/-- A running machine with `2204`, and `6005; 00EE` two words on. -/
def callsSetter : World :=
  (World.loaded (.construct 0) [0x22, 0x04, 0x00, 0x00, 0x60, 0x05, 0x00, 0xEE]).startTimer

/-- The caller gets what the subroutine left in `V0`. -/
theorem call_returns_five : Reaches .latin (fun _ => True)
    (fun v => v.programCounter = 0x202 ∧ v.vRegisters 0 = 5) 3 callsSetter := by
  have running : callsSetter.Running := rfl
  have decoded : decode callsSetter.opcodeAt = some (.call 0x204) := by decide
  have returns : Reaches .latin (fun _ => True) _ (1 + 2) _ :=
    call_returns .latin (fun _ => True) (fun u => u.vRegisters 0 = 5) running (by decide) decoded ?_
  · refine leads_mono ?_ returns
    rintro v ⟨_, arrives, _, u, inputs, five, returned⟩
    exact ⟨arrives, (returned.registers_elsewhere nofun).trans five⟩
  · intro inputs entry _ called
    have counter : entry.programCounter = 0x204 := called.programCounter
    have entered : entry.Running := ticked_running running (fun _ => Instruction.noConfusion) called (by
      rw [counter]
      decide)
    have sets : decode entry.opcodeAt = some (.setByte 0 5) := by
      rw [World.opcodeAt, called.ram, counter]
      decide
    refine reaches_decoded entered ?_ sets (fun _ => ⟨_, rfl⟩) ?_
    · rw [counter]
      decide
    · intro second u _ set
      have moved : u.programCounter = entry.programCounter + 2 := set.programCounter
      have next : u.programCounter = 0x206 := by
        rw [moved, counter]
        rfl
      have ram : u.ram = _ := set.ram.trans called.ram
      have five : u.vRegisters 0 = 5 := by
        obtain ⟨executed, effect, rfl⟩ := set.executes
        cases effect
        rfl
      have goesOn : u.Running := ticked_running entered (fun _ => Instruction.noConfusion) set (by
        rw [next]
        decide)
      refine leads_now ⟨⟨goesOn, ?_, ?_, set.stackPointer.trans called.stackPointer, ?_, ?_⟩, five⟩
      · rw [next]
        decide
      · rw [World.opcodeAt, ram, next]
        decide
      · rw [ram]
        decide
      · rw [ram]
        decide

end Chip8Emulator.ProgramLogic
