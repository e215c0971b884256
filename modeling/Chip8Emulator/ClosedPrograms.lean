import Chip8Emulator.ProgramImage
import Chip8Emulator.FaultCharacterisation

/-! Closed programs: every address the code names is the place of one of its
words, and wherever execution may fall or skip to there is a word. While such a
program stays off its own words and off the pending calls and no other file is
loaded, whatever the keys and clocks do, the machine is at one of its words at
every tick and never meets an opcode it aborts at. -/
namespace Chip8Emulator.ClosedPrograms
open Foundations.Loops Foundations.Memory Foundations.Runs FaultCharacterisation CallStack ProgramImage

/-- The place of one of the first `count` words of a program. -/
def Inside (count address : Nat) : Prop := ∃ k < count, address = 0x200 + 2 * k

instance (count address : Nat) : Decidable (Inside count address) := inferInstanceAs (Decidable (∃ _, _ ∧ _))

/-- Where the `k`-th of `count` instructions may lead by itself is a place. A
call needs a word to come back to. -/
def Closes (count k : Nat) : Instruction → Prop
  | .jump target => Inside count target.toNat
  | .call target => Inside count target.toNat ∧ k + 1 < count
  | .ret | .jumpOffset _ => True
  | .skipIfByte _ _ | .skipUnlessByte _ _ | .skipIfSame _ _ | .skipUnlessSame _ _ => k + 2 < count
  | .skipIfKey _ | .skipUnlessKey _ => k + 2 < count
  | _ => k + 1 < count

instance (count k : Nat) : ∀ instruction, Decidable (Closes count k instruction)
  | .jump _ => inferInstanceAs (Decidable (Inside _ _))
  | .call _ => inferInstanceAs (Decidable (Inside _ _ ∧ _))
  | .ret | .jumpOffset _ => isTrue trivial
  | .skipIfByte _ _ | .skipUnlessByte _ _ | .skipIfSame _ _ | .skipUnlessSame _ _ | .skipIfKey _ | .skipUnlessKey _ =>
    inferInstanceAs (Decidable (k + 2 < count))
  | .nop | .clear | .setByte _ _ | .addByte _ _ | .copy _ _ | .or _ _ | .and _ _ | .xor _ _ | .add _ _ | .sub _ _
  | .shiftRight _ | .subFrom _ _ | .shiftLeft _ | .setIndex _ | .random _ _ | .draw _ _ _ | .readDelay _ | .waitKey _
  | .setDelay _ | .addIndex _ | .glyph _ | .bcd _ | .save _ | .restore _ =>
    inferInstanceAs (Decidable (k + 1 < count))

/-- A program none of whose words leads out of it. -/
structure ClosedProgram where
  program : List Instruction
  fits : ∀ instruction ∈ program, Fits instruction
  inhabited : 0 < program.length
  closed : ∀ k (within : k < program.length), Closes program.length k program[k]

/-- The address a jump offset by `V0` leads to. -/
def offsetTargets (w : World) : Instruction → List Nat
  | .jumpOffset base => [(w.offsetTarget base).toNat]
  | _ => []

/-- What a program has to see to at run time: no other file, the stack in its
region, stores and offset jumps where they belong. -/
structure Behaves (count : Nat) (p : World × Pending) (event : Event) : Prop where
  noLoad : ¬ event.loads
  stack : StackSafe p event
  stores : StoresOutside (2 * count) p.1 event
  offsets : ∀ instruction, event.instruction p.1 = some instruction →
    ∀ target ∈ offsetTargets p.1 instruction, Inside count target

instance (count : Nat) (p : World × Pending) (event : Event) : Decidable (Behaves count p event) :=
  decidable_of_iff ((¬ event.loads) ∧ StackSafe p event ∧ StoresOutside (2 * count) p.1 event ∧
      ∀ instruction ∈ event.instruction p.1, ∀ target ∈ offsetTargets p.1 instruction, Inside count target)
    ⟨fun ⟨noLoad, stack, stores, offsets⟩ => ⟨noLoad, stack, stores, offsets⟩,
      fun ⟨noLoad, stack, stores, offsets⟩ => ⟨noLoad, stack, stores, offsets⟩⟩

/-- The machine is at a word of the program, and so will every return be. -/
structure AtWord (code : ClosedProgram) (w : World) (pending : Pending) : Prop where
  stack : StackHolds w pending
  image : Stored w.ram 0x200 (assemble code.program)
  place : Inside code.program.length w.programCounter.toNat
  returns : ∀ call ∈ pending, Inside (code.program.length - 1) call.toNat

section Step
variable {code : ClosedProgram} {w next : World} {pending : Pending} (room : 2 * code.program.length ≤ 3584)
include room

/-- The instruction a tick executes is the one at the word. -/
theorem executed_word (image : Stored w.ram 0x200 (assemble code.program)) (ticked : Ticked inputs w instruction next)
    (place : w.programCounter.toNat = 0x200 + 2 * k) (within : k < code.program.length) :
    Closes code.program.length k instruction := by
  obtain ⟨decoded, _⟩ := process_at_image code.fits room image within place inputs
  obtain rfl : instruction = code.program[k] := Option.some.inj (ticked.decoded.symm.trans decoded)
  exact code.closed k within

/-- A return goes to the word after its call. -/
theorem return_inside (at_word : AtWord code w (call :: pending)) :
    Inside code.program.length w.poppedAddress.toNat := by
  obtain ⟨k, within, place⟩ := at_word.returns call List.mem_cons_self
  have low : call.toNat ≤ 0xFFC := by omega
  have past : (call + 2).toNat = call.toNat + 2 := BitVec.toNat_add_of_lt (show call.toNat + 2 < 65536 by omega)
  rw [popped_pending at_word.stack, pushed_address_low low, past]
  exact ⟨k + 1, by omega, by omega⟩

/-- Every tick leads from word to word. -/
theorem word_to_word (at_word : AtWord code w pending)
    (behaves : Behaves code.program.length (w, pending) (.tick inputs)) (ticked : Ticked inputs w instruction next) :
    Inside code.program.length next.programCounter.toNat := by
  obtain ⟨k, within, place⟩ := at_word.place
  have closes := executed_word room at_word.image ticked place within
  have target := ticked.programCounter
  have straight (fits : k + 1 < code.program.length) (falls : next.programCounter = w.programCounter + 2) :
      Inside code.program.length next.programCounter.toNat :=
    ⟨k + 1, fits, by rw [falls, next_word ticked.fits, place]; omega⟩
  have skip (fits : k + 2 < code.program.length) (condition : Prop) [Decidable condition]
      (skips : next.programCounter = (w.fetched.skipWhen condition).programCounter) :
      Inside code.program.length next.programCounter.toNat := by
    rw [skips, skip_target ticked.fits, place]
    split
    · exact ⟨k + 2, fits, by omega⟩
    · exact ⟨k + 1, by omega, by omega⟩
  cases instruction with
  | jump address =>
    rw [target]
    exact closes
  | call address =>
    rw [target]
    exact closes.1
  | ret =>
    obtain ⟨_, depth, _⟩ := behaves.stack .ret ticked.decoded
    cases pending with
    | nil => exact absurd (depth rfl) (Nat.lt_irrefl 0)
    | cons call pending =>
      rw [target]
      exact return_inside (w := w) room at_word
  | jumpOffset base =>
    rw [target]
    exact behaves.offsets _ ticked.decoded _ List.mem_cons_self
  | skipIfByte x kk | skipUnlessByte x kk | skipIfSame x y | skipUnlessSame x y | skipIfKey x | skipUnlessKey x =>
    exact skip closes _ target
  | _ => exact straight closes target

/-- A call is recorded with a word behind it. -/
theorem recorded_inside (at_word : AtWord code w pending) (ticked : Ticked inputs w instruction next) :
    ∀ call ∈ pendingAfter w.programCounter pending instruction, Inside (code.program.length - 1) call.toNat := by
  obtain ⟨k, within, place⟩ := at_word.place
  have closes := executed_word room at_word.image ticked place within
  cases instruction with
  | call target =>
    obtain ⟨_, behind⟩ := closes
    exact List.forall_mem_cons.mpr ⟨⟨k, by omega, place⟩, at_word.returns⟩
  | ret => exact fun call member => at_word.returns call (List.mem_of_mem_tail member)
  | _ => exact at_word.returns

theorem at_word_step (at_word : AtWord code w pending) (behaves : Behaves code.program.length (w, pending) event)
    (stepped : step keys w event = some next) : AtWord code next (recordCalls pending w event) := by
  have stack := stack_step at_word.stack behaves.stack stepped
  have image := (image_step_iff at_word.image behaves.noLoad stepped).mpr (stores_match behaves.stores)
  rcases step_cases stepped with ⟨inputs, instruction, rfl, executed, ticked⟩ | ⟨_, rfl, _⟩ | ⟨silent, _, _, kept⟩
  · refine ⟨stack, image, word_to_word room at_word behaves ticked, ?_⟩
    simp only [recordCalls, executed]
    exact recorded_inside room at_word ticked
  · exact absurd rfl behaves.noLoad
  · refine ⟨stack, image, ?_, ?_⟩
    · rw [kept.programCounter]
      exact at_word.place
    · simp only [recordCalls, silent]
      exact at_word.returns

end Step

/-- No instruction aborts, only opcodes that are none do. -/
theorem instruction_never_aborts (inputs : TickInputs) (w : World) (instruction : Instruction) :
    (execute inputs w instruction).map (World.finish · inputs) ≠ .error .abort := by
  intro aborted
  cases effect : execute inputs w instruction with
  | ok executed =>
    rw [effect] at aborted
    contradiction
  | error fault =>
    rw [effect] at aborted
    cases aborted
    rcases (execute_faults inputs w instruction).2 .abort effect with ram | key
    · contradiction
    · contradiction

/-- The end of a tick does not fail. -/
theorem finished_faults_iff (inputs : TickInputs) (w : World) (instruction : Instruction) :
    (∃ fault, (execute inputs w.fetched instruction).map (World.finish · inputs) = .error fault) ↔
      Faults w instruction := by
  have boundary : Faults w.fetched instruction ↔ Faults w instruction := by
    cases instruction <;> exact Iff.rfl
  rw [← boundary, ← (execute_faults inputs w.fetched instruction).1]
  cases execute inputs w.fetched instruction with
  | ok executed => simp [Except.map]
  | error fault => simp [Except.map]

/-- `2204; 1202; 00EE`: a call of the last word, then round and round. -/
def callThenSpin : ClosedProgram where
  program := [.call 0x204, .jump 0x202, .ret]
  fits := by decide
  inhabited := by decide
  closed := by decide

end Chip8Emulator.ClosedPrograms
