import Chip8Emulator.Loading
import Chip8Emulator.CallStack

/-! A program in memory. Every instruction whose operands fit its digits has an
opcode; a loaded program keeps its bytes as long as it does not store other
ones over them, since the call stack cannot reach them; and then each tick
executes the instruction that was written at its place. -/
namespace Chip8Emulator.ProgramImage
open Foundations.Loops Foundations.Memory Foundations.Runs Foundations.WordDigits CallStack

/-! ## Opcodes -/

/-- A leading digit and an address. -/
def addressWord (lead : Nat) (address : DByte) : DByte := BitVec.ofNat 16 (lead * 0x1000 + address.toNat)

/-- A leading digit, a register and a byte. -/
def byteWord (lead : Nat) (x : Fin 16) (kk : Byte) : DByte :=
  BitVec.ofNat 16 (lead * 0x1000 + x.val * 0x100 + kk.toNat)

/-- A leading digit, two registers and a last digit. -/
def registersWord (lead : Nat) (x y : Fin 16) (last : Nat) : DByte :=
  BitVec.ofNat 16 (lead * 0x1000 + x.val * 0x100 + y.val * 0x10 + last)

/-- An opcode of the instruction, with zero for the digits it ignores. -/
def encode : Instruction → DByte
  | .nop => 0x0000
  | .clear => 0x00E0
  | .ret => 0x00EE
  | .jump target => addressWord 0x1 target
  | .call target => addressWord 0x2 target
  | .skipIfByte x kk => byteWord 0x3 x kk
  | .skipUnlessByte x kk => byteWord 0x4 x kk
  | .skipIfSame x y => registersWord 0x5 x y 0x0
  | .setByte x kk => byteWord 0x6 x kk
  | .addByte x kk => byteWord 0x7 x kk
  | .copy x y => registersWord 0x8 x y 0x0
  | .or x y => registersWord 0x8 x y 0x1
  | .and x y => registersWord 0x8 x y 0x2
  | .xor x y => registersWord 0x8 x y 0x3
  | .add x y => registersWord 0x8 x y 0x4
  | .sub x y => registersWord 0x8 x y 0x5
  | .shiftRight x => registersWord 0x8 x v0 0x6
  | .subFrom x y => registersWord 0x8 x y 0x7
  | .shiftLeft x => registersWord 0x8 x v0 0xE
  | .skipUnlessSame x y => registersWord 0x9 x y 0x0
  | .setIndex value => addressWord 0xA value
  | .jumpOffset base => addressWord 0xB base
  | .random x kk => byteWord 0xC x kk
  | .draw x y n => registersWord 0xD x y n
  | .skipIfKey x => byteWord 0xE x 0x9E
  | .skipUnlessKey x => byteWord 0xE x 0xA1
  | .readDelay x => byteWord 0xF x 0x07
  | .waitKey x => byteWord 0xF x 0x0A
  | .setDelay x => byteWord 0xF x 0x15
  | .addIndex x => byteWord 0xF x 0x1E
  | .glyph x => byteWord 0xF x 0x29
  | .bcd x => byteWord 0xF x 0x33
  | .save x => byteWord 0xF x 0x55
  | .restore x => byteWord 0xF x 0x65

/-- The operands have as many digits as an opcode leaves them. -/
def Fits : Instruction → Prop
  | .jump target | .call target => target.toNat < 0x1000
  | .setIndex value => value.toNat < 0x1000
  | .jumpOffset base => base.toNat < 0x1000
  | .draw _ _ n => n < 16
  | _ => True

instance : ∀ instruction, Decidable (Fits instruction)
  | .jump _ | .call _ | .setIndex _ | .jumpOffset _ | .draw _ _ _ => inferInstanceAs (Decidable (_ < _))
  | .nop | .clear | .ret | .skipIfByte _ _ | .skipUnlessByte _ _ | .skipIfSame _ _ | .setByte _ _ | .addByte _ _
  | .copy _ _ | .or _ _ | .and _ _ | .xor _ _ | .add _ _ | .sub _ _ | .shiftRight _ | .subFrom _ _ | .shiftLeft _
  | .skipUnlessSame _ _ | .random _ _ | .skipIfKey _ | .skipUnlessKey _ | .readDelay _ | .waitKey _ | .setDelay _
  | .addIndex _ | .glyph _ | .bcd _ | .save _ | .restore _ => isTrue trivial

section Words
variable {lead : Nat} (led : lead < 16)
include led

theorem address_word_toNat {address : DByte} (fits : address.toNat < 0x1000) :
    (addressWord lead address).toNat = lead * 0x1000 + address.toNat := by
  rw [addressWord, BitVec.toNat_ofNat]
  omega

theorem byte_word_toNat (x : Fin 16) (kk : Byte) :
    (byteWord lead x kk).toNat = lead * 0x1000 + x.val * 0x100 + kk.toNat := by
  rw [byteWord, BitVec.toNat_ofNat]
  omega

theorem registers_word_toNat (x y : Fin 16) {last : Nat} (fits : last < 16) :
    (registersWord lead x y last).toNat = lead * 0x1000 + x.val * 0x100 + y.val * 0x10 + last := by
  rw [registersWord, BitVec.toNat_ofNat]
  omega

/-- The digits of an address word. -/
theorem address_word_digits {address : DByte} (fits : address.toNat < 0x1000) :
    (addressWord lead address).toNat / 0x1000 = lead ∧ address = nnnOf (addressWord lead address) := by
  have value := address_word_toNat led fits
  refine ⟨by omega, BitVec.eq_of_toNat_eq ?_⟩
  rw [nnn_toNat, value]
  omega

theorem byte_word_digits (x : Fin 16) (kk : Byte) :
    (byteWord lead x kk).toNat / 0x1000 = lead ∧ x = xOf (byteWord lead x kk) ∧ kk = kkOf (byteWord lead x kk) := by
  have value := byte_word_toNat led x kk
  refine ⟨by omega, Fin.ext ?_, BitVec.eq_of_toNat_eq ?_⟩
  · change x.val = (byteWord lead x kk).toNat / 256 % 16
    omega
  · rw [kkOf, BitVec.toNat_setWidth, value]
    omega

theorem registers_word_digits (x y : Fin 16) {last : Nat} (fits : last < 16) :
    (registersWord lead x y last).toNat / 0x1000 = lead ∧ (registersWord lead x y last).toNat % 0x10 = last ∧
      x = xOf (registersWord lead x y last) ∧ y = yOf (registersWord lead x y last) := by
  have value := registers_word_toNat led x y fits
  refine ⟨by omega, by omega, Fin.ext ?_, Fin.ext ?_⟩
  · change x.val = (registersWord lead x y last).toNat / 256 % 16
    omega
  · change y.val = (registersWord lead x y last).toNat / 16 % 16
    omega

theorem byte_word_register (x : Fin 16) (low : Byte) :
    (byteWord lead x low).toNat / 0x1000 = lead ∧ (byteWord lead x low).toNat % 0x100 = low.toNat ∧
      x = xOf (byteWord lead x low) := by
  have value := byte_word_toNat led x low
  obtain ⟨first, register, _⟩ := byte_word_digits led x low
  exact ⟨first, by omega, register⟩

end Words

/-- The opcode an instruction is encoded by stands for it. -/
theorem encoding_encode (fits : Fits instruction) : Instruction.Encoding (encode instruction) instruction := by
  cases instruction with
  | nop | clear | ret => rfl
  | jump target | call target | setIndex target | jumpOffset target =>
    exact address_word_digits (by decide) fits
  | skipIfByte x kk | skipUnlessByte x kk | setByte x kk | addByte x kk | random x kk =>
    exact byte_word_digits (by decide) x kk
  | skipIfSame x y | skipUnlessSame x y =>
    exact (registers_word_digits (by decide) x y (by decide)).imp_right And.right
  | copy x y | or x y | and x y | xor x y | add x y | sub x y | subFrom x y =>
    exact registers_word_digits (by decide) x y (by decide)
  | shiftRight x | shiftLeft x =>
    exact (registers_word_digits (by decide) x v0 (by decide)).imp_right (And.imp_right fun both => ⟨both.1, rfl⟩)
  | draw x y n =>
    obtain ⟨lead, last, first, second⟩ := registers_word_digits (show 0xD < 16 by decide) x y fits
    exact ⟨lead, first, second, last.symm⟩
  | skipIfKey x | skipUnlessKey x | readDelay x | waitKey x | setDelay x | addIndex x | glyph x | bcd x | save x
  | restore x =>
    exact byte_word_register (by decide) x _

theorem fits_of_decode (decoded : decode opcode = some instruction) : Fits instruction := by
  have encoded := encoding_of_decode decoded
  have address := nnn_toNat opcode
  cases instruction with
  | jump target | call target | setIndex target | jumpOffset target =>
    obtain ⟨_, rfl⟩ := encoded
    change (nnnOf opcode).toNat < 0x1000
    omega
  | draw x y n =>
    obtain ⟨_, _, _, rfl⟩ := encoded
    exact Nat.mod_lt _ (by decide)
  | _ => trivial

/-- Decoding undoes encoding where the operands fit, and only there. -/
theorem decode_encode_iff : decode (encode instruction) = some instruction ↔ Fits instruction :=
  ⟨fits_of_decode, fun fits => decode_of_encoding (encoding_encode fits)⟩

/-! ## The image -/

/-- What the executed instruction stores on the image of the file is the file. -/
def StoresMatch (file : List Byte) (w : World) (event : Event) : Prop :=
  ∀ instruction, event.instruction w = some instruction → ∀ i (within : i < file.length),
    0x200 + i ∈ instruction.stored w → readAt (instruction.ramAfter w.fetched) (0x200 + i) = file[i]

/-- A push reaches no address of a program. -/
theorem pushed_below (w : World) (address : Nat) (above : 0x200 ≤ address)
    (elsewhere : address ∉ Instruction.stored w instruction) : address ∉ instruction.written w := by
  cases instruction with
  | call target =>
    have first := (w.stackPointer + 1).isLt
    have second := (w.stackPointer + 2).isLt
    simp only [Instruction.written, List.mem_cons, List.not_mem_nil, or_false, not_or]
    omega
  | _ => exact elsewhere

/-- Apart from a load, the image survives an event exactly if its stores match. -/
theorem image_step_iff (image : Stored w.ram 0x200 file) (noLoad : ¬ event.loads)
    (stepped : step keys w event = some next) : Stored next.ram 0x200 file ↔ StoresMatch file w event := by
  rcases step_cases stepped with ⟨inputs, instruction, rfl, executed, ticked⟩ | ⟨_, rfl, _⟩ | ⟨silent, _, _, kept⟩
  · have ram := ticked.ram
    rw [ram]
    constructor
    · intro after other decoded i within _
      obtain rfl : other = instruction := Option.some.inj (decoded.symm.trans executed)
      exact after i within
    · intro matching i within
      by_cases hit : 0x200 + i ∈ instruction.stored w
      · exact matching instruction executed i within hit
      · rw [read_elsewhere w.fetched instruction _ (pushed_below w.fetched _ (Nat.le_add_right _ _) hit)]
        exact image i within
  · exact absurd rfl noLoad
  · refine iff_of_true ?_ fun instruction executed => absurd (silent.symm.trans executed) nofun
    rw [kept.ram]
    exact image

/-- A loaded program keeps its bytes throughout a run without another load
exactly if nothing it stores over them differs from them. -/
theorem image_kept_iff {keys : QtKeys} {w v : World} {file : List Byte} {events : List Event}
    (image : Stored w.ram 0x200 file)
    (run : Run (step keys) (fun w event => Live w event ∧ ¬ event.loads) w events v) :
    Run (step keys) (fun w event => (Live w event ∧ ¬ event.loads) ∧ StoresMatch file w event) w events v ↔
      ∀ before after m, events = before ++ after →
        Run (step keys) (fun w event => Live w event ∧ ¬ event.loads) w before m → Stored m.ram 0x200 file :=
  run_meets_iff (fun m => Stored m.ram 0x200 file) (StoresMatch file)
    (fun _ _ _ image allowed stepped => image_step_iff image allowed.2 stepped) image run

/-- `FF55` run from a file of its own stores behind the image. -/
theorem image_kept_iff_save : ∃ w v : World, w.ram 0x201 = 0x55 ∧
    (Run (step .latin) (fun w event => (Live w event ∧ ¬ event.loads) ∧ StoresMatch [0xF0, 0x55] w event)
        w [.startCpu, .tick (.reading 0)] v ↔
      ∀ before after m, [Event.startCpu, .tick (.reading 0)] = before ++ after →
        Run (step .latin) (fun w event => Live w event ∧ ¬ event.loads) w before m →
          Stored m.ram 0x200 [0xF0, 0x55]) := by
  obtain ⟨v, run, _⟩ := run_of_test (step .latin) (fun w event => Live w event ∧ ¬ event.loads)
    (World.loaded (.construct 0) [0xF0, 0x55]) [.startCpu, .tick (.reading 0)] (fun _ => true) (by decide)
  exact ⟨_, v, by decide, image_kept_iff (Loading.loaded_contents _ (by decide)) run⟩

/-! ## Execution from the image -/

/-- A program as a file, each opcode high byte first. -/
def assemble (program : List Instruction) : List Byte :=
  program.flatMap fun instruction => wordBytes (encode instruction)

theorem assemble_length (program : List Instruction) : (assemble program).length = 2 * program.length := by
  induction program with
  | nil => rfl
  | cons instruction rest ih =>
    rw [assemble, List.flatMap_cons, List.length_append, List.length_cons]
    change 2 + (assemble rest).length = _
    omega

/-- The word at an even offset of an assembled program. -/
theorem assembled_word (program : List Instruction) (k : Nat) (within : k < program.length)
    (stored : Stored memory base (assemble program)) :
    readAt memory (base + 2 * k) ++ readAt memory (base + 2 * k + 1) = encode program[k] := by
  induction program generalizing base k with
  | nil => contradiction
  | cons instruction rest ih =>
    obtain ⟨word, others⟩ := stored_append.mp stored
    cases k with
    | zero =>
      have high := word 0 Nat.zero_lt_two
      have low := word 1 Nat.one_lt_two
      rw [Nat.mul_zero, high, low]
      apply BitVec.eq_of_toNat_eq
      have bound := (encode instruction).isLt
      rw [append_toNat]
      simp only [wordBytes, List.getElem_cons_zero, List.getElem_cons_succ, BitVec.toNat_setWidth,
        BitVec.toNat_ushiftRight, Nat.shiftRight_eq_div_pow]
      omega
    | succ k =>
      have next := ih k (by simpa using within) others
      have place : base + (wordBytes (encode instruction)).length + 2 * k = base + 2 * (k + 1) := by
        rw [wordBytes, List.length_cons, List.length_singleton]
        omega
      rw [place] at next
      exact next

/-- No store of the executed instruction reaches the image. -/
def StoresOutside (length : Nat) (w : World) (event : Event) : Prop :=
  ∀ instruction, event.instruction w = some instruction → ∀ address ∈ instruction.stored w,
    address < 0x200 ∨ 0x200 + length ≤ address

instance (length : Nat) (w : World) (event : Event) : Decidable (StoresOutside length w event) :=
  decidable_of_iff (∀ instruction ∈ event.instruction w, ∀ address ∈ instruction.stored w,
    address < 0x200 ∨ 0x200 + length ≤ address) Iff.rfl

/-- What `process` does at the k-th word of an assembled program in memory. -/
theorem process_at_image {program : List Instruction} (fits : ∀ instruction ∈ program, Fits instruction)
    (room : 2 * program.length ≤ 3584) (image : Stored v.ram 0x200 (assemble program)) (within : k < program.length)
    (place : v.programCounter.toNat = 0x200 + 2 * k) (inputs : TickInputs) :
    decode v.opcodeAt = some program[k] ∧
      outcome ((process inputs).run v) = (execute inputs v.fetched program[k]).map (World.finish · inputs) := by
  have opcode : v.opcodeAt = encode program[k] := by
    have word := assembled_word program k within image
    rw [← place] at word
    exact word
  have decoded : decode v.opcodeAt = some program[k] :=
    opcode ▸ decode_encode_iff.mpr (fits _ (List.getElem_mem within))
  refine ⟨decoded, ?_⟩
  rw [process_refines, tick, if_pos (by omega), decoded]

/-- Stores outside the image match it. -/
theorem stores_match {program : List Instruction} (outside : StoresOutside (2 * program.length) w event) :
    StoresMatch (assemble program) w event := by
  have length := assemble_length program
  intro instruction executed i within hit
  have away := outside instruction executed _ hit
  omega

/-- After an assembled program is loaded, and as long as nothing else is and it
does not store into itself, `process` at its k-th word executes its k-th
instruction, or fails as that does. -/
theorem program_executed {keys : QtKeys} {w start v : World} {program : List Instruction} {events : List Event}
    {k : Nat} (fits : ∀ instruction ∈ program, Fits instruction)
    (loads : step keys w (.load (some (assemble program))) = some start)
    (run : Run (step keys) (fun w event => Live w event ∧ ¬ event.loads ∧
      StoresOutside (2 * program.length) w event) start events v)
    (within : k < program.length) (place : v.programCounter.toNat = 0x200 + 2 * k) (inputs : TickInputs) :
    outcome ((process inputs).run v) = (execute inputs v.fetched program[k]).map (World.finish · inputs) := by
  have length := assemble_length program
  rw [step_load] at loads
  split at loads
  case isFalse => contradiction
  rename_i short
  cases loads
  have image : Stored v.ram 0x200 (assemble program) :=
    run_invariant (fun m => Stored m.ram 0x200 (assemble program))
      (fun _ _ _ stored allowed stepped =>
        (image_step_iff stored allowed.2.1 stepped).mpr (stores_match allowed.2.2))
      (Loading.loaded_contents w short) run
  exact (process_at_image fits (by omega) image within place inputs).2

/-- A byte loaded into `V0` and incremented. -/
def incremented : List Instruction := [.setByte v0 0x2A, .addByte v0 1]

/-- At the second word of that program its second instruction is executed. -/
theorem program_executed_second : ∃ v : World, v.vRegisters 0 = 0x2A ∧
    outcome ((process (.reading 0)).run v) =
      (execute (.reading 0) v.fetched (.addByte v0 1)).map (World.finish · (.reading 0)) := by
  have loads : step .latin (.construct 0) (.load (some (assemble incremented))) =
      some (World.loaded (.construct 0) (assemble incremented)) := step_load.trans (if_pos (by decide))
  obtain ⟨v, run, ends⟩ := run_of_test (step .latin)
    (fun w event => Live w event ∧ ¬ event.loads ∧ StoresOutside (2 * incremented.length) w event)
    (World.loaded (.construct 0) (assemble incremented)) [.startCpu, .tick (.reading 0)]
    (fun w => w.programCounter.toNat = 0x202 ∧ w.vRegisters 0 = 0x2A) (by decide)
  obtain ⟨place, byte⟩ := of_decide_eq_true ends
  have within : 1 < incremented.length := by decide
  exact ⟨v, byte, program_executed (by decide) loads run within place (.reading 0)⟩

end Chip8Emulator.ProgramImage
