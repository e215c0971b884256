import Chip8Emulator.LoopHandlerProofs
import Chip8Emulator.Foundations.Runs
import Mathlib.Tactic.IntervalCases

/-! `process` refines `tick`: the chain of mask tests picks the handler of the
decoded instruction, and what follows the handler is `finish`. From here on a
run of the machine is a run of the instruction set. -/
namespace Chip8Emulator
open Foundations.Loops Foundations.Memory Foundations.WordDigits Foundations.Runs

/-! ## Dispatch -/

/-- What the decoded instruction does, or the abort of an unknown one. -/
def decodeAndExecute (inputs : TickInputs) (w : World) (opcode : DByte) : Except Fault World :=
  match decode opcode with
  | none => .error .abort
  | some instruction => execute inputs w instruction

section Dispatch
variable (inputs : TickInputs) (w : World) (opcode : DByte)

private theorem leading_digit (d : Nat) (bound : d < 16) (digit : opcode.toNat / 4096 = d) :
    opcode &&& 0xF000#16 = BitVec.ofNat 16 (d * 4096) :=
  (leading_digit_iff opcode 12 d (by omega)).mpr digit

private theorem dispatch_zero (digit : opcode.toNat / 4096 = 0) :
    outcome ((dispatch inputs opcode).run w) = decodeAndExecute inputs w opcode := by
  have lead := leading_digit opcode 0 (by decide) digit
  have nop : opcode = 0#16 ↔ opcode.toNat = 0 := by rw [← BitVec.toNat_inj]; rfl
  have clear : opcode = 0x00E0#16 ↔ opcode.toNat = 0x00E0 := by rw [← BitVec.toNat_inj]; rfl
  have ret : opcode = 0x00EE#16 ↔ opcode.toNat = 0x00EE := by rw [← BitVec.toNat_inj]; rfl
  by_cases isNop : opcode.toNat = 0
  · simp [dispatch, decodeAndExecute, decode, execute, nop, isNop]
  · by_cases isClear : opcode.toNat = 0x00E0
    · simp [dispatch, decodeAndExecute, decode, nop, clear, isClear, perform00E0_exact inputs]
    · by_cases isRet : opcode.toNat = 0x00EE
      · simp [dispatch, decodeAndExecute, decode, nop, clear, ret, isRet, perform00EE_exact inputs]
      · simp [dispatch, decodeAndExecute, decode, nop, clear, ret, isNop, isClear, isRet, lead, digit]

/-- An opcode with a nonzero leading digit is none of the three full ones. -/
private theorem not_full_opcode (digit : opcode.toNat / 4096 ≠ 0) :
    opcode ≠ 0#16 ∧ opcode ≠ 0x00E0#16 ∧ opcode ≠ 0x00EE#16 := by
  refine ⟨?_, ?_, ?_⟩ <;>
  · rintro rfl
    exact digit (by decide)

private theorem dispatch_eight (digit : opcode.toNat / 4096 = 8) :
    outcome ((dispatch inputs opcode).run w) = decodeAndExecute inputs w opcode := by
  have lead := leading_digit opcode 8 (by decide) digit
  obtain ⟨notNop, notClear, notRet⟩ := not_full_opcode opcode (by omega)
  have last : opcode &&& 0x000F#16 = BitVec.ofNat 16 (opcode.toNat % 16) :=
    (trailing_digit_iff opcode 4 _ (by omega)).mpr rfl
  have small : opcode.toNat % 16 < 16 := Nat.mod_lt _ (by decide)
  unfold decodeAndExecute decode
  simp only [digit]
  generalize opcode.toNat % 16 = final at last small
  interval_cases final <;>
    simp [dispatch, notNop, notClear, notRet, lead, last, perform8xy0_exact inputs,
      perform8xy1_exact inputs, perform8xy2_exact inputs, perform8xy3_exact inputs,
      perform8xy4_exact inputs, perform8xy5_exact inputs, perform8xy6_exact inputs,
      perform8xy7_exact inputs, perform8xyE_exact inputs]

/-- The test of the trailing byte, for the two digits that make it. -/
private theorem low_byte (d : Nat) (bound : d < 256) :
    opcode &&& 0xFF#16 = BitVec.ofNat 16 d ↔ opcode.toNat % 256 = d :=
  trailing_digit_iff opcode 8 d (by omega)

private theorem dispatch_fourteen (digit : opcode.toNat / 4096 = 14) :
    outcome ((dispatch inputs opcode).run w) = decodeAndExecute inputs w opcode := by
  have lead := leading_digit opcode 14 (by decide) digit
  obtain ⟨notNop, notClear, notRet⟩ := not_full_opcode opcode (by omega)
  have isIf := low_byte opcode 0x9E (by decide)
  have isUnless := low_byte opcode 0xA1 (by decide)
  unfold decodeAndExecute decode
  simp only [digit]
  generalize opcode.toNat % 256 = low at isIf isUnless
  by_cases first : low = 0x9E
  · subst first
    simp [dispatch, notNop, notClear, notRet, lead, isIf, performEx9e_exact inputs]
  · by_cases second : low = 0xA1
    · subst second
      simp [dispatch, notNop, notClear, notRet, lead, isIf, isUnless, performExa1_exact inputs]
    · simp [dispatch, notNop, notClear, notRet, lead, isIf, isUnless, first, second]

/-- The opcode of a wait is determined by its register. -/
theorem wait_opcode (digit : opcode.toNat / 4096 = 15) (low : opcode.toNat % 256 = 0x0A) :
    opcode = waitOpcode (xOf opcode) := by
  apply BitVec.eq_of_toNat_eq
  simp only [waitOpcode, xOf, BitVec.toNat_ofNat]
  omega

private theorem performFx0A_exact (digit : opcode.toNat / 4096 = 15) (low : opcode.toNat % 256 = 0x0A) :
    outcome ((performFx0A inputs.wait opcode).run w) = execute inputs w (.waitKey (xOf opcode)) := by
  obtain ⟨instruction, _⟩ := not_full_opcode opcode (by omega)
  rw [run_performFx0A w opcode inputs.wait instruction]
  simp [execute, ← wait_opcode opcode digit low]

private theorem dispatch_fifteen (digit : opcode.toNat / 4096 = 15) :
    outcome ((dispatch inputs opcode).run w) = decodeAndExecute inputs w opcode := by
  have lead := leading_digit opcode 15 (by decide) digit
  obtain ⟨notNop, notClear, notRet⟩ := not_full_opcode opcode (by omega)
  have wait := performFx0A_exact inputs w opcode digit
  have is07 := low_byte opcode 0x07 (by decide)
  have is0A := low_byte opcode 0x0A (by decide)
  have is15 := low_byte opcode 0x15 (by decide)
  have is1E := low_byte opcode 0x1E (by decide)
  have is29 := low_byte opcode 0x29 (by decide)
  have is33 := low_byte opcode 0x33 (by decide)
  have is55 := low_byte opcode 0x55 (by decide)
  have is65 := low_byte opcode 0x65 (by decide)
  unfold decodeAndExecute decode
  simp only [digit]
  generalize opcode.toNat % 256 = low at *
  by_cases known : low ∈ [0x07, 0x0A, 0x15, 0x1E, 0x29, 0x33, 0x55, 0x65]
  · simp only [List.mem_cons, List.not_mem_nil, or_false] at known
    rcases known with rfl | rfl | rfl | rfl | rfl | rfl | rfl | rfl <;>
      simp [dispatch, notNop, notClear, notRet, lead, is07, is0A, is15, is1E, is29, is33, is55, is65,
        performFx07_exact inputs, wait, performFx15_exact inputs, performFx1E_exact inputs,
        performFx29_exact inputs, performFx33_exact inputs, performFx55_exact inputs,
        performFx65_exact inputs]
  · simp only [List.mem_cons, List.not_mem_nil, or_false, not_or] at known
    simp [dispatch, notNop, notClear, notRet, lead, is07, is0A, is15, is1E, is29, is33, is55, is65, known]

/-- The chain of tests runs exactly the handler of the decoded instruction. -/
theorem dispatch_exact :
    outcome ((dispatch inputs opcode).run w) = decodeAndExecute inputs w opcode := by
  have bound := opcode.isLt
  obtain ⟨d, digit⟩ : ∃ d, opcode.toNat / 4096 = d := ⟨_, rfl⟩
  have small : d < 16 := by omega
  by_cases special : d ∈ [0, 8, 14, 15]
  · simp only [List.mem_cons, List.not_mem_nil, or_false] at special
    rcases special with rfl | rfl | rfl | rfl
    · exact dispatch_zero inputs w opcode digit
    · exact dispatch_eight inputs w opcode digit
    · exact dispatch_fourteen inputs w opcode digit
    · exact dispatch_fifteen inputs w opcode digit
  · simp only [List.mem_cons, List.not_mem_nil, or_false, not_or] at special
    obtain ⟨notNop, notClear, notRet⟩ := not_full_opcode opcode (by omega)
    have lead := leading_digit opcode d small digit
    unfold decodeAndExecute decode
    simp only [digit]
    interval_cases d <;> first
      | omega
      | simp [dispatch, notNop, notClear, notRet, lead, perform1nnn_exact inputs,
          perform2nnn_exact inputs, perform3xkk_exact inputs, perform4xkk_exact inputs,
          perform5xy0_exact inputs, perform6xkk_exact inputs, perform7xkk_exact inputs,
          perform9xy0_exact inputs, performAnnn_exact inputs, performBnnn_exact inputs,
          performCxkk_exact inputs, performDxyn_exact inputs]

end Dispatch

/-! ## The tick -/

theorem getOpcode_ok (w : World) (fits : w.programCounter.toNat ≤ 4094) :
    getOpcode w.ram w.programCounter = .ok w.opcodeAt := by
  have first := memory_at_of_lt w.ram (show w.programCounter.toNat < 4096 by omega)
  have second := memory_at_of_lt w.ram (show w.programCounter.toNat + 1 < 4096 by omega)
  simp only [getOpcode, first, second, World.opcodeAt, ← joined_bytes]
  rfl

theorem getOpcode_error (w : World) (overruns : 4094 < w.programCounter.toNat) :
    getOpcode w.ram w.programCounter = .error .ramOutOfRange := by
  have second := memory_at_of_ge w.ram (show 4096 ≤ w.programCounter.toNat + 1 by omega)
  by_cases inside : w.programCounter.toNat < 4096
  · simp only [getOpcode, memory_at_of_lt w.ram inside, second]
    rfl
  · simp only [getOpcode, memory_at_of_ge w.ram (Nat.not_lt.mp inside)]
    rfl

/-- What follows the handler in `process`. -/
private def afterHandler (inputs : TickInputs) : Cpu Unit := do
  updateDelayTimer inputs.now
  sendSignalToMonitor .yes inputs.refresh
  if (← get).programCounter.toNat = ramSize then stopCpu

private theorem after_handler_exact (inputs : TickInputs) (w : World) :
    outcome ((afterHandler inputs).run w) = .ok (w.finish inputs) := by
  by_cases atEnd : w.programCounter.toNat = ramSize
  · simp [afterHandler, World.finish, atEnd, World.refresh, World.stopTimer]
  · simp [afterHandler, World.finish, atEnd, World.refresh]

private theorem process_start (inputs : TickInputs) (w : World) (fits : w.programCounter.toNat ≤ 4094) :
    (process inputs).run w = (dispatch inputs w.opcodeAt >>= fun _ => afterHandler inputs).run w.fetched := by
  simp [process, getOpcode_ok w fits, World.fetched, afterHandler]

/-- `process` is one tick of the instruction set. -/
theorem process_refines (inputs : TickInputs) (w : World) :
    outcome ((process inputs).run w) = tick inputs w := by
  by_cases fits : w.programCounter.toNat ≤ 4094
  · rw [process_start inputs w fits, outcome_bind, dispatch_exact]
    simp only [decodeAndExecute, tick, fits, ↓reduceIte]
    cases decode w.opcodeAt with
    | none => rfl
    | some instruction =>
      cases executed : execute inputs w.fetched instruction with
      | error fault => simp [Except.bind, Except.map, executed]
      | ok next => simp [Except.bind, Except.map, executed, after_handler_exact]
  · simp [process, tick, fits, getOpcode_error w (by omega)]

/-! ## Events -/

section Events
variable {keys : QtKeys} {w next : World}

theorem step_eq_some {event : Event} :
    step keys w event = some next ↔ outcome ((handle keys event).run w) = .ok next := by
  unfold step
  cases (handle keys event).run w <;> simp

/-- A tick completes exactly when its instruction is fetched, known and in
range, and leaves the instruction's effect, finished. -/
theorem step_tick {inputs : TickInputs} :
    step keys w (.tick inputs) = some next ↔
      w.programCounter.toNat ≤ 4094 ∧ ∃ instruction executed,
        decode w.opcodeAt = some instruction ∧
          execute inputs w.fetched instruction = .ok executed ∧ next = executed.finish inputs := by
  rw [step_eq_some, handle, process_refines, tick]
  by_cases fits : w.programCounter.toNat ≤ 4094
  · simp only [fits, ↓reduceIte, true_and]
    cases decoded : decode w.opcodeAt with
    | none => simp
    | some instruction =>
      cases effect : execute inputs w.fetched instruction with
      | error fault => simp [Except.map, effect]
      | ok executed => simp [Except.map, effect, eq_comm]
  · simp [fits]

theorem step_startCpu : step keys w .startCpu = some w.startTimer := by
  simp [step, handle]

theorem step_stopCpu : step keys w .stopCpu = some w.stopTimer := by
  simp [step, handle]

/-- A key event's record. -/
def World.recordKey (w : World) (i : Fin 16) (status : Int) : World :=
  { w with
    lastActiveKey := i.val
    interestedKeysStatuses := Function.update w.interestedKeysStatuses i status }

theorem step_keyPress {key : Int} :
    step keys w (.keyPress key) =
      match keys.find key with
      | none => some w
      | some i => some (w.recordKey i 1) := by
  cases found : keys.find key <;>
    simp [step, handle, receiveKeyPressEvent, found, recordKey, World.recordKey]

/-- What a release does to a recorded key event: nothing while the CPU runs,
else the wait handler goes on; it faults where the timer was never created. -/
def World.releaseKey (w : World) (readings : SteadyReadings) : Option World :=
  match w.mainProcessTimer with
  | none => none
  | some timer =>
    if timer.isActive then some w
    else if w.lastOpcode = 0 then some (w.beginWait 0 readings)
    else some w.completeWait

theorem step_keyRelease {key : Int} {readings : SteadyReadings} :
    step keys w (.keyRelease key readings) =
      match keys.find key with
      | none => some w
      | some i => (w.recordKey i 0).releaseKey readings := by
  cases found : keys.find key with
  | none => simp [step, handle, receiveKeyReleaseEvent, found]
  | some i =>
    have record : (Chip8Emulator.recordKey i 0).run w = .ok () (w.recordKey i 0) := rfl
    have timer : (w.recordKey i 0).mainProcessTimer = w.mainProcessTimer := rfl
    simp only [step, handle, receiveKeyReleaseEvent, found, EStateM.run_bind, record]
    cases created : w.mainProcessTimer with
    | none =>
      rw [run_performFx0A_null _ readings (timer.trans created)]
      simp [World.releaseKey, timer, created]
    | some observed =>
      obtain ⟨active⟩ := observed
      cases active with
      | true =>
        rw [run_performFx0A_running _ readings (timer.trans created)]
        simp [World.releaseKey, timer, created]
      | false =>
        rw [run_performFx0A_stopped _ readings (timer.trans created)]
        simp only [World.releaseKey, timer, created]
        split <;> simp_all

/-- The machine with a file loaded. -/
def World.loaded (w : World) (file : List Byte) : World :=
  { w with
    ram := storeList w.ram 0x200 file
    frameBuffer := fun _ _ => 0 }

theorem run_copyToRam (w : World) (input : List Byte) (address : Nat)
    (fits : address + input.length ≤ 4096) :
    (copyToRam input address).run w = .ok () { w with ram := storeList w.ram address input } := by
  induction input generalizing w address with
  | nil => simp [copyToRam, store_nil]
  | cons byte input ih =>
    simp only [List.length_cons] at fits
    have bound : address < 4096 := by omega
    simp [copyToRam, bound, ih _ (address + 1) (by omega), store_cons w.ram address byte input bound]

theorem run_copyToRam_overrun (w : World) (input : List Byte) (address : Nat)
    (start : address ≤ 4096) (overruns : 4096 < address + input.length) :
    ∃ next, (copyToRam input address).run w = .error .loadOverrun next := by
  induction input generalizing w address with
  | nil =>
    simp only [List.length_nil] at overruns
    omega
  | cons byte input ih =>
    simp only [List.length_cons] at overruns
    by_cases bound : address < 4096
    · obtain ⟨next, faults⟩ := ih { w with ram := Function.update w.ram ⟨address, bound⟩ byte }
        (address + 1) (by omega) (by omega)
      exact ⟨next, by simp [copyToRam, bound, faults]⟩
    · exact ⟨w, by simp [copyToRam, bound]⟩

theorem load_file (input : List Byte) :
    load (some input) = (copyToRam input 0x200 >>= fun _ => clearFrameBuffer) := rfl

theorem step_load_cancelled : step keys w (.load none) = some w := by
  simp [step, handle, load]

/-- A file is loaded exactly when it fits above the user base. -/
theorem step_load {file : List Byte} :
    step keys w (.load (some file)) = if file.length ≤ 3584 then some (w.loaded file) else none := by
  have base : userMemoryBase.toNat = 0x200 := rfl
  by_cases fits : file.length ≤ 3584
  · have copied := run_copyToRam w file 0x200 (by omega)
    simp [step, handle, load, base, copied, fits, clearFrameBuffer, World.loaded]
  · obtain ⟨faulted, copied⟩ := run_copyToRam_overrun w file 0x200 (by omega) (by omega)
    simp [step, handle, load, base, copied, fits]

end Events

end Chip8Emulator
