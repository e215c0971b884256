import Chip8Emulator.CallStack
import Chip8Emulator.FaultCharacterisation
import Chip8Emulator.KeyWait
import Chip8Emulator.VirtualMachine

/-! The emulator implements the virtual machine. A state of the one is related
to a state of the other by what each component stands for: the bytes of the
stack region for the pending calls, the packed buffer for the picture, the
latch for the wait. Whatever the machine does without refusal the emulator does
too, without a fault and up to that relation. -/
namespace Chip8Emulator.VirtualMachine
open Foundations.Memory Foundations.Runs Foundations.Toggles SpriteDrawing CallStack FaultCharacterisation KeyWait

def Power.timer : Power → Option QTimer
  | .off => none
  | .stopped => some { isActive := false }
  | .running => some { isActive := true }

/-- The pending calls of the emulator, each below the last instruction, and
where they return to. -/
def Returns (w : World) (calls : List Nat) : Prop :=
  ∃ pending, StackHolds w pending ∧ (∀ call ∈ pending, call.toNat ≤ 0xFFC) ∧
    calls = pending.map fun call => call.toNat + 2

/-- The emulator's state stands for the machine's. The bytes of the stack
region stand for calls and nothing else. -/
structure Implements (since : Time) (w : World) (m : Machine) : Prop where
  registers : w.vRegisters = m.registers
  index : w.indexRegister = m.index
  counter : w.programCounter.toNat = m.counter
  calls : Returns w m.calls
  memory : ∀ cell : Fin 4096, cell.val < 0x80 ∨ 0x100 ≤ cell.val → w.ram cell = m.memory cell
  picture : lit w.frameBuffer = m.picture
  delay : w.delayTimer.toNat = m.delay
  keypad : ∀ k, w.interestedKeysStatuses k = if m.down k then 1 else 0
  waiting : w.lastOpcode = m.waiting.elim 0 waitOpcode
  timer : w.mainProcessTimer = m.power.timer
  constructed : w.lastTime = since

/-- A blank buffer has no pixel lit. -/
theorem lit_blank : lit (fun _ _ => 0) = fun _ => false :=
  funext fun _ => BitVec.getLsbD_zero

theorem implements_initial (now : Time) : Implements now (.construct now) .initial where
  registers := rfl
  index := rfl
  counter := rfl
  calls := ⟨[], stack_initial now, by simp, rfl⟩
  memory _ _ := rfl
  picture := lit_blank
  delay := rfl
  keypad _ := rfl
  waiting := rfl
  timer := rfl
  constructed := rfl

/-! ## Memory outside the stack region -/

section Memory
variable (like : Implements since w m)
include like

theorem read_agrees (address : Nat) (outside : address < 0x80 ∨ 0x100 ≤ address) :
    readAt w.ram address = readAt m.memory address := by
  unfold readAt
  split
  · exact like.memory _ outside
  · rfl

theorem bytes_agree (count : Nat) (usable : Usable m.index.toNat count) : w.bytesAtIndex count = m.bytes count := by
  unfold World.bytesAtIndex Machine.bytes
  rw [like.index]
  apply List.map_congr_left
  intro i member
  have within := List.mem_range.mp member
  refine read_agrees like _ ?_
  rcases usable with none | below | ⟨above, _⟩
  · omega
  · omega
  · omega

/-- The machine fetches what the emulator does. -/
theorem fetch_agrees (fetched : m.fetch = some instruction) :
    w.programCounter.toNat ≤ 4094 ∧ decode w.opcodeAt = some instruction := by
  unfold Machine.fetch at fetched
  split at fetched
  · rename_i usable
    have counter := like.counter
    have first := read_agrees like m.counter
    have second := read_agrees like (m.counter + 1)
    rcases usable with none | below | ⟨above, inside⟩
    · omega
    · rw [← first (.inl (by omega)), ← second (.inl (by omega)), ← counter] at fetched
      exact ⟨by omega, fetched⟩
    · rw [← first (.inr (by omega)), ← second (.inr (by omega)), ← counter] at fetched
      exact ⟨by omega, fetched⟩
  · contradiction

end Memory

/-! ## One tick -/

/-- What the machine permits the emulator executes. -/
theorem permitted_executes (like : Implements since w m) (permits : m.Permits instruction) (inputs : TickInputs) :
    ∃ executed, execute inputs w.fetched instruction = .ok executed := by
  have range := permits.range
  have key := permits.key
  have index : w.fetched.indexRegister = m.index := like.index
  have registers : w.fetched.vRegisters = m.registers := like.registers
  have legal : ¬ Faults w.fetched instruction := by
    cases instruction with
    | draw | bcd | save | restore =>
      simp only [Faults, index]
      rcases range with none | below | ⟨above, inside⟩ <;> simp only [reach] at * <;> omega
    | skipIfKey x | skipUnlessKey x =>
      have small := key x rfl
      simp only [Faults, registers]
      omega
    | _ => exact id
  cases effect : execute inputs w.fetched instruction with
  | ok executed => exact ⟨executed, rfl⟩
  | error fault => exact absurd ((execute_faults inputs w.fetched instruction).1.mp ⟨fault, effect⟩) legal

theorem timer_running (like : Implements since w m) (running : m.power = .running) :
    w.mainProcessTimer = some { isActive := true } := by
  rw [like.timer, running]
  rfl

theorem latch_empty (like : Implements since w m) (idle : m.waiting = none) : w.lastOpcode = 0 := by
  rw [like.waiting, idle]
  rfl

/-- A push lands in the stack region. -/
theorem pushed_inside (target : DByte) (holds : StackHolds w pending) (room : pending.length < 64)
    (pushed : address ∈ (Instruction.call target).written w) : 0x80 ≤ address ∧ address < 0x100 := by
  have pointer := holds.pointer
  have first : (w.stackPointer + 1).toNat = w.stackPointer.toNat + 1 :=
    BitVec.toNat_add_of_lt (show w.stackPointer.toNat + 1 < 256 by omega)
  have second : (w.stackPointer + 2).toNat = w.stackPointer.toNat + 2 :=
    BitVec.toNat_add_of_lt (show w.stackPointer.toNat + 2 < 256 by omega)
  simp only [Instruction.written, List.mem_cons, List.not_mem_nil, or_false] at pushed
  omega

/-- What the program stores lies in its own memory. -/
theorem stored_outside (like : Implements since w m) (permits : m.Permits instruction)
    (stored : address ∈ instruction.stored w) : address < 0x80 ∨ 0x100 ≤ address := by
  have range := permits.range
  have index := like.index
  cases instruction with
  | bcd x | save x =>
    simp only [Instruction.stored, List.mem_map, List.mem_range, index] at stored
    obtain ⟨offset, within, rfl⟩ := stored
    rcases range with none | below | ⟨above, _⟩ <;> simp only [reach] at * <;> omega
  | _ => exact absurd stored List.not_mem_nil

/-- The key a skip asks for is down. -/
theorem key_agrees (like : Implements since w m) (key : Nat) (bound : key < 16) :
    readAt w.interestedKeysStatuses key = if readAt m.down key = true then 1 else 0 := by
  rw [read_at_of_lt _ bound, read_at_of_lt _ bound]
  exact like.keypad _

section Tick
variable (like : Implements since w m) (idle : m.waiting = none) (permits : m.Permits instruction)
  (ticked : Ticked inputs w instruction next)
include like ticked

include idle permits in
theorem registers_implemented : next.vRegisters = m.registersAfter inputs.rand instruction := by
  have registers : w.fetched.vRegisters = m.registers := like.registers
  have empty := latch_empty like idle
  have latch : w.fetched.lastOpcode = 0 := empty
  have range := permits.range
  obtain ⟨executed, effect, rfl⟩ := ticked.executes
  change executed.vRegisters = _
  cases instruction with
  | restore x =>
    simp only [execute] at effect
    split at effect
    · cases effect
      have bytes : w.fetched.bytesAtIndex (x.val + 1) = m.bytes (x.val + 1) := bytes_agree like _ range
      change storeList w.fetched.vRegisters 0 (w.fetched.bytesAtIndex (x.val + 1)) = _
      rw [bytes, registers]
      rfl
    · contradiction
  | readDelay x =>
    cases effect
    have delay : w.fetched.delayTimer.setWidth 8 = BitVec.ofNat 8 m.delay := by
      rw [← like.delay, BitVec.ofNat_toNat]
      rfl
    change Function.update w.fetched.vRegisters x (w.fetched.delayTimer.setWidth 8) = _
    rw [delay, registers]
    rfl
  | waitKey x =>
    cases effect
    rw [if_pos latch]
    exact registers
  | draw | bcd | save | skipIfKey | skipUnlessKey =>
    simp only [execute] at effect
    split at effect
    · cases effect
      exact registers
    · contradiction
  | _ =>
    cases effect
    simp only [Machine.registersAfter, ← registers] <;> rfl

theorem index_implemented : next.indexRegister = m.indexAfter instruction := by
  have registers : w.fetched.vRegisters = m.registers := like.registers
  have index : w.fetched.indexRegister = m.index := like.index
  rw [ticked.indexRegister]
  cases instruction with
  | addIndex x | glyph x => simp only [Instruction.indexRegisterAfter, Machine.indexAfter, registers, index]
  | setIndex value => rfl
  | _ => exact index

include permits in
theorem counter_implemented : next.programCounter.toNat = m.counterAfter instruction := by
  have registers : w.vRegisters = m.registers := like.registers
  have counter := like.counter
  have fits := ticked.fits
  have encoded := decode_iff.mp ticked.decoded
  rw [ticked.programCounter]
  cases instruction with
  | jump target | call target => rfl
  | jumpOffset base =>
    obtain ⟨_, rfl⟩ := encoded
    have small := nnn_toNat w.opcodeAt
    have offset := (w.vRegisters v0).isLt
    change (nnnOf w.opcodeAt + (w.vRegisters v0).setWidth 16).toNat = _
    rw [Machine.counterAfter, ← registers, BitVec.toNat_add, BitVec.toNat_setWidth]
    omega
  | ret =>
    obtain ⟨pending, holds, low, calls⟩ := like.calls
    cases pending with
    | nil => exact absurd calls (permits.ret rfl)
    | cons call outer =>
      have below := low call List.mem_cons_self
      have popped := popped_pending holds
      change w.poppedAddress.toNat = m.calls.headD 0
      rw [popped, pushed_address_low below, calls]
      exact BitVec.toNat_add_of_lt (show call.toNat + 2 < 65536 by omega)
  | skipIfByte x kk | skipUnlessByte x kk =>
    refine (skip_target fits _).trans ?_
    rw [Machine.counterAfter, Machine.skip, ← registers, counter]
    rfl
  | skipIfSame x y | skipUnlessSame x y =>
    refine (skip_target fits _).trans ?_
    rw [Machine.counterAfter, Machine.skip, ← registers, counter]
    rfl
  | skipIfKey x | skipUnlessKey x =>
    have status := key_agrees like (m.registers x).toNat (permits.key x rfl)
    refine (skip_target fits _).trans ?_
    change w.programCounter.toNat + (if readAt w.interestedKeysStatuses (w.vRegisters x).toNat = _ then 4 else 2) = _
    rw [registers, status, counter, Machine.counterAfter, Machine.skip]
    cases readAt m.down (m.registers x).toNat <;> rfl
  | _ =>
    refine (next_word fits).trans ?_
    rw [counter]
    rfl

include permits in
theorem calls_implemented : Returns next (m.callsAfter instruction) := by
  have counter := like.counter
  obtain ⟨pending, holds, low, calls⟩ := like.calls
  have depth : m.calls.length = pending.length := by rw [calls, List.length_map]
  have safe : StackSafe (w, pending) (.tick inputs) := by
    intro other decoded
    obtain rfl : other = instruction := Option.some.inj (decoded.symm.trans ticked.decoded)
    refine ⟨fun isCall => depth ▸ (permits.call isCall).1, fun isRet => ?_, fun address stored => ?_⟩
    · exact depth ▸ List.length_pos_iff.mpr (permits.ret isRet)
    · have outside := stored_outside like permits stored
      have small := holds.depth
      change address < 0x80 ∨ 0x80 + 2 * pending.length ≤ address
      omega
  refine ⟨_, stack_tick holds safe ticked, ?_, ?_⟩
  · cases instruction with
    | call target =>
      obtain ⟨_, inside⟩ := permits.call rfl
      exact List.forall_mem_cons.mpr ⟨by omega, low⟩
    | ret => exact fun call member => low call (List.mem_of_mem_tail member)
    | _ => exact low
  · cases instruction with
    | call target =>
      change (m.counter + 2) :: m.calls = (w.programCounter.toNat + 2) :: pending.map _
      rw [counter, calls]
    | ret =>
      change m.calls.tail = pending.tail.map _
      rw [calls, List.map_tail]
    | _ => exact calls

include permits in
theorem memory_implemented (cell : Fin 4096) (outside : cell.val < 0x80 ∨ 0x100 ≤ cell.val) :
    next.ram cell = m.memoryAfter instruction cell := by
  have registers : w.fetched.vRegisters = m.registers := like.registers
  have index : w.fetched.indexRegister = m.index := like.index
  have byte : w.fetched.ram cell = m.memory cell := like.memory cell outside
  rw [ticked.ram]
  cases instruction with
  | call target =>
    obtain ⟨pending, holds, _, calls⟩ := like.calls
    have depth : m.calls.length = pending.length := by rw [calls, List.length_map]
    have room := (permits.call rfl).1
    refine (ram_elsewhere w.fetched (.call target) cell fun pushed => ?_).trans byte
    have inside := pushed_inside target holds (depth ▸ room) pushed
    omega
  | bcd x | save x =>
    simp only [Instruction.ramAfter, Machine.memoryAfter, World.registersUpTo, storeList, registers, index, byte]
  | _ => exact byte

include permits in
theorem picture_implemented : lit next.frameBuffer = m.pictureAfter instruction := by
  have range := permits.range
  rw [ticked.frameBuffer]
  cases instruction with
  | clear => exact lit_blank
  | draw x y n =>
    have bytes : w.bytesAtIndex n = m.bytes n := bytes_agree like n range
    refine (lit_draw (drawOf w x y n) w.frameBuffer).trans ?_
    rw [drawOf, bytes, like.registers, like.picture]
    rfl
  | _ => exact like.picture

theorem delay_implemented :
    next.delayTimer.toNat = m.delayAfter instruction - (sixtieths (inputs.now - since)).toNat := by
  have started : (instruction.delayTimerAfter w.fetched).toNat = m.delayAfter instruction := by
    cases instruction with
    | setDelay x =>
      change ((w.vRegisters x).setWidth 16).toNat = (m.registers x).toNat
      rw [like.registers, BitVec.toNat_setWidth_of_le (by decide)]
    | _ => exact like.delay
  rw [ticked.delayTimer, started, like.constructed]

include idle in
theorem waiting_implemented : next.lastOpcode = (m.waitingAfter instruction).elim 0 waitOpcode := by
  have empty := latch_empty like idle
  have latch : w.fetched.lastOpcode = 0 := empty
  rw [ticked.latch]
  cases instruction with
  | waitKey x =>
    rw [Instruction.latchAfter, if_pos latch]
    rfl
  | _ => exact like.waiting

include idle permits in
theorem timer_implemented (running : m.power = .running) :
    next.mainProcessTimer = (m.powerAfter instruction).timer := by
  have empty := latch_empty like idle
  have latch : w.fetched.lastOpcode = 0 := empty
  have counter := counter_implemented like permits ticked
  have ticking := timer_running like running
  have active : w.fetched.mainProcessTimer = some { isActive := true } := ticking
  rw [ticked.timer, counter]
  cases instruction with
  | waitKey x =>
    rw [Instruction.timerAfter, if_pos latch, World.stopTimer, active]
    split <;> rfl
  | _ =>
    simp only [Instruction.timerAfter, Machine.powerAfter, active, running, ramSize]
    split <;> rfl

end Tick

/-- A tick the machine does not refuse, the emulator completes. -/
theorem tick_implemented (like : Implements since w m) (ticks : m.tick since inputs = some n) :
    w.Running ∧ ∃ instruction next, Ticked inputs w instruction next ∧ Implements since next n := by
  obtain ⟨instruction, fetched, permitted⟩ := Option.bind_eq_some_iff.mp ticks
  split at permitted
  · rename_i granted
    obtain ⟨running, idle, permits⟩ := granted
    cases permitted
    obtain ⟨fits, decoded⟩ := fetch_agrees like fetched
    obtain ⟨executed, effect⟩ := permitted_executes like permits inputs
    have ticked : Ticked inputs w instruction (executed.finish inputs) := ⟨fits, decoded, executed, effect, rfl⟩
    refine ⟨timer_running like running, instruction, _, ticked, ?_⟩
    exact {
      registers := registers_implemented like idle permits ticked
      index := index_implemented like ticked
      counter := counter_implemented like permits ticked
      calls := calls_implemented like permits ticked
      memory := memory_implemented like permits ticked
      picture := picture_implemented like permits ticked
      delay := delay_implemented like ticked
      keypad := fun k => by rw [ticked.keyStatuses]; exact like.keypad k
      waiting := waiting_implemented like idle ticked
      timer := timer_implemented like idle permits ticked running
      constructed := ticked.lastTime.trans like.constructed }
  · contradiction

/-! ## Other events -/

/-- Whatever leaves the stack region alone keeps the calls. -/
theorem returns_kept (returns : Returns w calls) (pointer : next.stackPointer = w.stackPointer)
    (region : ∀ address, 0x80 ≤ address → address < 0x100 → readAt next.ram address = readAt w.ram address) :
    Returns next calls := by
  obtain ⟨pending, holds, low, same⟩ := returns
  have small := holds.depth
  refine ⟨pending, ⟨small, pointer ▸ holds.pointer, stack_kept holds fun address lower upper => ?_⟩, low, same⟩
  exact region address lower (by omega)

section Recorded
variable {status : Int} (like : Implements since w m) (k : Fin 16) (pressed : Bool)
  (said : status = if pressed then 1 else 0)
include like said

theorem keypad_recorded (i : Fin 16) :
    (w.recordKey k status).interestedKeysStatuses i = if Function.update m.down k pressed i then 1 else 0 := by
  change Function.update w.interestedKeysStatuses k status i = _
  by_cases same : i = k
  · subst same
    rw [Function.update_self, Function.update_self, said]
  · rw [Function.update_of_ne same, Function.update_of_ne same]
    exact like.keypad i

theorem recorded_implemented :
    Implements since (w.recordKey k status) { m with down := Function.update m.down k pressed } :=
  { like with
    calls := returns_kept like.calls rfl fun _ _ _ => rfl
    keypad := keypad_recorded like k pressed said }

end Recorded

theorem started_implemented (like : Implements since w m) :
    Implements since w.startTimer { m with power := .running } :=
  { like with
    calls := returns_kept like.calls rfl fun _ _ _ => rfl
    timer := rfl }

theorem stopped_implemented (like : Implements since w m) :
    Implements since w.stopTimer { m with power := if m.power = .off then .off else .stopped } where
  registers := like.registers
  index := like.index
  counter := like.counter
  calls := returns_kept like.calls rfl fun _ _ _ => rfl
  memory := like.memory
  picture := like.picture
  delay := like.delay
  keypad := like.keypad
  waiting := like.waiting
  timer := by
    rw [World.stopTimer, like.timer]
    cases m.power <;> rfl
  constructed := like.constructed

theorem loaded_implemented (like : Implements since w m) (file : List Byte) :
    Implements since (w.loaded file) { m with
      memory := storeList m.memory 0x200 file
      picture := fun _ => false } :=
  { like with
    calls := returns_kept like.calls rfl fun address _ upper => read_loaded w file address (by omega)
    memory := fun cell outside => by
      have byte := like.memory cell outside
      simp only [World.loaded, storeList, byte]
    picture := lit_blank }

/-- The release of a key of a stopped machine ends its wait, if it has one. -/
theorem release_implemented (like : Implements since w m) (found : keys.find key = some k)
    (releases : Machine.released { m with down := Function.update m.down k false } k = some n) :
    ∃ next, step keys w (.keyRelease key readings) = some next ∧ Implements since next n := by
  have recorded := recorded_implemented like k false rfl
  have timer := like.timer
  obtain ⟨registers, index, counter, calls, memory, picture, delay, down, waiting, power⟩ := m
  cases power with
  | off => contradiction
  | running =>
    cases releases
    exact ⟨_, step_iff.mpr (.releaseRunning found timer), recorded⟩
  | stopped =>
    cases waiting with
    | none =>
      cases releases
      refine ⟨_, step_iff.mpr (.releaseIdle found timer like.waiting), ?_⟩
      exact { recorded with
        calls := returns_kept recorded.calls rfl fun _ _ _ => rfl
        waiting := rfl
        timer := congrArg (Option.map _) timer }
    | some x =>
      cases releases
      have latch : w.lastOpcode = waitOpcode x := like.waiting
      refine ⟨_, step_iff.mpr (.releaseWaiting found timer ?_), ?_⟩
      · rw [latch]
        exact wait_opcode_ne_zero x
      · exact { recorded with
          registers := by
            change Function.update w.vRegisters (xOf w.lastOpcode) (BitVec.ofInt 8 k.val) = _
            rw [latch, wait_opcode_register, BitVec.ofInt_natCast, like.registers]
          calls := returns_kept recorded.calls rfl fun _ _ _ => rfl
          waiting := rfl
          timer := rfl }

/-! ## Runs -/

/-- What the machine does not refuse, the emulator does as well. -/
theorem step_implemented (like : Implements since w m) (steps : m.step keys since event = some n) :
    Live w event ∧ ∃ next, step keys w event = some next ∧ Implements since next n := by
  cases event with
  | tick inputs =>
    obtain ⟨running, instruction, next, ticked, implements⟩ := tick_implemented like steps
    exact ⟨running, next, step_tick_iff.mpr ⟨instruction, ticked⟩, implements⟩
  | startCpu =>
    cases steps
    exact ⟨trivial, _, step_startCpu, started_implemented like⟩
  | stopCpu =>
    cases steps
    exact ⟨trivial, _, step_stopCpu, stopped_implemented like⟩
  | keyPress key =>
    refine ⟨trivial, ?_⟩
    cases found : keys.find key with
    | none =>
      simp only [Machine.step, found, Option.some.injEq] at steps
      exact ⟨w, step_iff.mpr (.otherPress found), steps ▸ like⟩
    | some k =>
      simp only [Machine.step, found, Option.some.injEq] at steps
      exact ⟨_, step_iff.mpr (.press found), steps ▸ recorded_implemented like k true rfl⟩
  | keyRelease key readings =>
    refine ⟨trivial, ?_⟩
    cases found : keys.find key with
    | none =>
      simp only [Machine.step, found, Option.some.injEq] at steps
      exact ⟨w, step_iff.mpr (.otherRelease found), steps ▸ like⟩
    | some k =>
      simp only [Machine.step, found] at steps
      exact release_implemented like found steps
  | load file =>
    refine ⟨trivial, ?_⟩
    cases file with
    | none =>
      cases steps
      exact ⟨w, step_load_cancelled, like⟩
    | some file =>
      simp only [Machine.step] at steps
      split at steps
      · rename_i fits
        cases steps
        exact ⟨_, step_iff.mpr (.loaded fits), loaded_implemented like file⟩
      · contradiction

theorem run_implemented (like : Implements since w m)
    (run : Run (Machine.step keys since) (fun _ _ => True) m events n) :
    ∃ next, Run (Chip8Emulator.step keys) Live w events next ∧ Implements since next n := by
  refine run_simulates (fun m w => Implements since w m) (· = ·) ?_ like (List.forall₂_refl events) run
  rintro m event n w _ like rfl _ steps
  obtain ⟨live, next, stepped, implements⟩ := step_implemented like steps
  exact ⟨live, next, stepped, implements⟩

/-- Every run of the virtual machine is one of the emulator, which completes it
without a fault in a state that stands for the machine's. -/
theorem emulator_implements_machine {keys : QtKeys} {now : Time} {events : List Event} {m : Machine}
    (run : Run (Machine.step keys now) (fun _ _ => True) .initial events m) :
    ∃ w, Run (Chip8Emulator.step keys) Live (.construct now) events w ∧ Implements now w m :=
  run_implemented (implements_initial now) run

/-- A call of a subroutine that draws, up to its return. -/
theorem emulator_implements_call : ∃ w m, m.counter = 0x202 ∧ m.picture ⟨0, 0⟩ = true ∧
    Run (Chip8Emulator.step .latin) Live (.construct 0)
      (.load (some [0x22, 0x04, 0x00, 0x00, 0xD0, 0x01, 0x00, 0xEE]) :: .startCpu ::
        List.replicate 3 (.tick (.reading 0))) w ∧ Implements 0 w m := by
  obtain ⟨m, run, ends⟩ := run_of_test (Machine.step .latin 0) (fun _ _ => True) .initial
    (.load (some [0x22, 0x04, 0x00, 0x00, 0xD0, 0x01, 0x00, 0xEE]) :: .startCpu ::
      List.replicate 3 (.tick (.reading 0)))
    (fun m => m.counter = 0x202 ∧ m.picture ⟨0, 0⟩ = true) (by decide)
  obtain ⟨counter, drawn⟩ := of_decide_eq_true ends
  obtain ⟨w, same, implements⟩ := emulator_implements_machine run
  exact ⟨w, m, counter, drawn, same, implements⟩

end Chip8Emulator.VirtualMachine
