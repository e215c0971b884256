import Chip8Emulator.InstructionFrames
import Chip8Emulator.Foundations.Runs

/-! The call stack kept in RAM against an abstract stack of pending calls. The
abstract stack is a history variable, the addresses of the calls executed and
not yet returned from; the machine keeps its bytes as long as no more than 64
calls are pending, no return lacks a call, and no store reaches a frame. -/
namespace Chip8Emulator.CallStack
open Foundations.Memory Foundations.Runs Foundations.WordDigits

/-- The addresses of the pending calls, the latest first. -/
abbrev Pending := List DByte

def pendingAfter (address : DByte) (pending : Pending) : Instruction → Pending
  | .call _ => address :: pending
  | .ret => pending.tail
  | _ => pending

def recordCalls (pending : Pending) (w : World) (event : Event) : Pending :=
  match event.instruction w with
  | some instruction => pendingAfter w.programCounter pending instruction
  | none => pending

/-- The bytes a call at an address pushes: the address past it, cut to twelve bits. -/
def pushedBytes (call : DByte) : List Byte := [highByte (call + 2), lowByte (call + 2)]

/-- The address those bytes spell. -/
def pushedAddress (call : DByte) : DByte := highByte (call + 2) ++ lowByte (call + 2)

/-- The bytes of all pending calls in the order they were pushed. -/
def frames (pending : Pending) : List Byte := pending.reverse.flatMap pushedBytes

theorem frames_cons (call : DByte) (pending : Pending) :
    frames (call :: pending) = frames pending ++ pushedBytes call := by
  simp [frames]

theorem frames_length (pending : Pending) : (frames pending).length = 2 * pending.length := by
  induction pending with
  | nil => rfl
  | cons call pending ih =>
    rw [frames_cons, List.length_append, ih, List.length_cons]
    simp only [pushedBytes, List.length_cons, List.length_nil]
    omega

/-- RAM holds exactly the pending calls. -/
structure StackHolds (w : World) (pending : Pending) : Prop where
  depth : pending.length ≤ 64
  pointer : w.stackPointer.toNat = 0x7F + 2 * pending.length
  bytes : Stored w.ram 0x80 (frames pending)

/-- What keeps the stack within its region: no push past 64 calls, no return
without a call, no store into a frame. -/
def StackSafe (p : World × Pending) (event : Event) : Prop :=
  ∀ instruction ∈ event.instruction p.1,
    (instruction.isCall → p.2.length < 64) ∧
    (instruction = .ret → 0 < p.2.length) ∧
    ∀ address ∈ instruction.stored p.1, address < 0x80 ∨ 0x80 + 2 * p.2.length ≤ address

instance : ∀ p event, Decidable (StackSafe p event) := fun _ _ =>
  inferInstanceAs (Decidable (∀ _ ∈ _, _))

theorem stack_initial (now : Time) : StackHolds (World.construct now) [] :=
  ⟨Nat.zero_le _, rfl, stored_nil⟩

/-- A call on a stack with room pushes its frame. -/
theorem stack_push (target : DByte) (holds : StackHolds w pending) (room : pending.length < 64) :
    Stored (w.fetched.pushAndJump target).ram 0x80 (frames (w.programCounter :: pending)) := by
  have pointer := holds.pointer
  have first : (w.stackPointer + 1).toNat = w.stackPointer.toNat + 1 :=
    BitVec.toNat_add_of_lt (show w.stackPointer.toNat + 1 < 256 by omega)
  have second : (w.stackPointer + 2).toNat = w.stackPointer.toNat + 2 :=
    BitVec.toNat_add_of_lt (show w.stackPointer.toNat + 2 < 256 by omega)
  rw [frames_cons, stored_append, frames_length]
  constructor
  · refine stored_of_agree holds.bytes ?_
    intro address lower upper
    rw [frames_length] at upper
    rw [read_pushed]
    change (if address = (w.stackPointer + 2).toNat then _
      else if address = (w.stackPointer + 1).toNat then _ else _) = _
    rw [first, second, if_neg (by omega), if_neg (by omega)]
    rfl
  · intro i within
    rw [read_pushed]
    change (if _ = (w.stackPointer + 2).toNat then _
      else if _ = (w.stackPointer + 1).toNat then _ else _) = _
    rw [first, second]
    match i, within with
    | 0, _ =>
      rw [if_neg (by omega), if_pos (by omega)]
      rfl
    | 1, _ =>
      rw [if_pos (by omega)]
      rfl

/-- The bytes on top of the stack spell the address its latest call pushed. -/
theorem popped_pending (holds : StackHolds w (call :: pending)) : w.poppedAddress = pushedAddress call := by
  have pointer := holds.pointer
  have small := holds.depth
  have whole := holds.bytes
  rw [frames_cons, stored_append, frames_length] at whole
  have high := whole.2 0 Nat.zero_lt_two
  have low := whole.2 1 Nat.one_lt_two
  rw [List.length_cons] at pointer small
  have below : (w.stackPointer - 1).toNat = w.stackPointer.toNat - 1 :=
    BitVec.toNat_sub_of_le (show 1 ≤ w.stackPointer.toNat by omega)
  have first : w.stackPointer.toNat - 1 = 0x80 + 2 * pending.length + 0 := by omega
  have second : w.stackPointer.toNat = 0x80 + 2 * pending.length + 1 := by omega
  rw [World.poppedAddress, below, first, second, high, low]
  rfl

/-- A pop leaves the frames below it. -/
theorem stack_pop (holds : StackHolds w (call :: pending)) : Stored w.ram 0x80 (frames pending) := by
  have whole := holds.bytes
  rw [frames_cons, stored_append] at whole
  exact whole.1

/-- Whatever writes no frame keeps them all. -/
theorem stack_kept {next : World} (holds : StackHolds w pending)
    (elsewhere : ∀ address, 0x80 ≤ address → address < 0x80 + 2 * pending.length →
      readAt next.ram address = readAt w.ram address) : Stored next.ram 0x80 (frames pending) := by
  refine stored_of_agree holds.bytes ?_
  rw [frames_length]
  exact elsewhere

/-- One tick keeps the abstract stack and the bytes together. -/
theorem stack_tick (holds : StackHolds w pending) (safe : StackSafe (w, pending) (.tick inputs))
    (ticked : Ticked inputs w instruction next) :
    StackHolds next (pendingAfter w.programCounter pending instruction) := by
  obtain ⟨room, depth, clear⟩ := safe instruction ticked.decoded
  have pointer := ticked.stackPointer
  have ram := ticked.ram
  have start : w.stackPointer.toNat = 0x7F + 2 * pending.length := holds.pointer
  have quiet (notCall : instruction.isCall = false)
      (samePointer : instruction.stackPointerAfter w.fetched = w.stackPointer)
      (samePending : pendingAfter w.programCounter pending instruction = pending)
      (onlyStores : instruction.written w = instruction.stored w) :
      StackHolds next (pendingAfter w.programCounter pending instruction) := by
    rw [samePending]
    refine ⟨holds.depth, by rw [pointer, samePointer, start], stack_kept holds ?_⟩
    intro address lower upper
    rw [ram]
    refine read_elsewhere w.fetched instruction address ?_
    change address ∉ instruction.written w
    rw [onlyStores]
    intro stored
    have outside : address < 0x80 ∨ 0x80 + 2 * pending.length ≤ address := clear address stored
    omega
  cases instruction with
  | call target =>
    have space : pending.length < 64 := room rfl
    refine ⟨space, ?_, ?_⟩
    · have pushed : (w.stackPointer + 2).toNat = w.stackPointer.toNat + 2 :=
        BitVec.toNat_add_of_lt (show w.stackPointer.toNat + 2 < 256 by omega)
      rw [pointer]
      exact pushed.trans (by rw [start]; rfl)
    · rw [ram]
      exact stack_push target holds space
  | ret =>
    cases pending with
    | nil => exact absurd (depth rfl) (Nat.lt_irrefl 0)
    | cons call pending =>
      have small := holds.depth
      rw [List.length_cons] at small start
      refine ⟨Nat.le_of_succ_le small, ?_, ?_⟩
      · have popped : (w.stackPointer - 2).toNat = w.stackPointer.toNat - 2 :=
          BitVec.toNat_sub_of_le (show 2 ≤ w.stackPointer.toNat by omega)
        rw [pointer]
        exact popped.trans (by rw [start]; rfl)
      · have kept : Stored w.ram 0x80 (frames pending) := stack_pop holds
        rw [ram]
        exact kept
  | _ => exact quiet rfl rfl rfl rfl

theorem stack_step (holds : StackHolds w pending) (safe : StackSafe (w, pending) event)
    (stepped : step keys w event = some next) : StackHolds next (recordCalls pending w event) := by
  rcases step_cases stepped with ⟨inputs, instruction, rfl, executed, ticked⟩ |
      ⟨file, rfl, executed, _, rfl⟩ | ⟨executed, _, _, same⟩
  · simp only [recordCalls, executed]
    exact stack_tick holds safe ticked
  · simp only [recordCalls, executed]
    have small := holds.depth
    refine ⟨small, holds.pointer, stack_kept holds fun address _ upper => ?_⟩
    exact read_loaded w file address (by omega)
  · simp only [recordCalls, executed]
    refine ⟨holds.depth, by rw [same.stackPointer, holds.pointer], ?_⟩
    rw [same.ram]
    exact holds.bytes

/-- Runs that are safe at every step keep the stack. -/
theorem stack_of_run (holds : StackHolds w pending)
    (run : Run (withHistory (step keys) recordCalls) StackSafe (w, pending) events (next, reached)) :
    StackHolds next reached := by
  refine run_invariant (fun p => StackHolds p.1 p.2) ?_ holds run
  rintro ⟨w, pending⟩ event ⟨next, reached⟩ holding safe stepped
  obtain ⟨happened, rfl⟩ := with_history_step.mp stepped
  exact stack_step holding safe happened

/-! ## The abstract stack of return addresses -/

/-- Calls at addresses whose successor fits twelve bits, at most 64 pending;
returns with a call pending; stores outside the whole stack region. -/
def Disciplined (p : World × Pending) (event : Event) : Prop :=
  ∀ instruction ∈ event.instruction p.1,
    (instruction.isCall → p.1.programCounter.toNat ≤ 0xFFC ∧ p.2.length < 64) ∧
    (instruction = .ret → 0 < p.2.length) ∧
    ∀ address ∈ instruction.stored p.1, address < 0x80 ∨ 0xFF < address

instance : ∀ p event, Decidable (Disciplined p event) := fun _ _ =>
  inferInstanceAs (Decidable (∀ _ ∈ _, _))

/-- The two bytes of an address, high byte first. -/
def wordBytes (address : DByte) : List Byte := [(address >>> 8).setWidth 8, address.setWidth 8]

theorem disciplined_safe (small : pending.length ≤ 64) (disciplined : Disciplined (w, pending) event) :
    StackSafe (w, pending) event := by
  intro instruction executed
  obtain ⟨calls, returns, stores⟩ := disciplined instruction executed
  refine ⟨fun isCall => (calls isCall).2, returns, fun address stored => ?_⟩
  have outside : address < 0x80 ∨ 0xFF < address := stores address stored
  change address < 0x80 ∨ 0x80 + 2 * pending.length ≤ address
  omega

private theorem successor_toNat {call : DByte} (low : call.toNat ≤ 0xFFC) : (call + 2).toNat = call.toNat + 2 := by
  rw [BitVec.toNat_add]
  simp
  omega

/-- Below 0xFFD nothing of the return address is cut off. -/
theorem pushed_bytes_low (low : call.toNat ≤ 0xFFC) : pushedBytes call = wordBytes (call + 2) := by
  have high : highByte (call + 2) = ((call + 2) >>> 8).setWidth 8 := by
    apply BitVec.eq_of_toNat_eq
    simp only [highByte, BitVec.toNat_ofNat, BitVec.toNat_setWidth, BitVec.toNat_ushiftRight,
      Nat.shiftRight_eq_div_pow, successor_toNat low]
    omega
  rw [pushedBytes, wordBytes, high, lowByte]

theorem pushed_address_low (low : call.toNat ≤ 0xFFC) : pushedAddress call = call + 2 := by
  apply BitVec.eq_of_toNat_eq
  rw [pushedAddress, append_toNat]
  simp only [highByte, lowByte, BitVec.toNat_ofNat, BitVec.toNat_setWidth, successor_toNat low]
  omega

theorem frames_low (low : ∀ call ∈ pending, call.toNat ≤ 0xFFC) :
    frames pending = pending.reverse.flatMap fun call => wordBytes (call + 2) := by
  unfold frames
  apply List.flatMap_congr
  intro call member
  exact pushed_bytes_low (low call (List.mem_reverse.mp member))

theorem pending_low (low : ∀ call ∈ pending, call.toNat ≤ 0xFFC) (disciplined : Disciplined (w, pending) event) :
    ∀ call ∈ recordCalls pending w event, call.toNat ≤ 0xFFC := by
  unfold recordCalls
  cases executed : event.instruction w with
  | none => exact low
  | some instruction =>
    obtain ⟨calls, _, _⟩ := disciplined instruction executed
    cases instruction with
    | call target => exact List.forall_mem_cons.mpr ⟨(calls rfl).1, low⟩
    | ret => exact fun call member => low call (List.mem_of_mem_tail member)
    | _ => exact low

/-- At every step of a disciplined run the stack pointer counts the pending
calls, RAM holds their return addresses in order, and a return goes past its
matching call. -/
theorem call_stack_refines {keys : QtKeys} {now : Time} {events : List Event} {w : World} {pending : Pending}
    (run : Run (withHistory (step keys) recordCalls) Disciplined (World.construct now, []) events (w, pending)) :
    w.stackPointer.toNat = 0x7F + 2 * pending.length ∧
    Stored w.ram 0x80 (pending.reverse.flatMap fun call => wordBytes (call + 2)) ∧
    ∀ inputs next, Disciplined (w, pending) (.tick inputs) → step keys w (.tick inputs) = some next →
      decode w.opcodeAt = some .ret →
      ∃ call outer, pending = call :: outer ∧ next.programCounter = call + 2 := by
  have invariant : StackHolds w pending ∧ ∀ call ∈ pending, call.toNat ≤ 0xFFC := by
    refine run_invariant (fun p : World × Pending => StackHolds p.1 p.2 ∧ ∀ call ∈ p.2, call.toNat ≤ 0xFFC)
      ?_ ⟨stack_initial now, by simp⟩ run
    rintro ⟨w, pending⟩ event ⟨next, reached⟩ ⟨holds, low⟩ disciplined stepped
    obtain ⟨happened, rfl⟩ := with_history_step.mp stepped
    exact ⟨stack_step holds (disciplined_safe holds.depth disciplined) happened, pending_low low disciplined⟩
  obtain ⟨holds, low⟩ := invariant
  refine ⟨holds.pointer, frames_low low ▸ holds.bytes, ?_⟩
  intro inputs next disciplined stepped returns
  obtain ⟨instruction, ticked⟩ := step_tick_iff.mp stepped
  obtain rfl : instruction = .ret := Option.some.inj (ticked.decoded.symm.trans returns)
  obtain ⟨_, depth, _⟩ := disciplined .ret returns
  cases pending with
  | nil => exact absurd (depth rfl) (Nat.lt_irrefl 0)
  | cons call outer =>
    refine ⟨call, outer, rfl, ?_⟩
    have popped := popped_pending holds
    rw [pushed_address_low (low call List.mem_cons_self)] at popped
    rw [ticked.programCounter]
    exact popped

/-- A call at 0x200 to a return at 0x204. -/
theorem call_stack_refines_single : ∃ w : World,
    w.stackPointer.toNat = 0x81 ∧ Stored w.ram 0x80 [0x02, 0x02] ∧
    ∀ inputs next, Disciplined (w, [0x200]) (.tick inputs) → step .latin w (.tick inputs) = some next →
      decode w.opcodeAt = some .ret → next.programCounter = 0x202 := by
  obtain ⟨⟨w, pending⟩, run, ends⟩ := run_of_test (withHistory (step .latin) recordCalls)
    Disciplined (World.construct 0, [])
    [.load (some [0x22, 0x04, 0x00, 0x00, 0x00, 0xEE]), .tick (.reading 0)]
    (fun p => p.2 = [0x200]) (by decide)
  obtain rfl : pending = [0x200] := of_decide_eq_true ends
  obtain ⟨pointer, bytes, returns⟩ := call_stack_refines run
  refine ⟨w, pointer, bytes, fun inputs next disciplined stepped isReturn => ?_⟩
  obtain ⟨call, outer, split, target⟩ := returns inputs next disciplined stepped isReturn
  cases split
  exact target

/-! ## Underflow -/

/-- The pointer is at or above its base, and a return executed next goes where
its pending call pushed. -/
def NoUnderflow (keys : QtKeys) (allowed : World × Pending → Event → Prop) (p : World × Pending) : Prop :=
  0x7F ≤ p.1.stackPointer.toNat ∧
  ∀ inputs next, allowed p (.tick inputs) → step keys p.1 (.tick inputs) = some next →
    decode p.1.opcodeAt = some .ret → ∃ call outer, p.2 = call :: outer ∧ next.programCounter = pushedAddress call

/-- The handler only logs an underflow, so the program has to be safe itself. -/
theorem safe_runs_never_underflow {keys : QtKeys} {now : Time} {events : List Event} {p : World × Pending}
    (run : Run (withHistory (step keys) recordCalls) StackSafe (World.construct now, []) events p) :
    NoUnderflow keys StackSafe p := by
  obtain ⟨w, pending⟩ := p
  have holds := stack_of_run (stack_initial now) run
  have pointer := holds.pointer
  refine ⟨show 0x7F ≤ w.stackPointer.toNat by omega, ?_⟩
  intro inputs next safe stepped returns
  obtain ⟨instruction, ticked⟩ := step_tick_iff.mp stepped
  obtain rfl : instruction = .ret := Option.some.inj (ticked.decoded.symm.trans returns)
  obtain ⟨_, depth, _⟩ := safe .ret returns
  cases pending with
  | nil => exact absurd (depth rfl) (Nat.lt_irrefl 0)
  | cons call outer =>
    have popped := popped_pending holds
    refine ⟨call, outer, rfl, ?_⟩
    rw [ticked.programCounter]
    exact popped

theorem call_and_return_never_underflow : ∃ w : World, w.stackPointer.toNat = 0x7F ∧
    NoUnderflow .latin StackSafe (w, []) := by
  obtain ⟨⟨w, pending⟩, run, ends⟩ := run_of_test (withHistory (step .latin) recordCalls)
    StackSafe (World.construct 0, [])
    [.load (some [0x22, 0x04, 0x00, 0x00, 0x00, 0xEE]), .tick (.reading 0), .tick (.reading 0)]
    (fun p => p.1.stackPointer = 0x7F ∧ p.2 = []) (by decide)
  obtain ⟨pointer, rfl⟩ : w.stackPointer = 0x7F ∧ pending = [] := of_decide_eq_true ends
  exact ⟨w, congrArg BitVec.toNat pointer, safe_runs_never_underflow run⟩

/-- A return with no call before it moves the pointer below its base. -/
theorem return_without_call_underflows :
    ¬ ∀ (keys : QtKeys) (now : Time) (events : List Event) (p : World × Pending),
      Run (withHistory (step keys) recordCalls) (fun p event => Live p.1 event)
        (World.construct now, []) events p →
      NoUnderflow keys (fun p event => Live p.1 event) p := by
  intro always
  obtain ⟨p, run, ends⟩ := run_of_test (withHistory (step .latin) recordCalls)
    (fun p event => Live p.1 event) (World.construct 0, [])
    [.load (some [0x00, 0xEE]), .startCpu, .tick (.reading 0)]
    (fun p : World × Pending => p.1.stackPointer = 0x7D) (by decide)
  obtain ⟨above, _⟩ := always .latin 0 _ p run
  have pointer : p.1.stackPointer = 0x7D := of_decide_eq_true ends
  rw [pointer] at above
  exact absurd above (by decide)

end Chip8Emulator.CallStack
