import Chip8Emulator.InstructionFrames
import Chip8Emulator.Foundations.Interleavings

/-! Several machines in one process. Everything a machine is made of belongs to
its object, except that the key wait and the throttle of the monitor keep their
state in function-local statics. The throttle reaches only the signals, but a
machine that waits for a key can find the wait of another. -/
namespace Chip8Emulator.Isolation
open Foundations.Runs Foundations.Interleavings

/-- An object with what it has emitted, apart from the statics. -/
def parts : World ≃ (Chip8Pc × List Signal) × Statics where
  toFun w := ((w.toChip8Pc, w.emitted), w.toStatics)
  invFun p := { toChip8Pc := p.1.1, toStatics := p.2, emitted := p.1.2 }
  left_inv _ := rfl
  right_inv _ := rfl

/-- The machines of a process. -/
abbrev Machines (ι : Type) := Together ι (Chip8Pc × List Signal) Statics

/-- What of a machine is to be its own affair. -/
@[ext] structure Observed where
  vRegisters : Fin 16 → Byte
  indexRegister : DByte
  programCounter : DByte
  stackPointer : Byte
  ram : Fin 4096 → Byte
  frameBuffer : FrameBuffer
  keyStatuses : Fin 16 → Int
  lastActiveKey : Int
  /-- Absent while there is no timer to ask. -/
  running : Option Bool

def observe (pc : Chip8Pc) : Observed where
  vRegisters := pc.vRegisters
  indexRegister := pc.indexRegister
  programCounter := pc.programCounter
  stackPointer := pc.stackPointer
  ram := pc.ram
  frameBuffer := pc.frameBuffer
  keyStatuses := pc.interestedKeysStatuses
  lastActiveKey := pc.lastActiveKey
  running := pc.mainProcessTimer.map (·.isActive)

/-- The registers after `Fx0A` found this latch: the key in the register of the
pending wait, if there is one. -/
def delivered (latch : DByte) (pc : Chip8Pc) : Fin 16 → Byte :=
  if latch = 0 then pc.vRegisters else Function.update pc.vRegisters (xOf latch) (BitVec.ofInt 8 pc.lastActiveKey)

/-- The timer after `Fx0A` found this latch. -/
def timed (latch : DByte) (pc : Chip8Pc) : Option QTimer :=
  if latch = 0 then pc.mainProcessTimer.map fun _ => { isActive := false } else some { isActive := true }

/-- The object after `Fx0A` found this latch. -/
def waited (latch : DByte) (pc : Chip8Pc) : Chip8Pc :=
  { pc with
    vRegisters := delivered latch pc
    mainProcessTimer := timed latch pc }

/-- The object after the end of a tick, which does not look at the statics. -/
def finished (inputs : TickInputs) (pc : Chip8Pc) : Chip8Pc :=
  (World.finish { toChip8Pc := pc, toStatics := .initial, emitted := [] } inputs).toChip8Pc

theorem finish_object (w : World) (inputs : TickInputs) :
    (w.finish inputs).toChip8Pc = finished inputs w.toChip8Pc := rfl

theorem begin_or_complete_object (w : World) (opcode : DByte) (readings : SteadyReadings) :
    (if w.lastOpcode = 0 then w.beginWait opcode readings else w.completeWait).toChip8Pc =
      waited w.lastOpcode w.toChip8Pc := by
  unfold waited delivered timed
  by_cases idle : w.lastOpcode = 0
  · simp only [if_pos idle]
    rfl
  · simp only [if_neg idle]
    rfl

theorem finished_waited (inputs : TickInputs) (latch : DByte) (pc : Chip8Pc) :
    finished inputs (waited latch pc) = { finished inputs pc with
      vRegisters := delivered latch pc
      mainProcessTimer := if pc.programCounter.toNat = ramSize
        then (timed latch pc).map fun _ => { isActive := false } else timed latch pc } := rfl

theorem timer_of_running {timer other : Option QTimer} (same : timer.map (·.isActive) = other.map (·.isActive)) :
    timer = other := by
  refine Option.map_injective ?_ same
  rintro ⟨active⟩ ⟨otherActive⟩ equal
  exact congrArg QTimer.mk equal

/-- One latch stops the timer and the other starts it unless both are set or neither is. -/
theorem timed_eq_iff : timed first pc = timed second pc ↔ (first = 0 ↔ second = 0) := by
  unfold timed
  by_cases idle : first = 0#16 <;> by_cases otherIdle : second = 0#16 <;> cases pc.mainProcessTimer <;>
    simp [idle, otherIdle]

theorem timed_stopped_eq_iff :
    ((timed first pc).map fun _ => QTimer.mk false) = ((timed second pc).map fun _ => QTimer.mk false) ↔
      (first = 0 ↔ second = 0) ∨ pc.mainProcessTimer ≠ none := by
  unfold timed
  by_cases idle : first = 0#16 <;> by_cases otherIdle : second = 0#16 <;> cases pc.mainProcessTimer <;>
    simp [idle, otherIdle]

/-- Two latches have the same effect. -/
def SameLatch (first second : DByte) (pc : Chip8Pc) : Prop :=
  delivered first pc = delivered second pc ∧ (first = 0 ↔ second = 0)

/-- Two latches have the same effect at the end of a tick, which stops the timer
at the end of RAM. -/
def SameAtTick (first second : DByte) (pc : Chip8Pc) : Prop :=
  delivered first pc = delivered second pc ∧
    ((first = 0 ↔ second = 0) ∨ pc.programCounter.toNat = ramSize ∧ pc.mainProcessTimer ≠ none)

theorem ends_alike (same : SameAtTick first second pc) :
    finished inputs (waited first pc) = finished inputs (waited second pc) := by
  obtain ⟨registers, timers⟩ := same
  simp only [finished_waited, registers]
  split
  · rename_i ends
    rw [timed_stopped_eq_iff.mpr (timers.imp_right And.right)]
  · rename_i goesOn
    rw [timed_eq_iff.mpr (timers.resolve_right fun ended => goesOn ended.1)]

theorem same_at_tick
    (looks : observe (finished inputs (waited first pc)) = observe (finished inputs (waited second pc))) :
    SameAtTick first second pc := by
  have timers := timer_of_running (congrArg Observed.running looks)
  simp only [finished_waited] at timers
  refine ⟨congrArg Observed.vRegisters looks, ?_⟩
  split at timers
  · rename_i ends
    exact (timed_stopped_eq_iff.mp timers).imp_right fun created => ⟨ends, created⟩
  · exact .inl (timed_eq_iff.mp timers)

theorem waited_alike (same : SameLatch first second pc) : waited first pc = waited second pc := by
  simp only [waited, same.1, timed_eq_iff.mpr same.2]

theorem same_latch (looks : observe (waited first pc) = observe (waited second pc)) : SameLatch first second pc :=
  ⟨congrArg Observed.vRegisters looks, timed_eq_iff.mp (timer_of_running (congrArg Observed.running looks))⟩

/-! ## One event -/

section Objects
variable {v w : World} (same : v.toChip8Pc = w.toChip8Pc)
include same

theorem fetched_object : v.fetched.toChip8Pc = w.fetched.toChip8Pc := by
  obtain ⟨pc, statics, emitted⟩ := v
  obtain ⟨other, otherStatics, otherEmitted⟩ := w
  obtain rfl : pc = other := same
  rfl

theorem opcode_object : v.opcodeAt = w.opcodeAt := by
  rw [World.opcodeAt, World.opcodeAt, same]

/-- An instruction other than `Fx0A` does not look at the statics. -/
theorem execute_object (inputs : TickInputs) (notWait : ∀ x, instruction ≠ .waitKey x) :
    (execute inputs v instruction).map (·.toChip8Pc) = (execute inputs w instruction).map (·.toChip8Pc) := by
  obtain ⟨pc, statics, emitted⟩ := v
  obtain ⟨other, otherStatics, otherEmitted⟩ := w
  obtain rfl : pc = other := same
  cases instruction with
  | waitKey x => exact absurd rfl (notWait x)
  | draw | bcd | save | restore =>
    simp only [execute, apply_ite (Except.map _)]
    rfl
  | skipIfKey | skipUnlessKey =>
    simp only [execute, apply_dite (Except.map _)]
    rfl
  | _ => rfl

theorem ticked_object (notWait : ∀ x, instruction ≠ .waitKey x)
    (ticked : Ticked inputs v instruction next) :
    ∃ after, Ticked inputs w instruction after ∧ next.toChip8Pc = after.toChip8Pc := by
  refine ticked_matched (·.toChip8Pc) (congrArg Chip8Pc.programCounter same) (opcode_object same)
    (execute_object (fetched_object same) inputs notWait) ?_ ticked
  intro s t equal
  change s.toChip8Pc = t.toChip8Pc at equal
  rw [finish_object, finish_object, equal]

theorem wait_ticks (ticked : Ticked inputs v (.waitKey x) next) :
    ∃ after, Ticked inputs w (.waitKey x) after :=
  ⟨_, same ▸ ticked.fits, opcode_object same ▸ ticked.decoded, _, rfl, rfl⟩

end Objects

/-- The object after a tick that executes `Fx0A`. -/
theorem wait_object (ticked : Ticked inputs w (.waitKey x) next) :
    next.toChip8Pc = finished inputs (waited w.lastOpcode w.fetched.toChip8Pc) := by
  obtain ⟨executed, effect, rfl⟩ := ticked.executes
  cases effect
  rw [finish_object]
  exact congrArg (finished inputs) (begin_or_complete_object w.fetched (waitOpcode x) inputs.wait)

/-- The object after the release of a hexadecimal key under a stopped timer. -/
theorem release_object (found : keys.find key = some k) (stopped : w.mainProcessTimer = some { isActive := false }) :
    ∃ after, step keys w (.keyRelease key readings) = some after ∧
      after.toChip8Pc = waited w.lastOpcode (w.recordKey k 0).toChip8Pc := by
  refine ⟨_, ?_, begin_or_complete_object (w.recordKey k 0) 0 readings⟩
  rw [release_iff found]
  by_cases idle : w.lastOpcode = 0
  · exact .inr (.inl ⟨stopped, idle, if_pos idle⟩)
  · exact .inr (.inr ⟨stopped, idle, if_neg idle⟩)

/-! ## Isolation -/

/-- The latch an event finds has the effect of the one its machine would find alone. -/
def Settled (keys : QtKeys) (statics : Statics) (w : World) : Event → Prop
  | .tick _ => ∀ x, decode w.opcodeAt = some (.waitKey x) →
      SameAtTick statics.lastOpcode w.lastOpcode w.fetched.toChip8Pc
  | .keyRelease key _ => ∀ k, keys.find key = some k → w.mainProcessTimer = some { isActive := false } →
      SameLatch statics.lastOpcode w.lastOpcode (w.recordKey k 0).toChip8Pc
  | _ => True

/-- The machine alone follows an event, to the same object exactly where the
event is settled, and to one that looks different where it is not. -/
def Followed (keys : QtKeys) (v w : World) (event : Event) (next : World) : Prop :=
  ∃ after, step keys w event = some after ∧
    (Settled keys v.toStatics w event → next.toChip8Pc = after.toChip8Pc) ∧
    (observe next.toChip8Pc = observe after.toChip8Pc → Settled keys v.toStatics w event)

theorem followed_same (stepped : step keys w event = some after) (equal : next.toChip8Pc = after.toChip8Pc)
    (settled : Settled keys v.toStatics w event) : Followed keys v w event next :=
  ⟨after, stepped, fun _ => equal, fun _ => settled⟩

section Objects
variable {v w : World} (same : v.toChip8Pc = w.toChip8Pc)
include same

theorem tick_followed (ticked : Ticked inputs v instruction next) : Followed keys v w (.tick inputs) next := by
  have decoded : decode w.opcodeAt = some instruction := opcode_object same ▸ ticked.decoded
  by_cases waits : ∃ x, instruction = .waitKey x
  · obtain ⟨x, rfl⟩ := waits
    obtain ⟨after, follows⟩ := wait_ticks same ticked
    refine ⟨after, step_tick_iff.mpr ⟨_, follows⟩, ?_⟩
    rw [wait_object ticked, wait_object follows, fetched_object same]
    exact ⟨fun settled => ends_alike (settled x decoded), fun looks _ _ => same_at_tick looks⟩
  · have notWait : ∀ x, instruction ≠ .waitKey x := not_exists.mp waits
    obtain ⟨after, follows, equal⟩ := ticked_object same notWait ticked
    refine followed_same (step_tick_iff.mpr ⟨_, follows⟩) equal fun x executes => ?_
    exact absurd (Option.some.inj (decoded.symm.trans executes)) (notWait x)

theorem release_followed (found : keys.find key = some k) (stopped : v.mainProcessTimer = some { isActive := false })
    (stepped : step keys v (.keyRelease key readings) = some next) :
    Followed keys v w (.keyRelease key readings) next := by
  have recorded : (v.recordKey k 0).toChip8Pc = (w.recordKey k 0).toChip8Pc := by
    simp only [World.recordKey, same]
  have otherStopped : w.mainProcessTimer = some { isActive := false } := same ▸ stopped
  obtain ⟨reached, again, object⟩ := release_object found stopped
  obtain rfl : next = reached := Option.some.inj (stepped.symm.trans again)
  obtain ⟨after, follows, otherObject⟩ := release_object found otherStopped
  refine ⟨after, follows, ?_⟩
  rw [object, otherObject, recorded]
  constructor
  · intro settled
    exact waited_alike (settled k found otherStopped)
  · intro looks j alsoFound _
    obtain rfl : k = j := Option.some.inj (found.symm.trans alsoFound)
    exact same_latch looks

end Objects

theorem settled_matches (keys : QtKeys) : MatchedWhen parts (step keys) Prod.fst observe (Settled keys) := by
  intro v w event next same stepped
  change v.toChip8Pc = w.toChip8Pc at same
  change Followed keys v w event next
  cases step_iff.mp stepped with
  | tick ticked => exact tick_followed same ticked
  | start => exact followed_same step_startCpu (by simp only [World.startTimer, same]) trivial
  | stop => exact followed_same step_stopCpu (by simp only [World.stopTimer, same]) trivial
  | otherPress missing => exact followed_same (step_iff.mpr (.otherPress missing)) same trivial
  | press found =>
    exact followed_same (step_iff.mpr (.press found)) (by simp only [World.recordKey, same]) trivial
  | otherRelease missing =>
    refine followed_same (step_iff.mpr (.otherRelease missing)) same fun k found => ?_
    rw [missing] at found
    contradiction
  | releaseRunning found running =>
    have otherRunning : w.Running := same ▸ running
    refine followed_same (step_iff.mpr (.releaseRunning found otherRunning))
      (by simp only [World.recordKey, same]) fun k _ stopped => ?_
    rw [Chip8Pc.Running, stopped] at otherRunning
    contradiction
  | releaseIdle found stopped => exact release_followed same found stopped stepped
  | releaseWaiting found stopped => exact release_followed same found stopped stepped
  | cancelled => exact followed_same step_load_cancelled same trivial
  | loaded fits => exact followed_same (step_iff.mpr (.loaded fits)) (by simp only [World.loaded, same]) trivial

/-- Machines of one process, driven by any interleaving of their events, are
isolated exactly if every `Fx0A` and every release that looks at the latch
finds one with the effect of what its own machine left there. -/
theorem machines_isolated_iff {ι : Type} [DecidableEq ι] {keys : QtKeys} {start last : Machines ι}
    {events : List (ι × Event)} (run : Run (takeTurn parts (step keys)) (fun _ _ => True) start events last) :
    Isolated parts (step keys) (fun machine => observe machine.1) start events ↔
      EachMeets parts (step keys) (Settled keys) start events :=
  isolated_iff_each_meets (settled_matches keys) run

/-- Two fresh machines that have loaded the same program, in a fresh process. -/
def loadedWith (program : List Byte) : Machines Bool where
  component := fun _ => (((World.construct 0).loaded program).toChip8Pc, [])
  shared := .initial

/-- The latch an event could look at is the one its machine has when alone. -/
def findsOwnLatch (statics : Statics) (w : World) : Event → Bool
  | .tick _ | .keyRelease _ _ => statics.lastOpcode = w.lastOpcode
  | _ => true

theorem settled_of_own_latch (statics : Statics) (w : World) (event : Event)
    (own : findsOwnLatch statics w event = true) : Settled keys statics w event := by
  cases event with
  | tick inputs =>
    have same : statics.lastOpcode = w.lastOpcode := of_decide_eq_true own
    intro x _
    rw [same]
    exact ⟨rfl, .inl Iff.rfl⟩
  | keyRelease key readings =>
    have same : statics.lastOpcode = w.lastOpcode := of_decide_eq_true own
    intro k _ _
    rw [same]
    exact ⟨rfl, Iff.rfl⟩
  | _ => trivial

/-- Each machine waits and is given its key before the other one waits. -/
def waitsInTurn : List (Bool × Event) :=
  [(true, .startCpu), (false, .startCpu), (true, .tick (.reading 0)), (false, .keyPress 0x39),
    (true, .keyPress 0x35), (true, .keyRelease 0x35 ⟨0, 0⟩), (false, .tick (.reading 0)),
    (false, .keyPress 0x37), (false, .keyRelease 0x37 ⟨0, 0⟩)]

/-- Two machines that execute `F00A` in turn are isolated, and each gets its own key. -/
theorem machines_isolated_iff_in_turn : ∃ last : Machines Bool,
    Run (takeTurn parts (step .latin)) (fun _ _ => True) (loadedWith [0xF0, 0x0A]) waitsInTurn last ∧
    (last.component true).1.vRegisters 0 = 5 ∧ (last.component false).1.vRegisters 0 = 7 ∧
    Isolated parts (step .latin) (fun machine => observe machine.1) (loadedWith [0xF0, 0x0A]) waitsInTurn := by
  obtain ⟨last, run, ends⟩ := run_of_test (takeTurn parts (step .latin)) (fun _ _ => True) (loadedWith [0xF0, 0x0A])
    waitsInTurn (fun m => (m.component true).1.vRegisters 0 = 5 ∧ (m.component false).1.vRegisters 0 = 7) (by decide)
  obtain ⟨first, second⟩ := of_decide_eq_true ends
  exact ⟨last, run, first, second,
    (machines_isolated_iff run).mpr (each_meets_of_test settled_of_own_latch (by decide))⟩

/-- Two machines execute `F00A` one after the other. The second finds the wait
of the first, completes it and runs on, where alone it would stop. -/
theorem wait_found_by_other :
    ¬ ∀ (keys : QtKeys) (start last : Machines Bool) (events : List (Bool × Event)),
      Run (takeTurn parts (step keys)) (fun _ _ => True) start events last →
      Isolated parts (step keys) (fun machine => observe machine.1) start events := by
  intro always
  obtain ⟨last, run, ends⟩ := run_of_test (takeTurn parts (step .latin)) (fun _ _ => True) (loadedWith [0xF0, 0x0A])
    [(true, .startCpu), (true, .tick (.reading 0)), (false, .startCpu), (false, .tick (.reading 0))]
    (fun m => (m.component false).1.mainProcessTimer = some { isActive := true }) (by decide)
  have runs : (last.component false).1.mainProcessTimer = some { isActive := true } := of_decide_eq_true ends
  obtain ⟨v, alone, stops⟩ := run_of_test (step .latin) (fun _ _ => True)
    ((loadedWith [0xF0, 0x0A]).state parts false) [.startCpu, .tick (.reading 0)]
    (fun w : World => w.mainProcessTimer = some { isActive := false }) (by decide)
  have stopped : v.mainProcessTimer = some { isActive := false } := of_decide_eq_true stops
  obtain ⟨w, solo, looks⟩ := always .latin _ last _ run _ [] last false (List.append_nil _).symm run
  obtain rfl := run_deterministic solo alone
  have running : (last.component false).1.mainProcessTimer = w.mainProcessTimer :=
    timer_of_running (congrArg Observed.running looks)
  rw [runs, stopped] at running
  contradiction

end Chip8Emulator.Isolation
