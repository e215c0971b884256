import Chip8Emulator.FontGlyphs

/-! Loading a file. It replaces the bytes the file covers and darkens the
screen; the zeroed copy of RAM it builds is thrown away, and the registers, the
counters and the latch of a pending wait are not touched. -/
namespace Chip8Emulator.Loading
open Foundations.Loops Foundations.Memory Foundations.Runs FontGlyphs

/-! ## Program memory -/

/-- RAM is what the file and the glyph table say and zero above the file. -/
structure MemoryDetermined (file : List Byte) (w : World) : Prop where
  contents : Stored w.ram 0x200 file
  zeros : ∀ address : Fin 4096, 0x200 + file.length ≤ address.val → w.ram address = 0
  fonts : FontsIntact w

/-- RAM above a file of some length is already zero. -/
def BlankAbove (length : Nat) (w : World) : Prop :=
  ∀ address : Fin 4096, 0x200 + length ≤ address.val → w.ram address = 0

theorem loaded_contents (w : World) (fits : file.length ≤ 3584) : Stored (w.loaded file).ram 0x200 file :=
  stored_store (by omega)

theorem loaded_above (w : World) (file : List Byte) (address : Fin 4096) (above : 0x200 + file.length ≤ address.val) :
    (w.loaded file).ram address = w.ram address :=
  store_outside w.ram 0x200 file address (.inr above)

theorem loaded_fonts (w : World) (file : List Byte) : FontsIntact (w.loaded file) ↔ FontsIntact w := by
  have same (address : Nat) (low : address < fonts.flatten.length) :
      readAt (w.loaded file).ram address = readAt w.ram address :=
    read_loaded w file address (Nat.lt_trans low (by decide))
  constructor
  · exact fun intact => stored_of_agree intact fun address _ upper => (same address (by omega)).symm
  · exact fun intact => stored_of_agree intact fun address _ upper => same address (by omega)

/-- A load determines program memory exactly where RAM above the file was
zero and the glyph table in place already. -/
theorem load_determines_memory_iff (keys : QtKeys) (w : World) (file : List Byte) (fits : file.length ≤ 3584) :
    ∃ next, step keys w (.load (some file)) = some next ∧
      (MemoryDetermined file next ↔ BlankAbove file.length w ∧ FontsIntact w) := by
  refine ⟨w.loaded file, by rw [step_load, if_pos fits], ?_⟩
  constructor
  · rintro ⟨_, zeros, intact⟩
    refine ⟨fun address above => ?_, (loaded_fonts w file).mp intact⟩
    rw [← loaded_above w file address above]
    exact zeros address above
  · rintro ⟨blank, intact⟩
    refine ⟨loaded_contents w fits, fun address above => ?_, (loaded_fonts w file).mpr intact⟩
    rw [loaded_above w file address above]
    exact blank address above

/-- The fonts end long before the user base. -/
theorem blank_initial (now : Time) (length : Nat) : BlankAbove length (.construct now) := by
  intro address above
  have fonts_end : fonts.flatten.length = 80 := by decide
  exact List.getD_eq_default _ _ (by omega)

/-- The first load of a session. -/
theorem load_determines_fresh_memory : ∃ next,
    step .latin (.construct 0) (.load (some [0x12, 0x34])) = some next ∧ next.ram 0x201 = 0x34 ∧
      MemoryDetermined [0x12, 0x34] next := by
  obtain ⟨next, loads, determined⟩ := load_determines_memory_iff .latin (.construct 0) [0x12, 0x34] (by decide)
  have whole := determined.mpr ⟨blank_initial 0 2, fonts_initial 0⟩
  exact ⟨next, loads, whole.contents 1 (by decide), whole⟩

/-- A shorter file leaves the end of a longer one. -/
theorem second_load_keeps_old_bytes :
    ¬ ∀ (keys : QtKeys) (now : Time) (events : List Event) (w next : World) (file : List Byte),
      Run (step keys) Live (.construct now) events w → file.length ≤ 3584 →
      step keys w (.load (some file)) = some next → MemoryDetermined file next := by
  intro always
  obtain ⟨w, run, ends⟩ := run_of_test (step .latin) Live (.construct 0) [.load (some [0x12, 0x34])]
    (fun w : World => w.ram 0x201 = 0x34) (by decide)
  have old : w.ram 0x201 = 0x34 := of_decide_eq_true ends
  have second : step .latin w (.load (some [0x56])) = some (w.loaded [0x56]) := step_load
  have determined := always .latin 0 _ w _ [0x56] run (by decide) second
  have zero := determined.zeros 0x201 (by decide)
  rw [loaded_above w [0x56] 0x201 (by decide), old] at zero
  exact absurd zero (by decide)

/-! ## Bounds -/

/-- The load stores no byte past the end of RAM and changes none below the user base. -/
def StoresInside (file : Option (List Byte)) (w : World) : Prop :=
  (∀ next, (load file).run w ≠ .error .loadOverrun next) ∧
    ∀ cell : Fin 4096, cell.val < 0x200 → (endState ((load file).run w)).ram cell = w.ram cell

/-- Copying stores from its start on, also where it overruns. -/
theorem copy_keeps_below (w : World) (input : List Byte) (address : Nat) (cell : Fin 4096)
    (below : cell.val < address) : (endState ((copyToRam input address).run w)).ram cell = w.ram cell := by
  induction input generalizing w address with
  | nil => rfl
  | cons byte input ih =>
    by_cases bound : address < 4096
    · have other : cell ≠ ⟨address, bound⟩ := fun same => Nat.ne_of_lt below (congrArg Fin.val same)
      have kept : Function.update w.ram ⟨address, bound⟩ byte cell = w.ram cell := Function.update_of_ne other _ _
      have rest := ih { w with ram := Function.update w.ram ⟨address, bound⟩ byte } (address + 1) (by omega)
      simpa [copyToRam, bound] using rest.trans kept
    · simp [copyToRam, bound, endState]

theorem load_keeps_below (w : World) (file : Option (List Byte)) (cell : Fin 4096) (below : cell.val < 0x200) :
    (endState ((load file).run w)).ram cell = w.ram cell := by
  cases file with
  | none => rfl
  | some input =>
    have copied := copy_keeps_below w input 0x200 cell below
    rw [load_file, EStateM.run_bind]
    cases ends : (copyToRam input 0x200).run w with
    | ok _ next =>
      rw [ends] at copied
      exact copied
    | error fault next =>
      rw [ends] at copied
      exact copied

/-- A load stays inside exactly if its file fits above the user base. -/
theorem stores_inside_iff (file : Option (List Byte)) (w : World) :
    StoresInside file w ↔ ∀ bytes, file = some bytes → bytes.length ≤ 3584 := by
  constructor
  · rintro ⟨noOverrun, _⟩ bytes rfl
    by_contra long
    obtain ⟨next, overruns⟩ := run_copyToRam_overrun w bytes 0x200 (by decide) (by omega)
    apply noOverrun next
    rw [load_file, EStateM.run_bind, overruns]
  · intro fits
    refine ⟨fun next overruns => ?_, load_keeps_below w file⟩
    cases file with
    | none => contradiction
    | some bytes =>
      have copied := run_copyToRam w bytes 0x200 (by have short := fits bytes rfl; omega)
      rw [load_file, EStateM.run_bind, copied] at overruns
      contradiction

/-- One byte more than fits. -/
theorem long_file_overruns : ¬ ∀ (file : Option (List Byte)) (w : World), StoresInside file w := by
  intro always
  obtain ⟨next, overruns⟩ := run_copyToRam_overrun (.construct 0) (List.replicate 3585 0x00) 0x200
    (by decide) (by rw [List.length_replicate]; decide)
  apply (always (some (List.replicate 3585 0x00)) (.construct 0)).1 next
  rw [load_file, EStateM.run_bind, overruns]

/-! ## Execution state -/

/-- What decides how execution goes on. -/
@[ext] structure Execution where
  programCounter : DByte
  stackPointer : Byte
  vRegisters : Fin 16 → Byte
  indexRegister : DByte
  delayTimer : DByte
  latch : DByte

def execution (w : World) : Execution where
  programCounter := w.programCounter
  stackPointer := w.stackPointer
  vRegisters := w.vRegisters
  indexRegister := w.indexRegister
  delayTimer := w.delayTimer
  latch := w.lastOpcode

/-- The execution state of every freshly constructed machine. -/
def fresh : Execution := execution (.construct 0)

theorem load_keeps_execution (stepped : step keys w (.load (some file)) = some next) :
    execution next = execution w := by
  cases step_iff.mp stepped
  rfl

/-- Without a tick nothing of the execution state changes. -/
theorem execution_without_ticks (idle : (execution w).latch = 0)
    (noTick : ∀ event ∈ events, ¬ event.isTick)
    (run : Run (step keys) Live w events next) : execution next = execution w := by
  have kept := run_invariant (fun next : World => execution next = execution w) ?_ rfl (run_restrict noTick run)
  · exact kept
  · intro s event t same permitted stepped
    have latch : s.lastOpcode = 0 := (congrArg Execution.latch same).trans idle
    cases step_iff.mp stepped with
    | tick => exact absurd rfl permitted.2
    | releaseIdle found stopped idle =>
      rw [← same]
      exact Execution.ext rfl rfl rfl rfl rfl idle.symm
    | releaseWaiting found stopped pending => exact absurd latch pending
    | _ => exact same

/-- After two histories that end with the same load, execution is the same and
that of a fresh machine exactly if it was fresh before either load, as it is
as long as no instruction was executed. -/
theorem load_restarts_iff {keys : QtKeys} {now later : Time} {events others : List Event} {file : List Byte}
    {w v : World} (first : Run (step keys) Live (.construct now) (events ++ [.load (some file)]) w)
    (second : Run (step keys) Live (.construct later) (others ++ [.load (some file)]) v) :
    ∃ before other, Run (step keys) Live (.construct now) events before ∧
      Run (step keys) Live (.construct later) others other ∧
      (execution w = execution v ∧ execution w = fresh ↔ execution before = fresh ∧ execution other = fresh) ∧
      ((∀ event ∈ events ++ others, ¬ event.isTick) →
        execution w = execution v ∧ execution w = fresh) := by
  obtain ⟨before, reached, loads⟩ := run_append.mp first
  obtain ⟨other, otherReached, otherLoads⟩ := run_append.mp second
  have kept := load_keeps_execution (run_single.mp loads).2
  have otherKept := load_keeps_execution (run_single.mp otherLoads).2
  refine ⟨before, other, reached, otherReached, ?_, ?_⟩
  · rw [kept, otherKept]
    constructor
    · rintro ⟨same, isFresh⟩
      exact ⟨isFresh, same ▸ isFresh⟩
    · rintro ⟨isFresh, otherFresh⟩
      exact ⟨isFresh.trans otherFresh.symm, isFresh⟩
  · intro noTick
    obtain ⟨none, otherNone⟩ := List.forall_mem_append.mp noTick
    rw [kept, otherKept, execution_without_ticks rfl none reached, execution_without_ticks rfl otherNone otherReached]
    exact ⟨rfl, rfl⟩

/-- A first load, and one after Start was clicked but nothing ran. -/
theorem load_restarts_before_first_tick : ∃ w v : World, execution w = execution v ∧ execution w = fresh := by
  obtain ⟨w, first, _⟩ := run_of_test (step .latin) Live
    (.construct 0) ([] ++ [.load (some [0x12, 0x00])]) (fun _ => true) (by decide)
  obtain ⟨v, second, _⟩ := run_of_test (step .latin) Live
    (.construct 0) ([.startCpu] ++ [.load (some [0x12, 0x00])]) (fun _ => true)
    (by decide)
  obtain ⟨_, _, _, _, _, restarted⟩ := load_restarts_iff first second
  exact ⟨w, v, restarted (by decide)⟩

/-- One executed instruction and the next program starts at its second word. -/
theorem load_after_tick_resumes :
    ¬ ∀ (keys : QtKeys) (now later : Time) (events others : List Event) (file : List Byte) (w v : World),
      Run (step keys) Live (.construct now) (events ++ [.load (some file)]) w →
      Run (step keys) Live (.construct later) (others ++ [.load (some file)]) v →
      execution w = execution v ∧ execution w = fresh := by
  intro always
  obtain ⟨w, first, ends⟩ := run_of_test (step .latin) Live
    (.construct 0) ([.startCpu, .tick (.reading 0)] ++ [.load (some [0x12, 0x00])])
    (fun w : World => w.programCounter = 0x202) (by decide)
  have moved : w.programCounter = 0x202 := of_decide_eq_true ends
  obtain ⟨_, isFresh⟩ := always .latin 0 0 _ _ _ w w first first
  have counter : w.programCounter = 0x200 := congrArg Execution.programCounter isFresh
  rw [moved] at counter
  exact absurd counter (by decide)

end Chip8Emulator.Loading
