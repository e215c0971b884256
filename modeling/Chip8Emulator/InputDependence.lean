import Chip8Emulator.ClockIndependence

/-! What a tick reads from outside. The clocks come in through `Fx07` alone, and
`rand` through the bits that an executed `Cxkk` keeps; runs whose readings
differ in anything else agree. -/
namespace Chip8Emulator.InputDependence
open Foundations.Runs ClockIndependence

/-- The bits of a random number that the next instruction keeps, if it keeps any. -/
def keptBits (w : World) (rand : Nat) : Option Byte :=
  match decode w.opcodeAt with
  | some (.random _ kk) => some (BitVec.ofNat 8 rand &&& kk)
  | _ => none

/-- The same event with other clock readings and, in a tick, another random
number of which the same bits are kept. -/
inductive SameButReadings (w : World) : Event → Event → Prop where
  | tick (bits : keptBits w first.rand = keptBits w second.rand) : SameButReadings w (.tick first) (.tick second)
  | keyRelease : SameButReadings w (.keyRelease key first) (.keyRelease key second)
  | same : SameButReadings w event event

/-- What is not kept of a random number has no effect. -/
theorem execute_kept (bits : keptBits w inputs.rand = keptBits w other)
    (decoded : decode w.opcodeAt = some instruction) :
    execute { inputs with rand := other } w.fetched instruction = execute inputs w.fetched instruction := by
  cases instruction with
  | random x kk =>
    simp only [keptBits, decoded, Option.some.injEq] at bits
    simp only [execute, bits]
  | _ => rfl

theorem ticked_kept (bits : keptBits w inputs.rand = keptBits w other) (ticked : Ticked inputs w instruction next) :
    Ticked { inputs with rand := other } w instruction next := by
  obtain ⟨executed, effect, finished⟩ := ticked.executes
  exact ⟨ticked.fits, ticked.decoded, executed, (execute_kept bits ticked.decoded).trans effect, finished⟩

/-- Agreeing worlds make the same transition, whatever else is read. -/
theorem transition_kept (agree : Agree w v) (same : SameButReadings w event other) (readsNone : ReadsNoDelay w event)
    (transition : Transition keys w event next) : ∃ after, Transition keys v other after ∧ Agree next after := by
  cases same with
  | @tick first second bits =>
    cases transition with
    | tick ticked =>
      have clocks : SameButClocks (.tick { first with rand := second.rand }) (.tick second) := .tick rfl
      exact transition_agrees agree clocks readsNone (.tick (ticked_kept bits ticked))
  | keyRelease => exact transition_agrees agree .keyRelease readsNone transition
  | same => exact transition_agrees agree .same readsNone transition

/-- Of two sessions with the same user events, let the first execute no `Fx07`
and keep the same random bits at each `Cxkk` as the second. Then whatever else
the second reads, it completes the same events, while the same timer runs, and
the two agree on everything the clocks do not drive. -/
theorem readings_seen {keys : QtKeys} {start last : World} {sessions : List (Event × Event)}
    (run : Run (fun w p => step keys w p.1)
      (fun w (p : Event × Event) => Live w p.1 ∧ ReadsNoDelay w p.1 ∧ SameButReadings w p.1 p.2)
      start sessions last) :
    ∃ after, Run (step keys) Live start (sessions.map Prod.snd) after ∧ Agree last after := by
  have paired : List.Forall₂ (fun (p : Event × Event) other => p.2 = other) sessions (sessions.map Prod.snd) :=
    List.forall₂_map_right_iff.mpr (List.forall₂_same.mpr fun _ _ => rfl)
  refine run_simulates Agree _ ?_ (agree_iff.mpr rfl) paired run
  rintro w ⟨event, other⟩ next v _ agree rfl ⟨live, readsNone, same⟩ stepped
  obtain ⟨after, transition, agrees⟩ := transition_kept agree same readsNone (step_iff.mp stepped)
  refine ⟨?_, after, step_iff.mpr transition, agrees⟩
  cases same with
  | tick => exact agree.timer.symm.trans live
  | keyRelease => trivial
  | same =>
    cases event with
    | tick inputs => exact agree.timer.symm.trans live
    | _ => trivial

/-- `C00F` at two times, with random numbers that differ above the last four bits. -/
theorem readings_seen_low_digit : ∃ w v : World, w.vRegisters 0 = 0x05 ∧ Agree w v ∧
    Run (step .latin) Live (World.loaded (.construct 0) [0xC0, 0x0F]).startTimer
      [.tick { TickInputs.reading 900 with rand := 0x75 }] v := by
  obtain ⟨w, stepped⟩ : ∃ w, step .latin (World.loaded (.construct 0) [0xC0, 0x0F]).startTimer
      (.tick { TickInputs.reading 0 with rand := 0x35 }) = some w := ⟨_, rfl⟩
  have run : Run (fun w p => step .latin w p.1)
      (fun w (p : Event × Event) => Live w p.1 ∧ ReadsNoDelay w p.1 ∧ SameButReadings w p.1 p.2)
      (World.loaded (.construct 0) [0xC0, 0x0F]).startTimer
      [(.tick { TickInputs.reading 0 with rand := 0x35 }, .tick { TickInputs.reading 900 with rand := 0x75 })] w :=
    run_single.mpr ⟨⟨rfl, by decide, .tick (by decide)⟩, stepped⟩
  obtain ⟨v, other, agree⟩ := readings_seen run
  refine ⟨w, v, ?_, agree, other⟩
  cases stepped
  decide

end Chip8Emulator.InputDependence
