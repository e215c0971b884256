import Mathlib.Data.Nat.Digits.Defs
import Chip8Emulator.ProgramLogic

/-! Blocks of register instructions. Such an instruction is a function on the
registers and touches nothing else, and a block of them in memory computes
their composition, whatever the clocks read. With the carries `8xy4` leaves in
`VF`, a block adds numbers of as many bytes as there are registers for. -/
namespace Chip8Emulator.RegisterBlocks
open Foundations.LeadsTo Foundations.Runs ProgramLogic

abbrev Registers := Fin 16 → Byte

/-- The register instructions as functions on the registers, in the order they
write them. -/
def compute (v : Registers) : Instruction → Option Registers
  | .setByte x kk => some (Function.update v x kk)
  | .addByte x kk => some (Function.update v x (v x + kk))
  | .copy x y => some (Function.update v x (v y))
  | .or x y => some (Function.update v x (v x ||| v y))
  | .and x y => some (Function.update v x (v x &&& v y))
  | .xor x y => some (Function.update v x (v x ^^^ v y))
  | .add x y =>
    let carry : Byte := if (v x).toNat + (v y).toNat > 255 then 1 else 0
    some (Function.update (Function.update v vF carry) x (v x + v y))
  | .sub x y =>
    let noBorrow : Byte := if v x < v y then 0 else 1
    some (Function.update (Function.update v x (v x - v y)) vF noBorrow)
  | .subFrom x y =>
    let noBorrow : Byte := if v y < v x then 0 else 1
    some (Function.update (Function.update v x (v y - v x)) vF noBorrow)
  | .shiftRight x =>
    let flagged := Function.update v vF (v x &&& 1)
    some (Function.update flagged x (flagged x >>> 1))
  | .shiftLeft x =>
    let flagged := Function.update v vF (v x >>> 7)
    some (Function.update flagged x (flagged x <<< 1))
  | _ => none

/-- One instruction after the other, if all of them are on registers. -/
def computeAll (v : Registers) : List Instruction → Option Registers
  | [] => some v
  | instruction :: rest => (compute v instruction).bind (computeAll · rest)

theorem compute_all_append (v : Registers) (first second : List Instruction) :
    computeAll v (first ++ second) = (computeAll v first).bind (computeAll · second) := by
  induction first generalizing v with
  | nil => rfl
  | cons instruction rest ih =>
    rw [List.cons_append, computeAll, computeAll, Option.bind_assoc]
    congr 1
    funext u
    exact ih u

/-! ## The machine computes them -/

section Machine
variable {v : Registers} {w : World}

/-- A register instruction completes, with its function applied to the registers. -/
theorem execute_computes (computed : compute w.vRegisters instruction = some v) (inputs : TickInputs) :
    ∃ executed, execute inputs w instruction = .ok executed ∧ executed.vRegisters = v := by
  cases instruction with
  | setByte x kk | addByte x kk => exact ⟨_, rfl, Option.some.inj computed⟩
  | copy x y | or x y | and x y | xor x y => exact ⟨_, rfl, Option.some.inj computed⟩
  | add x y | sub x y | subFrom x y => exact ⟨_, rfl, Option.some.inj computed⟩
  | shiftRight x | shiftLeft x => exact ⟨_, rfl, Option.some.inj computed⟩
  | _ => contradiction

theorem ticked_computes (computed : compute w.vRegisters instruction = some v)
    (ticked : Ticked inputs w instruction next) : next.vRegisters = v := by
  obtain ⟨executed, effect, rfl⟩ := ticked.executes
  obtain ⟨other, same, registers⟩ := execute_computes (w := w.fetched) computed inputs
  cases effect.symm.trans same
  exact registers

/-- It goes on to the next word, and changes nothing but registers. -/
theorem computes_besides (computed : compute w.vRegisters instruction = some v)
    (ticked : Ticked inputs w instruction next) :
    SameBesides w next ∧ instruction.programCounterAfter w.fetched = w.fetched.programCounter ∧
      ∀ x, instruction ≠ .waitKey x := by
  have index := ticked.indexRegister
  have stack := ticked.stackPointer
  have ram := ticked.ram
  have picture := ticked.frameBuffer
  have latch := ticked.latch
  cases instruction with
  | setByte x kk | addByte x kk | copy x y | or x y | and x y | xor x y | add x y | sub x y | subFrom x y
  | shiftRight x | shiftLeft x =>
    exact ⟨⟨index, stack, ram, picture, latch, ticked.lastTime, ticked.lastActiveKey, ticked.keyStatuses⟩, rfl,
      fun _ => Instruction.noConfusion⟩
  | _ => contradiction

end Machine

/-- A block takes one tick for each of its instructions. -/
theorem block_leads (keys : QtKeys) (admissible : TickInputs → Prop) {code : Code} {k : Nat} {w : World}
    {block after : List Instruction} {v : Registers} (found : code.program.drop k = block ++ after)
    (place : At code k w) (computed : computeAll w.vRegisters block = some v) :
    Reaches keys admissible (fun u => At code (k + block.length) u ∧ u.vRegisters = v ∧ SameBesides w u)
      block.length w := by
  induction block generalizing k w with
  | nil => exact leads_now ⟨place, Option.some.inj computed, .refl w⟩
  | cons instruction rest ih =>
    obtain ⟨first, once, others⟩ := Option.bind_eq_some_iff.mp computed
    have split : code.program.drop k = [instruction] ++ (rest ++ after) := found
    have here : code.program[k]? = some instruction := word_of_block split 0 Nat.zero_lt_one
    have behind : code.program.drop (k + 1) = rest ++ after := behind_block split
    refine reaches_instruction place here (fun inputs => ?_) ?_
    · obtain ⟨executed, effect, _⟩ := execute_computes (w := w.fetched) once inputs
      exact ⟨executed, effect⟩
    · intro inputs next _ ticked
      obtain ⟨same, straight, notWait⟩ := computes_besides once ticked
      have next_place : At code (k + 1) next :=
        straight_at place here notWait straight ticked (same.ram ▸ place.placed)
      rw [← ticked_computes once ticked] at others
      refine leads_mono ?_ (ih behind next_place others)
      rintro u ⟨arrives, registers, further⟩
      refine ⟨?_, registers, same.trans further⟩
      rwa [List.length_cons, Nat.add_comm rest.length, ← Nat.add_assoc]

/-- A byte loaded and incremented, from the bottom of a program. -/
def incrementedCode : Code := ⟨ProgramImage.incremented, 0x200, by decide, by decide⟩

/-- The number in a list of registers, its lowest byte first. -/
def number (v : Registers) (registers : List (Fin 16)) : Nat := Nat.ofDigits 256 (registers.map fun r => (v r).toNat)

theorem number_cons (v : Registers) (r : Fin 16) (rest : List (Fin 16)) :
    number v (r :: rest) = (v r).toNat + 256 * number v rest := rfl

theorem number_congr (same : ∀ r ∈ registers, u r = v r) : number u registers = number v registers := by
  refine congrArg (Nat.ofDigits 256) (List.map_congr_left fun r member => ?_)
  rw [same r member]

/-- `8xF4; 8tF0; 8xy4; 8Ft1`: `Vy` and the carry in `VF` added to `Vx`, by way of `Vt`. -/
def addByteWithCarry (t x y : Fin 16) : List Instruction := [.add x vF, .copy t vF, .add x y, .or vF t]

/-- Of the two additions of a byte at most one carries. -/
theorem two_carries (a b c : Byte) (carry : c.toNat ≤ 1) :
    ((if (a + c).toNat + b.toNat > 255 then (1 : Byte) else 0) |||
      if a.toNat + c.toNat > 255 then 1 else 0).toNat ≤ 1 ∧
    (a + c + b).toNat + 256 * ((if (a + c).toNat + b.toNat > 255 then (1 : Byte) else 0) |||
      if a.toNat + c.toNat > 255 then 1 else 0).toNat = a.toNat + b.toNat + c.toNat := by
  have first := a.isLt
  have second := b.isLt
  have sum : (a + c).toNat = (a.toNat + c.toNat) % 256 := BitVec.toNat_add a c
  have total : (a + c + b).toNat = ((a + c).toNat + b.toNat) % 256 := BitVec.toNat_add (a + c) b
  by_cases before : a.toNat + c.toNat > 255
  · have small : ¬ (a + c).toNat + b.toNat > 255 := by omega
    rw [if_pos before, if_neg small]
    change 1 ≤ 1 ∧ _ + 256 * 1 = _
    omega
  · by_cases after : (a + c).toNat + b.toNat > 255
    · rw [if_neg before, if_pos after]
      change 1 ≤ 1 ∧ _ + 256 * 1 = _
      omega
    · rw [if_neg before, if_neg after]
      change 0 ≤ 1 ∧ _ + 256 * 0 = _
      omega

theorem byte_with_carry {t x y : Fin 16} (notFlag : t ≠ vF) (target : x ≠ vF ∧ x ≠ t)
    (source : y ≠ vF ∧ y ≠ t ∧ y ≠ x) (carry : (v vF).toNat ≤ 1) :
    ∃ u, computeAll v (addByteWithCarry t x y) = some u ∧ (u vF).toNat ≤ 1 ∧
      (u x).toNat + 256 * (u vF).toNat = (v x).toNat + (v y).toNat + (v vF).toNat ∧
      ∀ r, r ≠ x → r ≠ vF → r ≠ t → u r = v r := by
  obtain ⟨bit, sum⟩ := two_carries (v x) (v y) (v vF) carry
  refine ⟨_, rfl, ?_, ?_, fun r notTarget notCarry notSpare => ?_⟩
  · simpa only [Function.update_apply, notFlag, notFlag.symm, target, target.1.symm, target.2.symm, source,
      ↓reduceIte] using bit
  · simpa only [Function.update_apply, notFlag, notFlag.symm, target, target.1.symm, target.2.symm, source,
      ↓reduceIte] using sum
  · simp only [Function.update_apply, notTarget, notCarry, notSpare, ↓reduceIte]

/-- The registers of the two numbers and the spare one are apart. -/
structure Separate (t : Fin 16) (limbs : List (Fin 16 × Fin 16)) : Prop where
  notFlag : t ≠ vF
  distinct : (limbs.map Prod.fst).Nodup
  targets : ∀ x ∈ limbs.map Prod.fst, x ≠ vF ∧ x ≠ t
  sources : ∀ y ∈ limbs.map Prod.snd, y ≠ vF ∧ y ≠ t ∧ y ∉ limbs.map Prod.fst

/-- One byte after the other, the lowest first. -/
def addWithCarry (t : Fin 16) (limbs : List (Fin 16 × Fin 16)) : List Instruction :=
  limbs.flatMap fun limb => addByteWithCarry t limb.1 limb.2

theorem add_with_carry_length (t : Fin 16) (limbs : List (Fin 16 × Fin 16)) :
    (addWithCarry t limbs).length = 4 * limbs.length := by
  induction limbs with
  | nil => rfl
  | cons limb rest ih =>
    rw [addWithCarry, List.flatMap_cons, List.length_append, List.length_cons]
    change 4 + (addWithCarry t rest).length = _
    omega

/-- The carry of one byte goes into the next, and the last one is left in `VF`. -/
theorem ripple_carry {t : Fin 16} {limbs : List (Fin 16 × Fin 16)} (separate : Separate t limbs)
    (carry : (v vF).toNat ≤ 1) :
    ∃ u, computeAll v (addWithCarry t limbs) = some u ∧
      number u (limbs.map Prod.fst) + 256 ^ limbs.length * (u vF).toNat =
        number v (limbs.map Prod.fst) + number v (limbs.map Prod.snd) + (v vF).toNat ∧
      ∀ r, r ∉ limbs.map Prod.fst → r ≠ vF → r ≠ t → u r = v r := by
  induction limbs generalizing v with
  | nil => exact ⟨v, rfl, by simp [number], fun _ _ _ _ => rfl⟩
  | cons limb rest ih =>
    obtain ⟨x, y⟩ := limb
    obtain ⟨fresh, distinct⟩ := List.nodup_cons.mp separate.distinct
    obtain ⟨target, targets⟩ := List.forall_mem_cons.mp separate.targets
    obtain ⟨⟨notFlag, notSpare, apart⟩, sources⟩ := List.forall_mem_cons.mp separate.sources
    have restSeparate : Separate t rest := by
      refine ⟨separate.notFlag, distinct, targets, fun r member => ?_⟩
      obtain ⟨notFlag, notSpare, apart⟩ := sources r member
      exact ⟨notFlag, notSpare, fun among => apart (List.mem_cons_of_mem x among)⟩
    obtain ⟨m, first, bit, sum, kept⟩ := byte_with_carry separate.notFlag target
      ⟨notFlag, notSpare, fun same => apart (same ▸ List.mem_cons_self)⟩ carry
    obtain ⟨u, others, total, keptAfter⟩ := ih restSeparate bit
    have low : u x = m x := keptAfter x fresh target.1 target.2
    have high : number m (rest.map Prod.fst) = number v (rest.map Prod.fst) := by
      refine number_congr fun r member => ?_
      exact kept r (fun same => fresh (same ▸ member)) (targets r member).1 (targets r member).2
    have added : number m (rest.map Prod.snd) = number v (rest.map Prod.snd) := by
      refine number_congr fun r member => ?_
      obtain ⟨notFlag, notSpare, apart⟩ := sources r member
      exact kept r (fun same => apart (same ▸ List.mem_cons_self)) notFlag notSpare
    refine ⟨u, ?_, ?_, fun r outside notFlag notSpare => ?_⟩
    · rw [addWithCarry, List.flatMap_cons, compute_all_append, first]
      exact others
    · rw [high, added] at total
      have shifted : 256 ^ (rest.length + 1) * (u vF).toNat = 256 * (256 ^ rest.length * (u vF).toNat) := by
        rw [Nat.pow_succ, Nat.mul_comm (256 ^ rest.length), Nat.mul_assoc]
      simp only [List.map_cons, number_cons, List.length_cons, low, shifted]
      dsimp only at sum
      omega
    · rw [List.map_cons, List.mem_cons, not_or] at outside
      obtain ⟨notTarget, elsewhere⟩ := outside
      rw [keptAfter r elsewhere notFlag notSpare, kept r notTarget notFlag notSpare]

/-- A block of such additions adds two numbers of as many bytes as it has of
them, in four ticks each, whatever the ticks read: with the carry out of the
last byte in `VF`, and nothing changed but the sum, `VF` and the spare register. -/
theorem numbers_are_added (keys : QtKeys) (admissible : TickInputs → Prop) {code : Code} {k : Nat} {w : World}
    {t : Fin 16} {limbs : List (Fin 16 × Fin 16)} {after : List Instruction} (separate : Separate t limbs)
    (found : code.program.drop k = addWithCarry t limbs ++ after) (place : At code k w)
    (carry : (w.vRegisters vF).toNat ≤ 1) :
    Reaches keys admissible (fun u => At code (k + 4 * limbs.length) u ∧ SameBesides w u ∧
      number u.vRegisters (limbs.map Prod.fst) + 256 ^ limbs.length * (u.vRegisters vF).toNat =
        number w.vRegisters (limbs.map Prod.fst) + number w.vRegisters (limbs.map Prod.snd) +
          (w.vRegisters vF).toNat ∧
      ∀ r, r ∉ limbs.map Prod.fst → r ≠ vF → r ≠ t → u.vRegisters r = w.vRegisters r)
      (4 * limbs.length) w := by
  obtain ⟨v, computed, sum, kept⟩ := ripple_carry separate carry
  have leads := block_leads keys admissible found place computed
  rw [add_with_carry_length] at leads
  refine leads_mono ?_ leads
  rintro u ⟨arrives, rfl, same⟩
  exact ⟨arrives, same, sum, kept⟩

/-- 0x0FFF and 1 added, in `V0`, `V1` and in `V2`, `V3`. -/
theorem numbers_are_added_carry : Reaches .latin (fun _ => True)
    (fun u => number u.vRegisters [0, 1] + 0x10000 * (u.vRegisters vF).toNat = 0x1000) 8
    { (World.loaded (.construct 0) [0x80, 0xF4, 0x84, 0xF0, 0x80, 0x24, 0x8F, 0x41,
        0x81, 0xF4, 0x84, 0xF0, 0x81, 0x34, 0x8F, 0x41]).startTimer with
      vRegisters := fun r => [0xFF, 0x0F, 1].getD r.val 0 } := by
  have place : At ⟨addWithCarry 4 [(0, 2), (1, 3)], 0x200, by decide, by decide⟩ 0
      { (World.loaded (.construct 0) [0x80, 0xF4, 0x84, 0xF0, 0x80, 0x24, 0x8F, 0x41,
          0x81, 0xF4, 0x84, 0xF0, 0x81, 0x34, 0x8F, 0x41]).startTimer with
        vRegisters := fun r => [0xFF, 0x0F, 1].getD r.val 0 } := by
    refine ⟨rfl, ?_, rfl⟩
    exact Loading.loaded_contents (.construct 0) (by decide)
  have separate : Separate 4 [(0, 2), (1, 3)] := ⟨by decide, by decide, by decide, by decide⟩
  refine leads_mono ?_ (numbers_are_added .latin (fun _ => True) separate (List.append_nil _).symm place (by decide))
  rintro u ⟨_, _, sum, _⟩
  exact sum

end Chip8Emulator.RegisterBlocks
