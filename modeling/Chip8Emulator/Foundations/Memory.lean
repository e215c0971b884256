import Mathlib.Logic.Function.Basic
import Mathlib.Data.List.GetD

/-! A memory of fixed size as a function on its addresses: total reads with a
value for addresses outside it, and stores of whole lists from an address on. -/
namespace Foundations.Memory

variable {n : Nat} {α : Type*}

/-- The cell at an address, and the default outside the memory. -/
def readAt [Inhabited α] (memory : Fin n → α) (address : Nat) : α :=
  if bound : address < n then memory ⟨address, bound⟩ else default

/-- The memory with `values` stored from `address` on; what does not fit is lost. -/
def storeList (memory : Fin n → α) (address : Nat) (values : List α) : Fin n → α :=
  fun cell => if address ≤ cell.val then values.getD (cell.val - address) (memory cell) else memory cell

theorem read_at_of_lt [Inhabited α] (memory : Fin n → α) (bound : address < n) :
    readAt memory address = memory ⟨address, bound⟩ := by
  simp [readAt, bound]

/-- Reading back an updated cell, and every other one. -/
theorem read_at_update [Inhabited α] (memory : Fin n → α) (bound : address < n) (value : α) (probe : Nat) :
    readAt (Function.update memory ⟨address, bound⟩ value) probe =
      if probe = address then value else readAt memory probe := by
  unfold readAt
  by_cases inside : probe < n
  · by_cases same : probe = address
    · subst same
      simp [inside]
    · simp [inside, same, Fin.ext_iff]
  · have different : probe ≠ address := by omega
    simp [inside, different]

theorem store_nil (memory : Fin n → α) (address : Nat) : storeList memory address [] = memory := by
  funext cell
  simp [storeList]

/-- A list store changes exactly the cells it covers. -/
theorem store_outside (memory : Fin n → α) (address : Nat) (values : List α) (cell : Fin n)
    (outside : cell.val < address ∨ address + values.length ≤ cell.val) :
    storeList memory address values cell = memory cell := by
  unfold storeList
  split
  · rw [List.getD_eq_default _ _ (by omega)]
  · rfl

theorem store_inside (memory : Fin n → α) (address i : Nat) (values : List α) (cell : Fin n)
    (position : cell.val = address + i) (within : i < values.length) :
    storeList memory address values cell = values[i] := by
  have offset : cell.val - address = i := by omega
  unfold storeList
  rw [if_pos (by omega), offset, List.getD_eq_getElem _ _ within]

/-- What does not fit is not stored. -/
theorem store_take (memory : Fin n → α) (address : Nat) (values : List α) :
    storeList memory address (values.take (n - address)) = storeList memory address values := by
  funext cell
  have inside := cell.isLt
  unfold storeList
  split
  · rw [List.getD_eq_getElem?_getD, List.getElem?_take_of_lt (by omega), ← List.getD_eq_getElem?_getD]
  · rfl

/-- A list store that changes nothing finds its values there already. -/
theorem store_eq_self_iff (memory : Fin n → α) (address : Nat) (values : List α) :
    storeList memory address values = memory ↔
      ∀ i (within : i < values.length) (bound : address + i < n), memory ⟨address + i, bound⟩ = values[i] := by
  constructor
  · intro same i within bound
    rw [← store_inside memory address i values ⟨address + i, bound⟩ rfl within, same]
  · intro there
    funext cell
    by_cases outside : cell.val < address ∨ address + values.length ≤ cell.val
    · exact store_outside memory address values cell outside
    · obtain ⟨i, position⟩ := Nat.exists_eq_add_of_le (Nat.not_lt.mp fun low => outside (.inl low))
      have within : i < values.length := by omega
      have chosen : cell = ⟨address + i, position ▸ cell.isLt⟩ := Fin.ext position
      rw [store_inside memory address i values cell position within, ← there i within (position ▸ cell.isLt),
        ← chosen]

/-- The same where the values reach the end of the memory. -/
theorem store_covers_eq_self_iff [Inhabited α] {memory : Fin n → α} {address : Nat} {values : List α}
    (covers : n ≤ address + values.length) (fallback : α) :
    storeList memory address values = memory ↔
      ∀ i, address + i < n → readAt memory (address + i) = values.getD i fallback := by
  rw [store_eq_self_iff]
  constructor
  · intro there i bound
    rw [read_at_of_lt memory bound, List.getD_eq_getElem _ _ (by omega)]
    exact there i (by omega) bound
  · intro there i within bound
    rw [← read_at_of_lt memory bound, there i bound, List.getD_eq_getElem _ _ within]

theorem read_at_store [Inhabited α] (memory : Fin n → α) (address : Nat) (values : List α) (probe : Nat)
    (fits : address + values.length ≤ n) :
    readAt (storeList memory address values) probe =
      if address ≤ probe then values.getD (probe - address) (readAt memory probe)
      else readAt memory probe := by
  unfold readAt
  by_cases inside : probe < n
  · simp [inside, storeList]
  · rw [dif_neg inside, dif_neg inside, List.getD_eq_default _ _ (by omega)]
    simp

/-- Storing the next value of a list extends the store of its front. -/
theorem store_next (memory : Fin n → α) (address i : Nat) (values : List α)
    (within : i < values.length) (bound : address + i < n) :
    Function.update (storeList memory address (values.take i)) ⟨address + i, bound⟩ values[i] =
      storeList memory address (values.take (i + 1)) := by
  have shorter : (values.take i).length = i := by
    rw [List.length_take]
    omega
  have longer : (values.take (i + 1)).length = i + 1 := by
    rw [List.length_take]
    omega
  funext cell
  by_cases same : cell.val = address + i
  · have chosen : cell = ⟨address + i, bound⟩ := Fin.ext same
    rw [store_inside memory address i (values.take (i + 1)) cell same (by omega), chosen,
      Function.update_self, List.getElem_take]
  · rw [Function.update_of_ne (fun equal => same (congrArg Fin.val equal))]
    rcases Nat.lt_or_ge cell.val address with low | high
    · rw [store_outside _ _ _ _ (.inl low), store_outside _ _ _ _ (.inl low)]
    · rcases Nat.lt_or_ge (cell.val - address) i with front | back
      · have position : cell.val = address + (cell.val - address) := by omega
        rw [store_inside _ _ _ _ _ position (by omega), store_inside _ _ _ _ _ position (by omega),
          List.getElem_take, List.getElem_take]
      · rw [store_outside _ _ _ _ (.inr (by omega)), store_outside _ _ _ _ (.inr (by omega))]

/-- Storing a list is storing its head and then its tail one cell further. -/
theorem store_cons (memory : Fin n → α) (address : Nat) (value : α) (values : List α)
    (bound : address < n) :
    storeList memory address (value :: values) =
      storeList (Function.update memory ⟨address, bound⟩ value) (address + 1) values := by
  funext cell
  unfold storeList
  rcases Nat.lt_trichotomy cell.val address with low | same | high
  · have other : cell ≠ ⟨address, bound⟩ := fun equal => by
      rw [equal] at low
      exact Nat.lt_irrefl _ low
    rw [if_neg (by omega), if_neg (by omega), Function.update_of_ne other]
  · have chosen : cell = ⟨address, bound⟩ := Fin.ext same
    rw [if_pos (by omega), if_neg (by omega), chosen, Function.update_self]
    simp
  · have other : cell ≠ ⟨address, bound⟩ := fun equal => by
      rw [equal] at high
      exact Nat.lt_irrefl _ high
    obtain ⟨k, position⟩ := Nat.exists_eq_add_of_lt high
    have offset : cell.val - address = k + 1 := by omega
    have shifted : cell.val - (address + 1) = k := by omega
    rw [if_pos (by omega), if_pos (by omega), Function.update_of_ne other, offset, shifted,
      List.getD_cons_succ]

/-! ## Stored lists -/

/-- `values` lie in order from `base` on. -/
def Stored [Inhabited α] (memory : Fin n → α) (base : Nat) (values : List α) : Prop :=
  ∀ i (within : i < values.length), readAt memory (base + i) = values[i]

section Stored
variable [Inhabited α] {memory changed : Fin n → α} {base : Nat} {values front back : List α}

theorem stored_nil : Stored memory base [] := fun _ within => absurd within (Nat.not_lt_zero _)

theorem stored_append :
    Stored memory base (front ++ back) ↔
      Stored memory base front ∧ Stored memory (base + front.length) back := by
  constructor
  · intro whole
    constructor
    · intro i within
      have position : i < (front ++ back).length := by
        rw [List.length_append]
        omega
      rw [whole i position, List.getElem_append_left within]
    · intro i within
      have position : front.length + i < (front ++ back).length := by
        rw [List.length_append]
        omega
      rw [Nat.add_assoc, whole _ position, List.getElem_append_right (Nat.le_add_right _ _)]
      simp
  · rintro ⟨first, second⟩ i within
    rw [List.length_append] at within
    rcases Nat.lt_or_ge i front.length with low | high
    · rw [first i low, List.getElem_append_left low]
    · have rest := second (i - front.length) (by omega)
      rw [List.getElem_append_right high, ← rest]
      congr 1
      omega

/-- A part of a stored list lies at its offset. -/
theorem stored_slice (stored : Stored memory base values) (offset count : Nat) :
    Stored memory (base + offset) ((values.drop offset).take count) := by
  intro i within
  have position : offset + i < values.length := by
    simp only [List.length_take, List.length_drop] at within
    omega
  rw [List.getElem_take, List.getElem_drop, Nat.add_assoc, stored (offset + i) position]

/-- A change elsewhere keeps a stored list. -/
theorem stored_of_agree (stored : Stored memory base values)
    (agree : ∀ address, base ≤ address → address < base + values.length →
      readAt changed address = readAt memory address) : Stored changed base values := by
  intro i within
  rw [agree (base + i) (by omega) (by omega), stored i within]

/-- A list that was stored and fits is there. -/
theorem stored_store (fits : base + values.length ≤ n) :
    Stored (storeList memory base values) base values := by
  intro i within
  rw [read_at_store memory base values _ fits, if_pos (Nat.le_add_right _ _), Nat.add_sub_cancel_left,
    List.getD_eq_getElem _ _ within]

end Stored

end Foundations.Memory
