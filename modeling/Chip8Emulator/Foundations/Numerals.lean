import Mathlib.Algebra.Ring.Nat

/-! Numbers as texts. A numeral has one symbol for each digit, the most
significant first and no leading zeros, and reading it gives the number back. -/
namespace Foundations.Numerals

variable {α : Type}

/-- The numeral of a number that has at most `width` digits. -/
def numeral (base : Nat) (symbol : Nat → α) : Nat → Nat → List α
  | 0, _ => []
  | width + 1, n =>
    if n < base then [symbol n] else numeral base symbol width (n / base) ++ [symbol (n % base)]

/-- The number a text of digits stands for. -/
def number (base : Nat) (meaning : α → Nat) (text : List α) : Nat :=
  text.foldl (fun value digit => value * base + meaning digit) 0

theorem number_snoc (base : Nat) (meaning : α → Nat) (text : List α) (digit : α) :
    number base meaning (text ++ [digit]) = number base meaning text * base + meaning digit := by
  simp [number]

theorem numeral_length (base : Nat) (symbol : Nat → α) (width n : Nat) :
    (numeral base symbol width n).length ≤ width := by
  induction width generalizing n with
  | zero => exact Nat.le_refl 0
  | succ width ih =>
    rw [numeral]
    split
    · exact Nat.succ_le_succ (Nat.zero_le width)
    · rw [List.length_append]
      exact Nat.succ_le_succ (ih (n / base))

/-- A number written with symbols that can be told apart is read back. -/
theorem number_numeral {base : Nat} {symbol : Nat → α} {meaning : α → Nat}
    (reads : ∀ digit, digit < base → meaning (symbol digit) = digit) {width n : Nat} (fits : n < base ^ width) :
    number base meaning (numeral base symbol width n) = n := by
  induction width generalizing n with
  | zero =>
    have zero : n = 0 := by simpa using fits
    exact zero.symm
  | succ width ih =>
    rw [numeral]
    split
    · rename_i small
      simp [number, reads n small]
    · rename_i large
      have positive : 0 < base := Nat.pos_of_ne_zero fun none => by simp [none] at fits
      have shorter : n / base < base ^ width := Nat.div_lt_of_lt_mul (Nat.mul_comm .. ▸ Nat.pow_succ .. ▸ fits)
      rw [number_snoc, ih shorter, reads _ (Nat.mod_lt _ positive)]
      exact Nat.div_add_mod' n base

end Foundations.Numerals
