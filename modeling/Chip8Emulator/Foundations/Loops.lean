import Mathlib.Logic.Function.Basic

/-! Programs that update a state and may stop with a fault, keeping the state
the fault was raised in. The rules say what sequencing and a counted loop do
when the state after every iteration is known in closed form. -/
namespace Foundations.Loops

variable {ε σ α β : Type}

/-- A computation without state runs inside a program and leaves the state alone. -/
def liftExcept : Except ε α → EStateM ε σ α
  | .ok a => fun s => .ok a s
  | .error e => fun s => .error e s

instance exceptLift : MonadLift (Except ε) (EStateM ε σ) := ⟨liftExcept⟩

@[simp] theorem run_lift_ok (a : α) (s : σ) :
    (liftM (Except.ok a : Except ε α) : EStateM ε σ α).run s = .ok a s := rfl

@[simp] theorem run_lift_error (e : ε) (s : σ) :
    (liftM (Except.error e : Except ε α) : EStateM ε σ α).run s = .error e s := rfl

@[simp] theorem run_throw_value (e : ε) (s : σ) :
    (throw e : EStateM ε σ α).run s = .error e s := rfl

/-- What a program leaves behind, without the value it returns; a fault loses
the state. -/
def outcome : EStateM.Result ε σ α → Except ε σ
  | .ok _ s => .ok s
  | .error e _ => .error e

@[simp] theorem outcome_ok (a : α) (s : σ) :
    outcome (.ok a s : EStateM.Result ε σ α) = .ok s := rfl

@[simp] theorem outcome_error (e : ε) (s : σ) :
    outcome (.error e s : EStateM.Result ε σ α) = .error e := rfl

theorem outcome_eq_error {result : EStateM.Result ε σ α} :
    outcome result = .error e ↔ ∃ s, result = .error e s := by
  cases result <;> simp [outcome]

theorem outcome_eq_ok {result : EStateM.Result ε σ Unit} :
    outcome result = .ok s ↔ result = .ok () s := by
  cases result <;> simp [outcome]

/-- The state a program ends in, by a fault or not. -/
def endState : EStateM.Result ε σ α → σ
  | .ok _ s => s
  | .error _ s => s

/-- A program in sequence faults as its first part does, or goes on from where
that part ended. -/
theorem outcome_bind (first : EStateM ε σ Unit) (second : Unit → EStateM ε σ α) (s : σ) :
    outcome ((first >>= second).run s) =
      (outcome (first.run s)).bind fun t => outcome ((second ()).run t) := by
  rw [EStateM.run_bind]
  cases first.run s <;> rfl

/-- `remaining` iterations from index `i`, the loop variable passed along. -/
def forFrom (body : Nat → β → EStateM ε σ β) : Nat → Nat → β → EStateM ε σ β
  | 0, _, value => pure value
  | remaining + 1, i, value => do
    let next ← body i value
    forFrom body remaining (i + 1) next

/-- `for (i = 0; i < n; ++i)` with one variable updated by the body. -/
def forLoop (n : Nat) (start : β) (body : Nat → β → EStateM ε σ β) : EStateM ε σ β :=
  forFrom body n 0 start

section ClosedForm
variable {body : Nat → β → EStateM ε σ β} {value : Nat → β} {state : Nat → σ}

theorem for_from_ok (remaining i : Nat)
    (iteration : ∀ j, i ≤ j → j < i + remaining →
      (body j (value j)).run (state j) = .ok (value (j + 1)) (state (j + 1))) :
    (forFrom body remaining i (value i)).run (state i) =
      .ok (value (i + remaining)) (state (i + remaining)) := by
  induction remaining generalizing i with
  | zero => rfl
  | succ remaining ih =>
    have rest := ih (i + 1) (fun j lower upper => iteration j (by omega) (by omega))
    rw [forFrom, EStateM.run_bind, iteration i (Nat.le_refl i) (by omega)]
    simpa only [Nat.add_assoc, Nat.add_comm 1 remaining] using rest

theorem for_from_error {e : ε} {t : σ} (remaining i m : Nat) (lower : i ≤ m) (upper : m < i + remaining)
    (iteration : ∀ j, i ≤ j → j < m →
      (body j (value j)).run (state j) = .ok (value (j + 1)) (state (j + 1)))
    (faults : (body m (value m)).run (state m) = .error e t) :
    (forFrom body remaining i (value i)).run (state i) = .error e t := by
  induction remaining generalizing i with
  | zero => omega
  | succ remaining ih =>
    rw [forFrom, EStateM.run_bind]
    rcases Nat.eq_or_lt_of_le lower with rfl | strict
    · rw [faults]
    · rw [iteration i (Nat.le_refl i) strict]
      exact ih (i + 1) strict (by omega) (fun j lower upper => iteration j (by omega) upper)

/-- A loop all of whose iterations complete ends in the state and with the
value the closed form gives for the last one. -/
theorem for_loop_ok (value : Nat → β) (state : Nat → σ) (n : Nat)
    (iteration : ∀ j, j < n →
      (body j (value j)).run (state j) = .ok (value (j + 1)) (state (j + 1))) :
    (forLoop n (value 0) body).run (state 0) = .ok (value n) (state n) := by
  simpa only [forLoop, Nat.zero_add] using
    for_from_ok n 0 (fun j _ upper => iteration j (by omega))

/-- A loop faults with the first iteration that does, in the state that
iteration left. -/
theorem for_loop_error (value : Nat → β) (state : Nat → σ) {e : ε} {t : σ} (n m : Nat) (within : m < n)
    (iteration : ∀ j, j < m →
      (body j (value j)).run (state j) = .ok (value (j + 1)) (state (j + 1)))
    (faults : (body m (value m)).run (state m) = .error e t) :
    (forLoop n (value 0) body).run (state 0) = .error e t := by
  simpa only [forLoop] using
    for_from_error n 0 m (Nat.zero_le m) (by omega) (fun j _ upper => iteration j upper) faults

end ClosedForm

end Foundations.Loops
