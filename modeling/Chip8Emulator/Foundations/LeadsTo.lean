import Chip8Emulator.Foundations.Runs

/-! Total correctness of a system whose inputs others choose. A state leads to a
goal within `n` inputs if, whatever admissible inputs come, the system takes
each of them and meets the goal after at most `n`. Such statements compose in
sequence and around loops, and each says what the runs of the system do. -/
namespace Foundations.LeadsTo
open Runs

variable {σ ε : Type*} (step : σ → ε → Option σ) (allowed : σ → ε → Prop) (input : ε → Prop)

def LeadsWithin (goal : σ → Prop) : Nat → σ → Prop
  | 0, s => goal s
  | n + 1, s => goal s ∨ ∀ e, input e → allowed s e ∧ ∃ t, step s e = some t ∧ LeadsWithin goal n t

variable {step allowed input} {goal other : σ → Prop}

theorem leads_now (reached : goal s) : LeadsWithin step allowed input goal n s := by
  cases n with
  | zero => exact reached
  | succ n => exact .inl reached

theorem leads_next
    (progress : ∀ e, input e → allowed s e ∧ ∃ t, step s e = some t ∧ LeadsWithin step allowed input goal n t) :
    LeadsWithin step allowed input goal (n + 1) s :=
  .inr progress

theorem leads_mono (weaker : ∀ s, goal s → other s) (leads : LeadsWithin step allowed input goal n s) :
    LeadsWithin step allowed input other n s := by
  induction n generalizing s with
  | zero => exact weaker s leads
  | succ n ih =>
    rcases leads with reached | progress
    · exact leads_now (weaker s reached)
    · refine leads_next fun e admissible => ?_
      obtain ⟨permitted, t, stepped, rest⟩ := progress e admissible
      exact ⟨permitted, t, stepped, ih rest⟩

theorem leads_longer (longer : n ≤ m) (leads : LeadsWithin step allowed input goal n s) :
    LeadsWithin step allowed input goal m s := by
  induction n generalizing s m with
  | zero => exact leads_now leads
  | succ n ih =>
    obtain ⟨m, rfl⟩ := Nat.exists_eq_add_of_le' (Nat.lt_of_lt_of_le (Nat.zero_lt_succ n) longer)
    rcases leads with reached | progress
    · exact leads_now reached
    · refine leads_next fun e admissible => ?_
      obtain ⟨permitted, t, stepped, rest⟩ := progress e admissible
      exact ⟨permitted, t, stepped, ih (Nat.le_of_succ_le_succ longer) rest⟩

/-- One goal after the other. -/
theorem leads_then (first : LeadsWithin step allowed input goal m s)
    (second : ∀ t, goal t → LeadsWithin step allowed input other n t) :
    LeadsWithin step allowed input other (m + n) s := by
  induction m generalizing s with
  | zero =>
    rw [Nat.zero_add]
    exact second s first
  | succ m ih =>
    rw [Nat.succ_add]
    rcases first with reached | progress
    · exact leads_longer (by omega) (second s reached)
    · refine leads_next fun e admissible => ?_
      obtain ⟨permitted, t, stepped, rest⟩ := progress e admissible
      exact ⟨permitted, t, stepped, ih rest⟩

/-- A loop each round of which meets the goal or comes round again with a
smaller variant. -/
theorem leads_loop {round : Nat} (invariant : Nat → σ → Prop)
    (body : ∀ variant s, invariant variant s →
      LeadsWithin step allowed input (fun t => goal t ∨ ∃ smaller < variant, invariant smaller t) round s)
    (start : invariant variant s) : LeadsWithin step allowed input goal (round * (variant + 1)) s := by
  induction variant using Nat.strongRecOn generalizing s with
  | ind variant ih =>
    have rest : ∀ t, (goal t ∨ ∃ smaller < variant, invariant smaller t) →
        LeadsWithin step allowed input goal (round * variant) t := by
      rintro t (reached | ⟨smaller, less, again⟩)
      · exact leads_now reached
      · exact leads_longer (Nat.mul_le_mul_left round less) (ih smaller less again)
    have whole : round * (variant + 1) = round + round * variant := by
      rw [Nat.mul_succ, Nat.add_comm]
    rw [whole]
    exact leads_then (body variant s start) rest

/-- What leads to a goal gets there in every run, however the inputs go on. -/
theorem leads_run (leads : LeadsWithin step allowed input goal n s) (inputs : Nat → ε)
    (admissible : ∀ i, input (inputs i)) :
    ∃ m ≤ n, ∃ t, Run step allowed s ((List.range m).map inputs) t ∧ goal t := by
  induction n generalizing s inputs with
  | zero => exact ⟨0, Nat.le_refl 0, s, .done, leads⟩
  | succ n ih =>
    rcases leads with reached | progress
    · exact ⟨0, Nat.zero_le _, s, .done, reached⟩
    · obtain ⟨permitted, t, stepped, rest⟩ := progress (inputs 0) (admissible 0)
      obtain ⟨m, bound, u, run, reached⟩ := ih rest (fun i => inputs (i + 1)) fun i => admissible (i + 1)
      refine ⟨m + 1, Nat.succ_le_succ bound, u, ?_, reached⟩
      rw [List.range_succ_eq_map, List.map_cons, List.map_map]
      exact .next permitted stepped run

end Foundations.LeadsTo
