import Mathlib.Data.List.Basic
import Mathlib.Data.List.Forall2
import Mathlib.Data.List.Induction

/-! Runs of a deterministic system whose events may be refused or may fail.
A run is a list of events, so that a statement about the states between two of
them is a statement about how the list splits. History variables are added by
running the product of the system with a recorder that never refuses. -/
namespace Foundations.Runs

/-- From `s` the events happen in order, each one allowed where it happens and
each one completing, and the system ends in `t`. -/
inductive Run {σ ε : Type*} (step : σ → ε → Option σ) (allowed : σ → ε → Prop) : σ → List ε → σ → Prop where
  | done : Run step allowed s [] s
  | next (permitted : allowed s e) (stepped : step s e = some m)
      (rest : Run step allowed m events t) : Run step allowed s (e :: events) t

variable {σ ε γ : Type*} {step : σ → ε → Option σ} {allowed stricter : σ → ε → Prop}

theorem run_nil : Run step allowed s [] t ↔ t = s := by
  constructor
  · rintro ⟨⟩
    rfl
  · rintro rfl
    exact .done

theorem run_cons :
    Run step allowed s (e :: events) t ↔
      allowed s e ∧ ∃ m, step s e = some m ∧ Run step allowed m events t := by
  constructor
  · rintro ⟨⟩
    exact ⟨‹_›, _, ‹_›, ‹_›⟩
  · rintro ⟨permitted, m, stepped, rest⟩
    exact .next permitted stepped rest

theorem run_append :
    Run step allowed s (before ++ after) t ↔
      ∃ m, Run step allowed s before m ∧ Run step allowed m after t := by
  induction before generalizing s with
  | nil => simp [run_nil]
  | cons e before ih =>
    simp only [List.cons_append, run_cons, ih]
    constructor
    · rintro ⟨permitted, m, stepped, n, first, second⟩
      exact ⟨n, ⟨permitted, m, stepped, first⟩, second⟩
    · rintro ⟨n, ⟨permitted, m, stepped, first⟩, second⟩
      exact ⟨permitted, m, stepped, n, first, second⟩

theorem run_single :
    Run step allowed s [e] t ↔ allowed s e ∧ step s e = some t := by
  simp [run_cons, run_nil]

/-- The events determine the state a run ends in. -/
theorem run_deterministic (first : Run step allowed s events t)
    (second : Run step stricter s events u) : t = u := by
  induction first with
  | done => exact (run_nil.mp second).symm
  | next permitted stepped rest ih =>
    obtain ⟨_, m, again, rest'⟩ := run_cons.mp second
    rw [stepped] at again
    cases again
    exact ih rest'

/-- A run goes on from the state its first part reaches. -/
theorem run_after (run : Run step allowed s (before ++ after) t)
    (reached : Run step stricter s before m) : Run step allowed m after t := by
  obtain ⟨n, first, rest⟩ := run_append.mp run
  obtain rfl := run_deterministic reached first
  exact rest

theorem run_weaken (weaker : ∀ s e, stricter s e → allowed s e)
    (run : Run step stricter s events t) : Run step allowed s events t := by
  induction run with
  | done => exact .done
  | next permitted stepped rest ih => exact .next (weaker _ _ permitted) stepped ih

/-- What is known of every event restricts the run. -/
theorem run_restrict {p : ε → Prop} (each : ∀ e ∈ events, p e) (run : Run step allowed s events t) :
    Run step (fun s e => allowed s e ∧ p e) s events t := by
  induction run with
  | done => exact .done
  | next permitted stepped rest ih =>
    obtain ⟨head, tail⟩ := List.forall_mem_cons.mp each
    exact .next ⟨permitted, head⟩ stepped (ih tail)

/-- What one allowed step preserves, a whole run preserves. -/
theorem run_invariant (holds : σ → Prop)
    (preserved : ∀ s e t, holds s → allowed s e → step s e = some t → holds t)
    (start : holds s) (run : Run step allowed s events t) : holds t := by
  induction run with
  | done => exact start
  | next permitted stepped rest ih => exact ih (preserved _ _ _ start permitted stepped)

/-- What holds of the events of a run and the state it has reached, kept by
every event that is added. -/
theorem run_records (holds : List ε → σ → Prop)
    (extended : ∀ before s e t, holds before s → allowed s e → step s e = some t → holds (before ++ [e]) t)
    (start : holds [] s) (run : Run step allowed s events t) : holds events t := by
  have recorded (before : List ε) (now : holds before s) : holds (before ++ events) t := by
    clear start
    induction run generalizing before with
    | done => simpa using now
    | @next s e m events t permitted stepped rest ih =>
      have further := ih (before ++ [e]) (extended before s e m now permitted stepped)
      rwa [List.append_assoc] at further
  exact recorded [] start

/-- The same where the event that is added is known to be the next of a list,
for every prefix of that list. -/
theorem run_prefixes (holds : List ε → σ → Prop) (start : holds [] s)
    (extended : ∀ before e after m n, events = before ++ e :: after → Run step allowed s before m →
      holds before m → allowed m e → step m e = some n → holds (before ++ [e]) n)
    (split : events = before ++ after) (run : Run step allowed s before m) : holds before m := by
  induction before using List.reverseRecOn generalizing after m with
  | nil =>
    obtain rfl := run_nil.mp run
    exact start
  | append_singleton before e ih =>
    obtain ⟨n, reached, final⟩ := run_append.mp run
    obtain ⟨permitted, stepped⟩ := run_single.mp final
    have shape : events = before ++ e :: after := by
      rw [split, List.append_assoc, List.singleton_append]
    exact extended before e after n m shape reached (ih shape reached) permitted stepped

/-- A relation between the state a run starts from and the one it has reached,
kept by every allowed step. -/
theorem run_relates (related : σ → σ → Prop) (refl : ∀ s, related s s)
    (extended : ∀ s m e t, related s m → allowed m e → step m e = some t → related s t)
    (run : Run step allowed s events t) : related s t :=
  run_invariant (related s) (extended s) (refl s) run

/-- A run into a condition has a step that enters it. -/
theorem run_enters (entered : σ → Prop) (run : Run step allowed s events t) (outside : ¬ entered s)
    (inside : entered t) :
    ∃ before e after m n, events = before ++ e :: after ∧ Run step allowed s before m ∧ ¬ entered m ∧
      allowed m e ∧ step m e = some n ∧ entered n ∧ Run step allowed n after t := by
  induction run with
  | done => exact absurd inside outside
  | @next s e m events t permitted stepped rest ih =>
    by_cases now : entered m
    · exact ⟨[], e, events, s, m, rfl, .done, outside, permitted, stepped, now, rest⟩
    · obtain ⟨before, later, after, p, q, split, reached, out, allows, enters, inn, remaining⟩ := ih now inside
      exact ⟨e :: before, later, after, p, q, by rw [split]; rfl, .next permitted stepped reached, out, allows,
        enters, inn, remaining⟩

/-- Where each step keeps `holds` exactly if it meets `condition`, the runs all
of whose steps meet the condition are the runs all of whose states satisfy
`holds`. -/
theorem run_meets_iff (holds : σ → Prop) (condition : σ → ε → Prop)
    (exactly : ∀ s e t, holds s → allowed s e → step s e = some t → (holds t ↔ condition s e))
    (start : holds s) (run : Run step allowed s events t) :
    Run step (fun s e => allowed s e ∧ condition s e) s events t ↔
      ∀ before after m, events = before ++ after → Run step allowed s before m → holds m := by
  constructor
  · intro meets before after m split reached
    subst split
    obtain ⟨n, first, _⟩ := run_append.mp meets
    obtain rfl := run_deterministic reached first
    exact run_invariant holds
      (fun s e t holding permitted stepped => (exactly s e t holding permitted.1 stepped).mpr permitted.2)
      start first
  · intro always
    induction run with
    | done => exact .done
    | @next s e m events t permitted stepped rest ih =>
      have holding : holds m := always [e] events m rfl (run_single.mpr ⟨permitted, stepped⟩)
      refine .next ⟨permitted, (exactly s e m start permitted stepped).mp holding⟩ stepped
        (ih holding ?_)
      intro before after n split reached
      exact always (e :: before) after n (by rw [split]; rfl) (.next permitted stepped reached)

/-- Of a list of events, `e` comes up in the state `t`: those before it complete. -/
def ComesUp (step : σ → ε → Option σ) (allowed : σ → ε → Prop) (s : σ) (events : List ε) (e : ε) (t : σ) :
    Prop :=
  ∃ before after, events = before ++ e :: after ∧ Run step allowed s before t

/-- What comes up in a longer list came up before, or is its last event. -/
theorem comes_up_snoc :
    ComesUp step allowed s (events ++ [last]) e t ↔
      ComesUp step allowed s events e t ∨ (e = last ∧ Run step allowed s events t) := by
  constructor
  · rintro ⟨before, after, split, reached⟩
    rcases List.eq_nil_or_concat after with rfl | ⟨after, final, rfl⟩
    · obtain ⟨rfl, same⟩ := List.append_inj' split rfl
      exact .inr ⟨(List.cons.inj same).1.symm, reached⟩
    · have pieces : events ++ [last] = (before ++ e :: after) ++ [final] := by simpa using split
      exact .inl ⟨before, after, (List.append_inj' pieces rfl).1, reached⟩
  · rintro (⟨before, after, split, reached⟩ | ⟨rfl, reached⟩)
    · exact ⟨before, after ++ [last], by simp [split], reached⟩
    · exact ⟨events, [], rfl, reached⟩

/-! ## Two runs -/

/-- Where every step is matched by a related one, so is every run. -/
theorem run_simulates {τ δ : Type*} {other : τ → δ → Option τ} {permits : τ → δ → Prop}
    {events : List ε} {others : List δ} {t : τ} (related : σ → τ → Prop) (matching : ε → δ → Prop)
    (simulated : ∀ s e m t d, related s t → matching e d → allowed s e → step s e = some m →
      permits t d ∧ ∃ n, other t d = some n ∧ related m n)
    (start : related s t) (same : List.Forall₂ matching events others)
    (run : Run step allowed s events m) : ∃ n, Run other permits t others n ∧ related m n := by
  induction same generalizing s t with
  | nil =>
    obtain rfl := run_nil.mp run
    exact ⟨t, .done, start⟩
  | cons head _ ih =>
    obtain ⟨permitted, p, stepped, rest⟩ := run_cons.mp run
    obtain ⟨permits, q, matched, now⟩ := simulated _ _ _ _ _ start head permitted stepped
    obtain ⟨n, remaining, ends⟩ := ih now rest
    exact ⟨n, .next permits matched remaining, ends⟩

/-- Where some events of a system do nothing another system can see and every
other one is matched by one of its events, so is every run. -/
theorem run_projects {τ δ : Type*} {other : τ → δ → Option τ} {permits : τ → δ → Prop} {events : List ε} {t : τ}
    (related : σ → τ → Prop) (forward : ε → Option δ)
    (hidden : ∀ s e m t, related s t → allowed s e → forward e = none → step s e = some m → related m t)
    (visible : ∀ s e m t d, related s t → allowed s e → forward e = some d → step s e = some m →
      permits t d ∧ ∃ n, other t d = some n ∧ related m n)
    (start : related s t) (run : Run step allowed s events m) :
    ∃ n, Run other permits t (events.filterMap forward) n ∧ related m n := by
  induction run generalizing t with
  | done => exact ⟨t, .done, start⟩
  | @next s e p events m permitted stepped rest ih =>
    cases sent : forward e with
    | none =>
      rw [List.filterMap_cons_none sent]
      exact ih (hidden s e p t start permitted sent stepped)
    | some d =>
      obtain ⟨permits, q, matched, now⟩ := visible s e p t d start permitted sent stepped
      obtain ⟨n, remaining, ends⟩ := ih now
      rw [List.filterMap_cons_some sent]
      exact ⟨n, .next permits matched remaining, ends⟩

/-- The other way round: a run of what is seen is one of the system. -/
theorem run_lifts {τ δ : Type*} {other : τ → δ → Option τ} {permits : τ → δ → Prop} {events : List ε} {t n : τ}
    (related : σ → τ → Prop) (forward : ε → Option δ)
    (hidden : ∀ s e t, related s t → forward e = none → allowed s e ∧ ∃ m, step s e = some m ∧ related m t)
    (visible : ∀ s e t d n, related s t → forward e = some d → permits t d → other t d = some n →
      allowed s e ∧ ∃ m, step s e = some m ∧ related m n)
    (start : related s t) (run : Run other permits t (events.filterMap forward) n) :
    ∃ m, Run step allowed s events m ∧ related m n := by
  induction events generalizing s t with
  | nil =>
    obtain rfl := run_nil.mp run
    exact ⟨s, .done, start⟩
  | cons e events ih =>
    cases sent : forward e with
    | none =>
      rw [List.filterMap_cons_none sent] at run
      obtain ⟨permitted, p, stepped, now⟩ := hidden s e t start sent
      obtain ⟨m, rest, ends⟩ := ih now run
      exact ⟨m, .next permitted stepped rest, ends⟩
    | some d =>
      rw [List.filterMap_cons_some sent] at run
      obtain ⟨permits, q, matched, remaining⟩ := run_cons.mp run
      obtain ⟨permitted, p, stepped, now⟩ := visible s e t d q start sent permits matched
      obtain ⟨m, rest, ends⟩ := ih now remaining
      exact ⟨m, .next permitted stepped rest, ends⟩

/-! ## Running -/

/-- The end of a run, computed: nothing where an event is refused or fails. -/
def runFrom (step : σ → ε → Option σ) (allowed : σ → ε → Prop) [∀ s e, Decidable (allowed s e)] :
    σ → List ε → Option σ
  | s, [] => some s
  | s, e :: events => if allowed s e then (step s e).bind (runFrom step allowed · events) else none

theorem run_from_iff [∀ s e, Decidable (allowed s e)] :
    runFrom step allowed s events = some t ↔ Run step allowed s events t := by
  induction events generalizing s with
  | nil => simp [runFrom, run_nil, eq_comm]
  | cons e events ih =>
    rw [runFrom, run_cons]
    by_cases permitted : allowed s e
    · simp [permitted, Option.bind_eq_some_iff, ih]
    · simp [permitted]

/-- A run whose end passes a test exists where the computed one passes it. -/
theorem run_of_test (step : σ → ε → Option σ) (allowed : σ → ε → Prop) [∀ s e, Decidable (allowed s e)]
    (s : σ) (events : List ε) (test : σ → Bool)
    (passes : (runFrom step allowed s events).any test = true) :
    ∃ t, Run step allowed s events t ∧ test t = true := by
  cases ends : runFrom step allowed s events with
  | none =>
    rw [ends] at passes
    contradiction
  | some t =>
    rw [ends] at passes
    exact ⟨t, run_from_iff.mp ends, passes⟩

/-- The same for a step and the run that goes on from it. -/
theorem continued_of_test [∀ s e, Decidable (allowed s e)] (test : σ → Bool)
    (passes : ((step s e).bind (runFrom step allowed · events)).any test = true) :
    ∃ m t, step s e = some m ∧ Run step allowed m events t ∧ test t = true := by
  cases stepped : step s e with
  | none =>
    rw [stepped] at passes
    contradiction
  | some m =>
    rw [stepped] at passes
    obtain ⟨t, run, passed⟩ := run_of_test step allowed m events test passes
    exact ⟨m, t, rfl, run, passed⟩

/-! ## History -/

/-- The system together with a history variable. -/
def withHistory (step : σ → ε → Option σ) (record : γ → σ → ε → γ) (p : σ × γ) (e : ε) :
    Option (σ × γ) :=
  (step p.1 e).map fun t => (t, record p.2 p.1 e)

theorem with_history_step {record : γ → σ → ε → γ} :
    withHistory step record (s, g) e = some (t, h) ↔ step s e = some t ∧ h = record g s e := by
  simp only [withHistory, Option.map_eq_some_iff, Prod.mk.injEq]
  constructor
  · rintro ⟨_, stepped, rfl, rfl⟩
    exact ⟨stepped, rfl⟩
  · rintro ⟨stepped, rfl⟩
    exact ⟨t, stepped, rfl, rfl⟩

end Foundations.Runs
