import Chip8Emulator.Foundations.Runs
import Mathlib.Logic.Equiv.Basic

/-! Components of one kind that take turns. Each step sees its own component
and a part that all of them share, which is how one of them can disturb the
others. Whether it does is decided step by step: the components are isolated
exactly if every step finds in the shared part what it needs to go as it would
alone. -/
namespace Foundations.Interleavings
open Foundations.Runs

/-- The components and what they share. -/
structure Together (ι ω σ : Type*) where
  component : ι → ω
  shared : σ

section Turns
variable {ι W ω σ ε : Type*} [DecidableEq ι] (parts : W ≃ ω × σ)

/-- The state a component runs in. -/
def Together.state (m : Together ι ω σ) (i : ι) : W := parts.symm (m.component i, m.shared)

/-- The components after one of them reached a state. -/
def Together.put (m : Together ι ω σ) (i : ι) (w : W) : Together ι ω σ where
  component := Function.update m.component i (parts w).1
  shared := (parts w).2

/-- One component's event. -/
def takeTurn (step : W → ε → Option W) (m : Together ι ω σ) (event : ι × ε) : Option (Together ι ω σ) :=
  (step (m.state parts event.1) event.2).map (m.put parts event.1)

/-- The events of one component. -/
def own (i : ι) (events : List (ι × ε)) : List ε :=
  events.filterMap fun (j, event) => if j = i then some event else none

variable (step : W → ε → Option W)

/-- What a component does among the others looks like what it does alone. -/
def Isolated (seen : ω → ο) (start : Together ι ω σ) (events : List (ι × ε)) : Prop :=
  ∀ before after m i, events = before ++ after →
    Run (takeTurn parts step) (fun _ _ => True) start before m →
    ∃ w, Run step (fun _ _ => True) (start.state parts i) (own i before) w ∧ seen (m.component i) = seen (parts w).1

/-- Every event meets a condition on the shared part it finds and on the state
its component is in when alone. -/
def EachMeets (condition : σ → W → ε → Prop) (start : Together ι ω σ) (events : List (ι × ε)) : Prop :=
  ∀ before i event after m w, events = before ++ (i, event) :: after →
    Run (takeTurn parts step) (fun _ _ => True) start before m →
    Run step (fun _ _ => True) (start.state parts i) (own i before) w → condition m.shared w event

/-- A step among the others is matched alone, and what is kept of the component
stays the same exactly where it looks the same and the condition is met. -/
def MatchedWhen (kept : ω → κ) (seen : κ → ο) (condition : σ → W → ε → Prop) : Prop :=
  ∀ v w event next, kept (parts v).1 = kept (parts w).1 → step v event = some next →
    ∃ after, step w event = some after ∧
      (condition (parts v).2 w event → kept (parts next).1 = kept (parts after).1) ∧
      (seen (kept (parts next).1) = seen (kept (parts after).1) → condition (parts v).2 w event)

/-- A test of every event along the run, next to what each component does alone. -/
def meetsFrom (test : σ → W → ε → Bool) : Together ι ω σ → (ι → W) → List (ι × ε) → Bool
  | _, _, [] => true
  | m, alone, (i, event) :: events =>
    test m.shared (alone i) event &&
      match takeTurn parts step m (i, event), step (alone i) event with
      | some n, some next => meetsFrom test n (Function.update alone i next) events
      | _, _ => false

variable {parts step} {κ ο : Type*} {kept : ω → κ} {seen : κ → ο} {condition : σ → W → ε → Prop}
  {start last m n : Together ι ω σ} {events before after : List (ι × ε)} {i j : ι} {event : ε}

theorem take_turn_iff :
    takeTurn parts step m (i, event) = some n ↔
      ∃ next, step (m.state parts i) event = some next ∧ m.put parts i next = n :=
  Option.map_eq_some_iff

theorem turn_keeps_others (turned : takeTurn parts step m (i, event) = some n) (other : j ≠ i) :
    n.component j = m.component j := by
  obtain ⟨next, _, rfl⟩ := take_turn_iff.mp turned
  exact Function.update_of_ne other _ _

theorem own_snoc : own i (before ++ [(i, event)]) = own i before ++ [event] := by
  simp [own]

theorem own_other (other : j ≠ i) : own j (before ++ [(i, event)]) = own j before := by
  simp [own, Ne.symm other]

/-- The events after the first, seen from the states it leaves. -/
theorem run_own_cons (alone : ι → W) (stepped : step (alone i) event = some next) :
    Run step (fun _ _ => True) (alone j) (own j ((i, event) :: events)) w ↔
      Run step (fun _ _ => True) (Function.update alone i next j) (own j events) w := by
  by_cases turn : i = j
  · subst turn
    simp [own, run_cons, stepped]
  · simp [own, turn, Ne.symm turn]

section Tested
variable {test : σ → W → ε → Bool} (strict : ∀ s w event, test s w event = true → condition s w event)
include strict

theorem condition_of_test {alone : ι → W} (passes : meetsFrom parts step test m alone events = true)
    (split : events = before ++ (i, event) :: after)
    (reached : Run (takeTurn parts step) (fun _ _ => True) m before n)
    (solo : Run step (fun _ _ => True) (alone i) (own i before) w) : condition n.shared w event := by
  induction events generalizing m alone before with
  | nil => simp at split
  | cons first events ih =>
    obtain ⟨j, head⟩ := first
    rw [meetsFrom, Bool.and_eq_true] at passes
    obtain ⟨now, later⟩ := passes
    cases before with
    | nil =>
      obtain ⟨⟨rfl, rfl⟩, rfl⟩ : (j = i ∧ head = event) ∧ events = after := by simpa using split
      obtain rfl := run_nil.mp reached
      obtain rfl := run_nil.mp solo
      exact strict _ _ _ now
    | cons other before =>
      obtain ⟨rfl, rfl⟩ : (j, head) = other ∧ events = before ++ (i, event) :: after := by simpa using split
      obtain ⟨_, p, turned, rest⟩ := run_cons.mp reached
      rw [turned] at later
      cases stepped : step (alone j) head with
      | none => simp [stepped] at later
      | some next =>
        rw [stepped] at later
        exact ih later rfl rest ((run_own_cons alone stepped).mp solo)

/-- Events that pass a test stricter than the condition all meet it. -/
theorem each_meets_of_test (passes : meetsFrom parts step test start (start.state parts) events = true) :
    EachMeets parts step condition start events :=
  fun _ _ _ _ _ _ split reached solo => condition_of_test strict passes split reached solo

end Tested

/-! ## Isolation -/

/-- What is kept of every component is the same as when it is alone. -/
def Same (parts : W ≃ ω × σ) (step : W → ε → Option W) (kept : ω → κ) (start : Together ι ω σ)
    (before : List (ι × ε)) (m : Together ι ω σ) : Prop :=
  ∀ i, ∃ w, Run step (fun _ _ => True) (start.state parts i) (own i before) w ∧
    kept (m.component i) = kept (parts w).1

theorem same_initial : Same parts step kept start [] start :=
  fun i => ⟨_, .done, by simp [Together.state]⟩

section Matched
variable (matched : MatchedWhen parts step kept seen condition)
include matched

/-- A turn is matched by the component alone. -/
theorem turn_matched (equal : kept (m.component i) = kept (parts w).1)
    (turned : takeTurn parts step m (i, event) = some n) :
    ∃ next, step w event = some next ∧
      (condition m.shared w event → kept (n.component i) = kept (parts next).1) ∧
      (seen (kept (n.component i)) = seen (kept (parts next).1) → condition m.shared w event) := by
  obtain ⟨v, stepped, rfl⟩ := take_turn_iff.mp turned
  have found := matched (m.state parts i) w event v
  simp only [Together.state, Equiv.apply_symm_apply] at found
  simpa only [Together.put, Function.update_self] using found equal stepped

/-- A turn that is granted the condition leaves every component the same. -/
theorem same_snoc (same : Same parts step kept start before m)
    (turned : takeTurn parts step m (i, event) = some n)
    (granted : ∀ w, Run step (fun _ _ => True) (start.state parts i) (own i before) w →
      kept (m.component i) = kept (parts w).1 → condition m.shared w event) :
    Same parts step kept start (before ++ [(i, event)]) n := by
  intro j
  obtain ⟨w, alone, equal⟩ := same j
  by_cases turn : j = i
  · subst turn
    obtain ⟨next, stepped, keeps, _⟩ := turn_matched matched equal turned
    refine ⟨next, ?_, keeps (granted w alone equal)⟩
    rw [own_snoc]
    exact run_append.mpr ⟨w, alone, run_single.mpr ⟨trivial, stepped⟩⟩
  · refine ⟨w, ?_, ?_⟩
    · rw [own_other turn]
      exact alone
    · rw [turn_keeps_others turned turn, equal]

/-- A turn after which the component looks as it does alone met the condition. -/
theorem condition_of_isolated (isolated : Isolated parts step (fun component => seen (kept component)) start events)
    (split : events = before ++ (i, event) :: after)
    (reached : Run (takeTurn parts step) (fun _ _ => True) start before m)
    (turned : takeTurn parts step m (i, event) = some n)
    (alone : Run step (fun _ _ => True) (start.state parts i) (own i before) w)
    (equal : kept (m.component i) = kept (parts w).1) : condition m.shared w event := by
  obtain ⟨next, stepped, _, needed⟩ := turn_matched matched equal turned
  have shape : events = (before ++ [(i, event)]) ++ after := by simp [split]
  obtain ⟨v, longer, looks⟩ := isolated _ after n i shape
    (run_append.mpr ⟨m, reached, run_single.mpr ⟨trivial, turned⟩⟩)
  rw [own_snoc] at longer
  obtain rfl := run_deterministic longer (run_append.mpr ⟨w, alone, run_single.mpr ⟨trivial, stepped⟩⟩)
  exact needed looks

/-- Components are isolated exactly if every event of the run meets the condition. -/
theorem isolated_iff_each_meets (run : Run (takeTurn parts step) (fun _ _ => True) start events last) :
    Isolated parts step (fun component => seen (kept component)) start events ↔
      EachMeets parts step condition start events := by
  constructor
  · intro isolated before i event after m w split reached alone
    have same : Same parts step kept start before m := by
      refine run_prefixes (Same parts step kept start) same_initial ?_ split reached
      rintro before ⟨i, event⟩ after m n split reached same _ turned
      exact same_snoc matched same turned fun w alone equal =>
        condition_of_isolated matched isolated split reached turned alone equal
    obtain ⟨v, solo, equal⟩ := same i
    obtain rfl := run_deterministic solo alone
    rw [split] at run
    obtain ⟨_, n, turned, _⟩ := run_cons.mp (run_after run reached)
    exact condition_of_isolated matched isolated split reached turned solo equal
  · intro meets before after m i split reached
    have same : Same parts step kept start before m := by
      refine run_prefixes (Same parts step kept start) same_initial ?_ split reached
      rintro before ⟨i, event⟩ after m n split reached same _ turned
      exact same_snoc matched same turned fun w alone _ => meets before i event after m w split reached alone
    obtain ⟨w, alone, equal⟩ := same i
    exact ⟨w, alone, congrArg seen equal⟩

end Matched
end Turns

end Foundations.Interleavings
