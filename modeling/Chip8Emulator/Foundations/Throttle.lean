import Mathlib.Tactic.Linarith
import Mathlib.Tactic.Ring

/-! A throttle lets a call through when a period has passed since the last call
it let through, or when the call is forced. Unforced calls are let through no
more often than once a period, however many there are and whenever they come. -/
namespace Foundations.Throttle

structure Call where
  /-- Where the throttle starts to measure, if this is its first call. -/
  first : Int
  now : Int
  forced : Bool

structure State where
  /-- Where the throttle measures from, once there was a call. -/
  last : Option Int
  passed : Nat

def State.initial : State where
  last := none
  passed := 0

def Passes (period : Int) (last : Option Int) (call : Call) : Prop :=
  period ≤ call.now - last.getD call.first ∨ call.forced = true

instance (period : Int) (last : Option Int) (call : Call) : Decidable (Passes period last call) :=
  inferInstanceAs (Decidable (_ ∨ _))

def State.next (period : Int) (s : State) (call : Call) : State :=
  if Passes period s.last call then { last := some call.now, passed := s.passed + 1 }
  else { s with last := some (s.last.getD call.first) }

def State.after (period : Int) (s : State) (calls : List Call) : State := calls.foldl (State.next period) s

theorem after_append (period : Int) (s : State) (before calls : List Call) :
    s.after period (before ++ calls) = (s.after period before).after period calls :=
  List.foldl_append

def forcedCount (calls : List Call) : Nat := calls.countP (·.forced)

/-- The readings a throttle takes. -/
def readings : List Call → List Int
  | [] => []
  | call :: rest => call.first :: call.now :: rest.map (·.now)

section Bound
variable {hi : Int} (period : Int)

/-- Each call that passes unforced uses up a period of the time that is left. -/
theorem passed_from {start : Int} {s : State} (calls : List Call) (measured : s.last = some start)
    (ordered : (start :: calls.map (·.now)).Pairwise (· ≤ ·)) (within : ∀ call ∈ calls, call.now ≤ hi)
    (left : start ≤ hi) :
    period * (s.after period calls).passed ≤ period * (s.passed + forcedCount calls) + (hi - start) := by
  induction calls generalizing s start with
  | nil =>
    simp only [State.after, List.foldl_nil, forcedCount, List.countP_nil]
    push_cast
    linarith
  | cons call rest ih =>
    rw [List.map_cons] at ordered
    obtain ⟨since, later⟩ := List.pairwise_cons.mp ordered
    have elapsed : start ≤ call.now := since call.now List.mem_cons_self
    obtain ⟨inside, remaining⟩ := List.forall_mem_cons.mp within
    change period * ((s.next period call).after period rest).passed ≤ _
    by_cases passes : Passes period s.last call
    · have bound := ih (s := { last := some call.now, passed := s.passed + 1 }) rfl later remaining inside
      rw [State.next, if_pos passes]
      by_cases forced : call.forced = true
      · have count : forcedCount (call :: rest) = forcedCount rest + 1 := List.countP_cons_of_pos forced
        rw [count]
        push_cast at bound ⊢
        linarith
      · have count : forcedCount (call :: rest) = forcedCount rest := List.countP_cons_of_neg forced
        have waited : period ≤ call.now - start := by
          have reached := passes.resolve_right forced
          rwa [measured] at reached
        rw [count]
        push_cast at bound ⊢
        linarith
    · have unforced : ¬ call.forced = true := fun forced => passes (.inr forced)
      have count : forcedCount (call :: rest) = forcedCount rest := List.countP_cons_of_neg unforced
      have kept : ({ s with last := some (s.last.getD call.first) } : State).last = some start := by
        rw [measured]
        rfl
      have fewer : (start :: rest.map (·.now)).Pairwise (· ≤ ·) :=
        List.pairwise_cons.mpr ⟨fun reading member => since reading (List.mem_cons_of_mem _ member),
          (List.pairwise_cons.mp later).2⟩
      rw [State.next, if_neg passes, count]
      exact ih kept fewer remaining left

/-- Over a stretch of time at most as many calls pass as it has periods, the
forced ones aside. -/
theorem passed_bound {lo : Int} {calls : List Call} (ordered : (readings calls).Pairwise (· ≤ ·))
    (within : ∀ reading ∈ readings calls, lo ≤ reading ∧ reading ≤ hi) (stretch : lo ≤ hi) :
    period * (State.initial.after period calls).passed ≤ period * forcedCount calls + (hi - lo) := by
  cases calls with
  | nil =>
    simp only [State.after, List.foldl_nil, State.initial, forcedCount, List.countP_nil]
    push_cast
    linarith
  | cons call rest =>
    obtain ⟨start, others⟩ := List.forall_mem_cons.mp within
    have latest : ∀ later ∈ call :: rest, later.now ≤ hi := fun later member =>
      (others later.now (List.mem_map_of_mem member)).2
    have bound : period * (State.after period { last := some call.first, passed := 0 } (call :: rest)).passed ≤ _ :=
      passed_from period (call :: rest) rfl ordered latest start.2
    change period * (State.after period { last := some call.first, passed := 0 } (call :: rest)).passed ≤ _
    push_cast at bound ⊢
    linarith [start.1]

end Bound

end Foundations.Throttle
