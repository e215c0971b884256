import Mathlib.Data.List.Count
import Mathlib.Algebra.Ring.Parity

/-! Pictures over arbitrary places, changed by toggling places one at a time.
Only the parity of how often a place was toggled matters, so neither the order
of the toggles nor a repeated batch does. -/
namespace Foundations.Toggles

variable {ι : Type*} [DecidableEq ι]

def toggle (picture : ι → Bool) (place : ι) : ι → Bool :=
  fun i => picture i ^^ decide (i = place)

def toggleAll (picture : ι → Bool) (places : List ι) : ι → Bool :=
  places.foldl toggle picture

theorem toggle_all_append (picture : ι → Bool) (first second : List ι) :
    toggleAll picture (first ++ second) = toggleAll (toggleAll picture first) second :=
  List.foldl_append

/-- A place is flipped exactly by an odd number of toggles. -/
theorem toggle_all_parity (picture : ι → Bool) (places : List ι) (i : ι) :
    toggleAll picture places i = (picture i ^^ decide (Odd (places.count i))) := by
  induction places generalizing picture with
  | nil => simp [toggleAll]
  | cons place places ih =>
    have rest := ih (toggle picture place)
    change toggleAll (toggle picture place) places i = _
    rw [rest, toggle, List.count_cons]
    by_cases here : i = place
    · subst here
      rw [beq_self_eq_true, if_pos rfl, Bool.xor_assoc]
      by_cases odd : Odd (places.count i) <;> simp [Nat.odd_add_one, odd]
    · have different : (place == i) = false := beq_eq_false_iff_ne.mpr (Ne.symm here)
      simp [here, different]

theorem toggle_all_perm (picture : ι → Bool) (same : first.Perm second) :
    toggleAll picture first = toggleAll picture second := by
  funext i
  rw [toggle_all_parity, toggle_all_parity, same.count_eq]

/-- The same batch twice changes nothing. -/
theorem toggle_all_twice (picture : ι → Bool) (places : List ι) :
    toggleAll (toggleAll picture places) places = picture := by
  funext i
  rw [toggle_all_parity, toggle_all_parity, Bool.xor_assoc, Bool.xor_self, Bool.xor_false]

/-- A batch without repetition flips exactly the places in it. -/
theorem toggle_all_nodup (picture : ι → Bool) (distinct : places.Nodup) (i : ι) :
    toggleAll picture places i = (picture i ^^ decide (i ∈ places)) := by
  rw [toggle_all_parity, distinct.count]
  by_cases member : i ∈ places <;> simp [member]

/-- A batch without repetition changes nothing only if it is empty. -/
theorem toggle_all_eq_self_iff (picture : ι → Bool) (distinct : places.Nodup) :
    toggleAll picture places = picture ↔ places = [] := by
  constructor
  · intro same
    rw [List.eq_nil_iff_forall_not_mem]
    intro place member
    have flipped := congrFun same place
    rw [toggle_all_nodup picture distinct place, decide_eq_true member, Bool.xor_true] at flipped
    exact (Bool.not_eq_self _).mp flipped
  · rintro rfl
    rfl

end Foundations.Toggles
