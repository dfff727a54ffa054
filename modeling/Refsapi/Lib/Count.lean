/-
# Lib.Count -- counting the slots `1, …, n` that have a property

`slots n p` is what a counter that is adjusted event by event ought to hold.  A
change of one slot changes the count by what that slot contributes before and
after (`slots_change`), so an incremental counter is compared with it one event
at a time.
-/
import Mathlib.Algebra.BigOperators.Group.Finset.Piecewise
import Mathlib.Algebra.BigOperators.Intervals
import Mathlib.Data.Nat.Cast.Order.Ring
import Mathlib.Order.Interval.Finset.Nat

set_option autoImplicit false

/-- How many of `1, …, n` have the property. -/
def slots (n : Nat) (p : Nat → Bool) : Nat := ((Finset.Icc 1 n).filter fun id => p id = true).card

theorem slots_eq_sum (n : Nat) (p : Nat → Bool) :
    slots n p = (Finset.Icc 1 n).sum fun id => (p id).toNat := by
  rw [slots, Finset.card_filter]
  refine Finset.sum_congr rfl fun id _ => ?_
  cases p id <;> rfl

/-- A slot changes: what it contributed goes, what it contributes comes. -/
theorem slots_change (p p' : Nat → Bool) {n id : Nat} (low : 0 < id) (high : id ≤ n)
    (same : ∀ x, x ≠ id → p' x = p x) :
    slots n p' + (p id).toNat = slots n p + (p' id).toNat := by
  have inside : id ∈ Finset.Icc 1 n := Finset.mem_Icc.2 ⟨low, high⟩
  have rest : ((Finset.Icc 1 n).erase id).sum (fun x => (p' x).toNat) =
      ((Finset.Icc 1 n).erase id).sum fun x => (p x).toNat :=
    Finset.sum_congr rfl fun x member => by rw [same x (Finset.ne_of_mem_erase member)]
  rw [slots_eq_sum, slots_eq_sum, ← Finset.add_sum_erase _ _ inside,
    ← Finset.add_sum_erase _ (fun x => (p x).toNat) inside, rest]
  omega

theorem slots_congr {n : Nat} {p p' : Nat → Bool} (same : ∀ id, 0 < id → id ≤ n → p' id = p id) :
    slots n p' = slots n p := by
  rw [slots_eq_sum, slots_eq_sum]
  refine Finset.sum_congr rfl fun id inside => ?_
  obtain ⟨low, high⟩ := Finset.mem_Icc.1 inside
  rw [same id low high]

theorem slots_succ (n : Nat) (p : Nat → Bool) :
    slots (n + 1) p = slots n p + (p (n + 1)).toNat := by
  rw [slots_eq_sum, slots_eq_sum, Finset.sum_Icc_succ_top (by omega)]

theorem slots_pos {n id : Nat} {p : Nat → Bool} (low : 0 < id) (high : id ≤ n)
    (holds : p id = true) : 0 < slots n p :=
  Finset.card_pos.2 ⟨id, Finset.mem_filter.2 ⟨Finset.mem_Icc.2 ⟨low, high⟩, holds⟩⟩

theorem slots_eq_zero {n : Nat} {p : Nat → Bool} (none : ∀ id, 0 < id → id ≤ n → p id = false) :
    slots n p = 0 := by
  rw [slots_eq_sum, Finset.sum_eq_zero]
  intro id inside
  obtain ⟨low, high⟩ := Finset.mem_Icc.1 inside
  rw [none id low high]
  rfl
