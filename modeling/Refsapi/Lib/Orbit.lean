/-
# Lib.Orbit -- the first point of an orbit at which it stops

A walk goes on from each point at which it does not stop.  If it goes on to one
of `n` points only, it stops after `n` steps or it never does
(`first_card_of_first`).
-/
import Mathlib.Data.Finset.Card
import Mathlib.Logic.Function.Iterate

namespace Orbit

set_option autoImplicit false

variable {α : Type} {stop : α → Prop} [DecidablePred stop] {next : α → α}

/-- Where the walk stops, if that takes `n` steps at most. -/
def first (stop : α → Prop) [DecidablePred stop] (next : α → α) : Nat → α → Option α
  | 0, a => if stop a then some a else none
  | n + 1, a => if stop a then some a else first stop next n (next a)

theorem first_eq_some_iff {n : Nat} {a b : α} : first stop next n a = some b ↔
    ∃ k ≤ n, (∀ j < k, ¬ stop (next^[j] a)) ∧ stop (next^[k] a) ∧ next^[k] a = b := by
  induction n generalizing a with
  | zero =>
      constructor
      · intro found
        unfold first at found
        split at found
        · next stops => exact ⟨0, Nat.le_refl _, by simp, stops, Option.some_inj.1 found⟩
        · cases found
      · rintro ⟨k, none, -, stops, rfl⟩
        obtain rfl := Nat.le_zero.1 none
        exact if_pos stops
  | succ n ih =>
      unfold first
      split
      · next stops =>
          constructor
          · intro found
            exact ⟨0, Nat.zero_le _, by simp, stops, Option.some_inj.1 found⟩
          · rintro ⟨k, -, goes, -, rfl⟩
            rcases Nat.eq_zero_or_pos k with rfl | later
            · rfl
            · exact absurd stops (goes 0 later)
      · next goesOn =>
          rw [ih]
          constructor
          · rintro ⟨k, le, goes, stops, rfl⟩
            refine ⟨k + 1, Nat.succ_le_succ le, fun j before => ?_, stops, rfl⟩
            cases j with
            | zero => exact goesOn
            | succ j => exact goes j (Nat.lt_of_succ_lt_succ before)
          · rintro ⟨k, le, goes, stops, rfl⟩
            cases k with
            | zero => exact absurd stops goesOn
            | succ k =>
                exact ⟨k, Nat.le_of_succ_le_succ le,
                  fun j before => goes (j + 1) (Nat.succ_lt_succ before), stops, rfl⟩

/-- More steps change nothing. -/
theorem first_mono {m n : Nat} {a b : α} (le : m ≤ n) (found : first stop next m a = some b) :
    first stop next n a = some b := by
  obtain ⟨k, within, stops⟩ := first_eq_some_iff.1 found
  exact first_eq_some_iff.2 ⟨k, within.trans le, stops⟩

/-- **Enough steps.**  A walk that goes on to points of a finite set only stops, if it stops,
after as many steps as the set has points. -/
theorem first_card_of_first {points : Finset α} (closed : ∀ a, ¬ stop a → next a ∈ points)
    {n : Nat} {a b : α} (found : first stop next n a = some b) :
    first stop next points.card a = some b := by
  obtain ⟨k, -, goes, stops, rfl⟩ := first_eq_some_iff.1 found
  refine first_eq_some_iff.2 ⟨k, ?_, goes, stops, rfl⟩
  by_contra far
  -- Two of the points after the first are one, so the walk is where it stops too early.
  have reached : ∀ i ∈ Finset.range k, next^[i + 1] a ∈ points := by
    intro i member
    rw [Function.iterate_succ_apply']
    exact closed _ (goes i (Finset.mem_range.1 member))
  obtain ⟨i, isI, j, isJ, unlike, same⟩ := Finset.exists_ne_map_eq_of_card_lt_of_maps_to
    (by rw [Finset.card_range]; exact Nat.not_le.1 far) reached
  have early (i j : Nat) (before : i < j) (within : j < k)
      (same : next^[i + 1] a = next^[j + 1] a) :
      False := by
    refine goes (k - (j - i)) (by omega) ?_
    have shift (m : Nat) : next^[m + (i + 1)] a = next^[m + (j + 1)] a := by
      rw [Function.iterate_add_apply, same, ← Function.iterate_add_apply]
    have meets := shift (k - (j + 1))
    rw [show k - (j + 1) + (j + 1) = k by omega,
      show k - (j + 1) + (i + 1) = k - (j - i) by omega] at meets
    rw [meets]
    exact stops
  rcases Nat.lt_or_gt_of_ne unlike with before | behind
  · exact early i j before (Finset.mem_range.1 isJ) same
  · exact early j i behind (Finset.mem_range.1 isI) same.symm

end Orbit
