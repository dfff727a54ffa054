/-
# Lib.EditDistance -- the distance between two words

A word becomes another by deleting, inserting and replacing letters.  `Edits xs ys n` says that it
can be done, from the front to the back, with `n` changes, and `editDistance` is the recursion
that finds the least number (`edits_editDistance`, `editDistance_le`).

Whether the words are gone through from the front or from the back makes no difference
(`editDistance_reverse`): so the recursion also holds at the ends of the words
(`editDistance_concat`), which is how a table of the prefixes is filled.
-/
import Mathlib.Data.List.Basic

set_option autoImplicit false

/-- The second word comes of the first by `n` changes. -/
inductive Edits {α : Type} : List α → List α → Nat → Prop
  | nil : Edits [] [] 0
  | keep {xs ys : List α} {n : Nat} (x : α) (rest : Edits xs ys n) : Edits (x :: xs) (x :: ys) n
  | replace {xs ys : List α} {n : Nat} (x y : α) (rest : Edits xs ys n) :
      Edits (x :: xs) (y :: ys) (n + 1)
  | delete {xs ys : List α} {n : Nat} (x : α) (rest : Edits xs ys n) :
      Edits (x :: xs) ys (n + 1)
  | insert {xs ys : List α} {n : Nat} (y : α) (rest : Edits xs ys n) :
      Edits xs (y :: ys) (n + 1)

section

variable {α : Type} [DecidableEq α]

/-- The least number of changes. -/
def editDistance : List α → List α → Nat
  | [], ys => ys.length
  | x :: xs, [] => (x :: xs).length
  | x :: xs, y :: ys =>
      min (min (editDistance (x :: xs) ys + 1) (editDistance xs (y :: ys) + 1))
        (editDistance xs ys + if x = y then 0 else 1)

end

namespace Edits

variable {α : Type} {xs xs' ys ys' : List α} {m n : Nat}

/-! ## Changes -/

theorem deleteAll : (xs : List α) → Edits xs [] xs.length
  | [] => nil
  | x :: xs => delete x (deleteAll xs)

theorem insertAll : (ys : List α) → Edits [] ys ys.length
  | [] => nil
  | y :: ys => insert y (insertAll ys)

theorem symm (edits : Edits xs ys n) : Edits ys xs n := by
  induction edits with
  | nil => exact nil
  | keep x _ ih => exact keep x ih
  | replace x y _ ih => exact replace y x ih
  | delete x _ ih => exact insert x ih
  | insert y _ ih => exact delete y ih

theorem append (edits : Edits xs ys m) (edits' : Edits xs' ys' n) :
    Edits (xs ++ xs') (ys ++ ys') (m + n) := by
  induction edits with
  | nil => simpa using edits'
  | keep x _ ih => exact keep x ih
  | replace x y _ ih => exact Nat.succ_add _ n ▸ replace x y ih
  | delete x _ ih => exact Nat.succ_add _ n ▸ delete x ih
  | insert y _ ih => exact Nat.succ_add _ n ▸ insert y ih

theorem reverse (edits : Edits xs ys n) : Edits xs.reverse ys.reverse n := by
  induction edits with
  | nil => exact nil
  | keep x _ ih => simpa using ih.append (keep x nil)
  | replace x y _ ih => simpa using ih.append (replace x y nil)
  | delete x _ ih => simpa using ih.append (delete x nil)
  | insert y _ ih => simpa using ih.append (insert y nil)

theorem eq_of_zero (edits : Edits xs ys 0) : xs = ys := by
  generalize none : 0 = n at edits
  induction edits with
  | nil => rfl
  | keep x _ ih => rw [ih none]
  | replace => cases none
  | delete => cases none
  | insert => cases none

theorem refl : (xs : List α) → Edits xs xs 0
  | [] => nil
  | x :: xs => keep x (refl xs)

end Edits

section

variable {α : Type} [DecidableEq α] {xs ys : List α} {n : Nat}

/-! ## The least number of them -/

@[simp] theorem editDistance_nil_left (ys : List α) : editDistance [] ys = ys.length := by
  rw [editDistance]

@[simp] theorem editDistance_nil_right (xs : List α) : editDistance xs [] = xs.length := by
  cases xs <;> rw [editDistance]

theorem editDistance_cons (x y : α) (xs ys : List α) :
    editDistance (x :: xs) (y :: ys) =
      min (min (editDistance (x :: xs) ys + 1) (editDistance xs (y :: ys) + 1))
        (editDistance xs ys + if x = y then 0 else 1) := by
  rw [editDistance]

theorem edits_editDistance : (xs ys : List α) → Edits xs ys (editDistance xs ys)
  | [], ys => by simpa using Edits.insertAll ys
  | x :: xs, [] => by simpa using Edits.deleteAll (x :: xs)
  | x :: xs, y :: ys => by
      have inserted := (edits_editDistance (x :: xs) ys).insert y
      have deleted := (edits_editDistance xs (y :: ys)).delete x
      have both : Edits (x :: xs) (y :: ys) (editDistance xs ys + if x = y then 0 else 1) := by
        split
        · next same => exact same ▸ (edits_editDistance xs ys).keep x
        · exact (edits_editDistance xs ys).replace x y
      rw [editDistance_cons]
      have least (a b c : Nat) :
          min (min a b) c = a ∨ min (min a b) c = b ∨ min (min a b) c = c := by omega
      rcases least (editDistance (x :: xs) ys + 1) (editDistance xs (y :: ys) + 1)
        (editDistance xs ys + if x = y then 0 else 1) with least | least | least
      · rwa [least]
      · rwa [least]
      · rwa [least]

theorem editDistance_le (edits : Edits xs ys n) : editDistance xs ys ≤ n := by
  induction edits with
  | nil => simp
  | keep x _ ih =>
      rw [editDistance_cons, if_pos rfl]
      exact Nat.le_trans (Nat.min_le_right _ _) ih
  | replace x y _ ih =>
      rw [editDistance_cons]
      refine Nat.le_trans (Nat.min_le_right _ _) (Nat.add_le_add ih ?_)
      split <;> decide
  | @delete xs ys n x _ ih =>
      cases ys with
      | nil => simpa using ih
      | cons y ys =>
          rw [editDistance_cons]
          exact Nat.le_trans (Nat.min_le_left _ _)
            (Nat.le_trans (Nat.min_le_right _ _) (Nat.succ_le_succ ih))
  | @insert xs ys n y _ ih =>
      cases xs with
      | nil => simpa using ih
      | cons x xs =>
          rw [editDistance_cons]
          exact Nat.le_trans (Nat.min_le_left _ _)
            (Nat.le_trans (Nat.min_le_left _ _) (Nat.succ_le_succ ih))

theorem editDistance_comm (xs ys : List α) : editDistance xs ys = editDistance ys xs :=
  Nat.le_antisymm (editDistance_le (edits_editDistance ys xs).symm)
    (editDistance_le (edits_editDistance xs ys).symm)

theorem editDistance_eq_zero_iff : editDistance xs ys = 0 ↔ xs = ys := by
  constructor
  · intro none
    exact (none ▸ edits_editDistance xs ys : Edits xs ys 0).eq_of_zero
  · rintro rfl
    exact Nat.le_zero.1 (editDistance_le (Edits.refl xs))

theorem editDistance_le_max (xs ys : List α) :
    editDistance xs ys ≤ max xs.length ys.length := by
  induction xs generalizing ys with
  | nil => simp
  | cons x xs ih =>
      cases ys with
      | nil => simp
      | cons y ys =>
          rw [editDistance_cons, List.length_cons, List.length_cons, Nat.succ_max_succ]
          have atMost : (if x = y then 0 else 1) ≤ 1 := by split <;> decide
          exact Nat.le_trans (Nat.min_le_right _ _) (Nat.add_le_add (ih ys) atMost)

/-! ## From the back -/

theorem editDistance_reverse (xs ys : List α) :
    editDistance xs.reverse ys.reverse = editDistance xs ys := by
  refine Nat.le_antisymm (editDistance_le (edits_editDistance xs ys).reverse) ?_
  have back := (edits_editDistance xs.reverse ys.reverse).reverse
  rw [List.reverse_reverse, List.reverse_reverse] at back
  exact editDistance_le back

/-- **The recursion at the ends of the words.** -/
theorem editDistance_concat (x y : α) (xs ys : List α) :
    editDistance (xs ++ [x]) (ys ++ [y]) =
      min (min (editDistance (xs ++ [x]) ys + 1) (editDistance xs (ys ++ [y]) + 1))
        (editDistance xs ys + if x = y then 0 else 1) := by
  have front := editDistance_cons x y xs.reverse ys.reverse
  rw [← editDistance_reverse (xs ++ [x]) (ys ++ [y]), ← editDistance_reverse (xs ++ [x]) ys,
    ← editDistance_reverse xs (ys ++ [y]), ← editDistance_reverse xs ys]
  simpa only [List.reverse_append, List.reverse_singleton, List.singleton_append] using front

end
