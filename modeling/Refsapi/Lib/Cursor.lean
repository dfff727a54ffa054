/-
# Lib.Cursor -- iterators of a container that may change under them

An iterator stands at an element, which is known by its key, or at the end.  The keys of the
container are listed in the order in which it is walked, and an increment is given the container of
the moment: it fails at the end, and at an element that was erased.
-/
import Mathlib.Data.List.Basic
import Mathlib.Data.List.Nodup

/-- Where an iterator stands. -/
inductive Cursor (κ : Type) where
  | at (key : κ)
  | atEnd
  deriving DecidableEq, Repr

/-- Why an increment fails. -/
inductive Cursor.Fault where
  | atEnd | erased
  deriving DecidableEq, Repr

namespace Cursor

set_option autoImplicit false

variable {κ : Type} [DecidableEq κ]

/-- `begin()` -/
def first : List κ → Cursor κ
  | [] => .atEnd
  | key :: _ => .at key

/-- The keys from an element on. -/
def onwards (key : κ) (keys : List κ) : List κ := keys.dropWhile fun k => k ≠ key

/-- `++` -/
def next (keys : List κ) : Cursor κ → Except Fault (Cursor κ)
  | .atEnd => .error .atEnd
  | .at key => if key ∈ keys then .ok (first (onwards key keys).tail) else .error .erased

/-- The iterator may be dereferenced, or stands at the end. -/
def Valid (keys : List κ) : Cursor κ → Prop
  | .atEnd => True
  | .at key => key ∈ keys

/-- How many elements there are from the iterator on. -/
def ahead (keys : List κ) : Cursor κ → Nat
  | .atEnd => 0
  | .at key => (onwards key keys).length

omit [DecidableEq κ] in
theorem valid_first (keys : List κ) : Valid keys (first keys) := by
  cases keys with
  | nil => trivial
  | cons key rest => exact List.mem_cons_self

theorem onwards_append {before : List κ} {key : κ} (fresh : key ∉ before) (behind : List κ) :
    onwards key (before ++ key :: behind) = key :: behind := by
  have skipped : ∀ k ∈ before, decide (k ≠ key) = true := by
    intro k isBefore
    exact decide_eq_true fun same => fresh (same ▸ isBefore)
  rw [onwards, List.dropWhile_append_of_pos skipped, List.dropWhile_cons_of_neg (by simp)]

/-- The increment of an iterator in the middle. -/
theorem next_append {before : List κ} {key : κ} (fresh : key ∉ before) (behind : List κ) :
    next (before ++ key :: behind) (.at key) = .ok (first behind) := by
  rw [next, if_pos (by simp), onwards_append fresh, List.tail_cons]

theorem next_of_mem {keys : List κ} {key : κ} (isKey : key ∈ keys) :
    ∃ cursor, next keys (.at key) = .ok cursor ∧ Valid keys cursor := by
  obtain ⟨before, behind, rfl, fresh⟩ := List.eq_append_cons_of_mem isKey
  refine ⟨first behind, next_append fresh behind, ?_⟩
  cases behind with
  | nil => trivial
  | cons key rest => exact List.mem_append_right _ (List.mem_cons_of_mem _ List.mem_cons_self)

theorem next_first {keys : List κ} (some : keys ≠ []) :
    ∃ cursor, next keys (first keys) = .ok cursor := by
  cases keys with
  | nil => exact absurd rfl some
  | cons key rest =>
      obtain ⟨cursor, moved, -⟩ := next_of_mem (List.mem_cons_self : key ∈ key :: rest)
      exact ⟨cursor, moved⟩

theorem valid_of_next {keys : List κ} {cursor moved : Cursor κ}
    (moves : next keys cursor = .ok moved) : Valid keys moved := by
  cases cursor with
  | atEnd => cases moves
  | «at» key =>
      rw [next] at moves
      split at moves
      · next isKey =>
          obtain ⟨cursor, same, valid⟩ := next_of_mem isKey
          rw [next, if_pos isKey, moves] at same
          cases same
          exact valid
      · cases moves

/-- An increment leaves one element less. -/
theorem ahead_of_next {keys : List κ} (distinct : keys.Nodup) {cursor moved : Cursor κ}
    (moves : next keys cursor = .ok moved) : ahead keys cursor = ahead keys moved + 1 := by
  cases cursor with
  | atEnd => cases moves
  | «at» key =>
      rw [next] at moves
      split at moves
      · next isKey =>
          obtain ⟨before, behind, rfl, fresh⟩ := List.eq_append_cons_of_mem isKey
          rw [onwards_append fresh] at moves
          cases moves
          rw [ahead, onwards_append fresh]
          cases behind with
          | nil => rfl
          | cons key' rest =>
              have split : before ++ key :: key' :: rest = (before ++ [key]) ++ key' :: rest := by
                simp
              have fresh' : key' ∉ before ++ [key] := by
                rw [split] at distinct
                exact fun isBefore => (List.nodup_append.1 distinct).2.2 key' isBefore key'
                  List.mem_cons_self rfl
              rw [List.tail_cons, first, ahead, split, onwards_append fresh']
              rfl
      · cases moves

end Cursor
