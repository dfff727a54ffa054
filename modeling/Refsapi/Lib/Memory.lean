/-
# Lib.Memory -- runs of cells in a memory

A memory has a cell at every address.  What has been written is there
(`holds_write`), until something is written over it (`Holds.write`).
-/
import Mathlib.Data.List.Basic

namespace Memory

set_option autoImplicit false

variable {α : Type} {memory : Nat → α} {start start' : Nat} {cells cells' : List α}

/-- The cells are written from an address on. -/
def write (memory : Nat → α) (start : Nat) (cells : List α) : Nat → α :=
  fun i => if start ≤ i then cells[i - start]?.getD (memory i) else memory i

/-- The cells stand from an address on. -/
def Holds (memory : Nat → α) (start : Nat) (cells : List α) : Prop :=
  ∀ i x, cells[i]? = some x → memory (start + i) = x

/-- Two runs of cells have no cell in common. -/
def Apart (start length start' length' : Nat) : Prop :=
  length = 0 ∨ length' = 0 ∨ start + length ≤ start' ∨ start' + length' ≤ start

instance (start length start' length' : Nat) : Decidable (Apart start length start' length') :=
  inferInstanceAs (Decidable (_ ∨ _))

theorem Apart.symm {start length start' length' : Nat} (apart : Apart start length start' length') :
    Apart start' length' start length := by
  unfold Apart at *
  omega

theorem Apart.mono {start length start' length' k k' : Nat}
    (apart : Apart start length start' length') (le : k ≤ length) (le' : k' ≤ length') :
    Apart start k start' k' := by
  unfold Apart at *
  omega

theorem holds_write : Holds (write memory start cells) start cells := by
  intro i x found
  simp [write, found]

theorem write_of_outside {i : Nat} (outside : i < start ∨ start + cells.length ≤ i) :
    write memory start cells i = memory i := by
  unfold write
  split
  · rw [List.getElem?_eq_none (by omega)]
    rfl
  · rfl

/-- A write that is apart leaves a run of cells as it is. -/
theorem Holds.write (holds : Holds memory start cells)
    (apart : Apart start cells.length start' cells'.length) :
    Holds (Memory.write memory start' cells') start cells := by
  intro i x found
  have inside : i < cells.length := (List.getElem?_eq_some_iff.1 found).1
  have outside : start + i < start' ∨ start' + cells'.length ≤ start + i := by
    rcases apart with none | none | before | behind <;> omega
  rw [write_of_outside outside]
  exact holds i x found

end Memory
