/-
# Lib.Blocks -- a stream that is cut into blocks of one length

A coder takes blocks of `n` elements, and the stream comes in pieces of any length: what is left
of one piece waits for the next.  `Cut n xs blocks rest` says that `xs` has been cut into the
blocks, and the rest is shorter than a block.  A stream has one cut (`Cut.unique`), and the cut
of a longer stream goes on from the rest of a shorter one (`Cut.append`): so it does not matter
what the pieces are.

At the end of the stream the rest is filled up (`Cut.fill`).
-/
import Mathlib.Data.List.Basic

set_option autoImplicit false

/-- The blocks, and a rest shorter than a block, are the stream. -/
structure Cut {α : Type} (n : Nat) (xs : List α) (blocks : List (List α)) (rest : List α) :
    Prop where
  whole : blocks.flatten ++ rest = xs
  full : ∀ block ∈ blocks, block.length = n
  short : rest.length < n

namespace Cut

variable {α : Type} {n : Nat} {xs ys rest rest' : List α} {blocks blocks' : List (List α)}

/-! ## One cut -/

theorem nil (short : rest.length < n) : Cut n rest [] rest :=
  ⟨rfl, fun _ member => absurd member List.not_mem_nil, short⟩

theorem cons {block : List α} (cut : Cut n xs blocks rest) (full : block.length = n) :
    Cut n (block ++ xs) (block :: blocks) rest := by
  refine ⟨?_, List.forall_mem_cons.2 ⟨full, cut.full⟩, cut.short⟩
  rw [List.flatten_cons, List.append_assoc, cut.whole]

theorem length_flatten (full : ∀ block ∈ blocks, block.length = n) :
    blocks.flatten.length = blocks.length * n := by
  induction blocks with
  | nil => simp
  | cons block blocks ih =>
      rw [List.flatten_cons, List.length_append, full block List.mem_cons_self,
        ih fun b member => full b (List.mem_cons_of_mem _ member), List.length_cons,
        Nat.succ_mul, Nat.add_comm]

theorem length (cut : Cut n xs blocks rest) : xs.length = blocks.length * n + rest.length := by
  rw [← cut.whole, List.length_append, length_flatten cut.full]

theorem length_rest (cut : Cut n xs blocks rest) : rest.length = xs.length % n := by
  rw [cut.length, Nat.mul_comm, Nat.mul_add_mod, Nat.mod_eq_of_lt cut.short]

theorem unique (cut : Cut n xs blocks rest) (cut' : Cut n xs blocks' rest') :
    blocks = blocks' ∧ rest = rest' := by
  induction blocks generalizing xs blocks' with
  | nil =>
      have whole : rest = xs := cut.whole
      subst whole
      cases blocks' with
      | nil => exact ⟨rfl, cut'.whole.symm⟩
      | cons block blocks' =>
          have long := cut'.length
          rw [List.length_cons, Nat.succ_mul] at long
          have short := cut.short
          omega
  | cons block blocks ih =>
      have full := cut.full block List.mem_cons_self
      cases blocks' with
      | nil =>
          have whole : rest' = xs := cut'.whole
          have long := cut.length
          rw [List.length_cons, Nat.succ_mul] at long
          have short := whole ▸ cut'.short
          omega
      | cons block' blocks' =>
          have full' := cut'.full block' List.mem_cons_self
          have whole := cut.whole.trans cut'.whole.symm
          rw [List.flatten_cons, List.flatten_cons, List.append_assoc, List.append_assoc] at whole
          obtain ⟨rfl, tails⟩ := List.append_inj whole (full.trans full'.symm)
          have later : ∀ b ∈ blocks, b.length = n :=
            fun b member => cut.full b (List.mem_cons_of_mem _ member)
          have later' : ∀ b ∈ blocks', b.length = n :=
            fun b member => cut'.full b (List.mem_cons_of_mem _ member)
          obtain ⟨rfl, same⟩ := ih ⟨rfl, later, cut.short⟩ ⟨tails.symm, later', cut'.short⟩
          exact ⟨rfl, same⟩

/-! ## A stream in pieces -/

/-- **The next piece.**  It is cut together with the rest of what came before. -/
theorem append (cut : Cut n xs blocks rest) (next : Cut n (rest ++ ys) blocks' rest') :
    Cut n (xs ++ ys) (blocks ++ blocks') rest' := by
  refine ⟨?_, ?_, next.short⟩
  · rw [List.flatten_append, List.append_assoc, next.whole, ← List.append_assoc, cut.whole]
  · intro block member
    rcases List.mem_append.1 member with before | later
    · exact cut.full block before
    · exact next.full block later

/-! ## The cut of a list -/

/-- The blocks of a list, taken by their positions. -/
theorem blocks_range (positive : 0 < n) (xs : List α) :
    Cut n xs ((List.range (xs.length / n)).map fun i => (xs.drop (i * n)).take n)
      (xs.drop (xs.length / n * n)) := by
  have inside : ∀ i ∈ List.range (xs.length / n), (i + 1) * n ≤ xs.length := by
    intro i member
    exact Nat.le_trans (Nat.mul_le_mul_right n (List.mem_range.1 member)) (Nat.div_mul_le_self _ _)
  refine ⟨?_, ?_, ?_⟩
  · have flat : ∀ k, k * n ≤ xs.length →
        ((List.range k).map fun i => (xs.drop (i * n)).take n).flatten = xs.take (k * n) := by
      intro k fits
      induction k with
      | zero => simp
      | succ k ih =>
          have less : k * n ≤ xs.length :=
            Nat.le_trans (Nat.mul_le_mul_right n (Nat.le_succ k)) fits
          rw [List.range_succ, List.map_append, List.flatten_append, ih less, Nat.succ_mul,
            List.take_add]
          simp
    rw [flat _ (Nat.div_mul_le_self _ _), List.take_append_drop]
  · intro block member
    obtain ⟨i, isIndex, rfl⟩ := List.mem_map.1 member
    have fits := inside i isIndex
    rw [Nat.succ_mul] at fits
    rw [List.length_take, List.length_drop]
    omega
  · rw [List.length_drop, Nat.mul_comm]
    have split := Nat.div_add_mod xs.length n
    have less := Nat.mod_lt xs.length positive
    omega

/-! ## The end of the stream -/

/-- **The end.**  The rest, filled up to a block, is the last one. -/
theorem fill (cut : Cut n xs blocks rest) (a : α) :
    Cut n (xs ++ List.replicate (n - rest.length) a)
      (blocks ++ [rest ++ List.replicate (n - rest.length) a]) [] := by
  have short := cut.short
  refine cut.append ⟨?_, ?_, by rw [List.length_nil]; omega⟩
  · simp
  · intro block member
    rw [List.mem_singleton.1 member, List.length_append, List.length_replicate]
    omega

end Cut
