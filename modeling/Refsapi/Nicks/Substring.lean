/-
# Nicks.Substring -- `longest_common_substring`

The table `dp` has, for a beginning of either name, the length of their longest common ending
(`RowOf`), and the greatest of its entries is the length of the longest common substring
(`longestCommonSubstring_longest`).
-/
import Mathlib.Data.List.Basic
import Mathlib.Order.Bounds.Defs

namespace Refsapi.Nicks

set_option autoImplicit false

variable {α : Type}

/-! ## Common endings and substrings -/

/-- The length of the longest common ending of two words. -/
structure LongestSuffix (xs ys : List α) (n : Nat) : Prop where
  reached : ∃ t, t <:+ xs ∧ t <:+ ys ∧ t.length = n
  most : ∀ t, t <:+ xs → t <:+ ys → t.length ≤ n

/-- The length of the longest common substring of two words. -/
structure LongestInfix (xs ys : List α) (n : Nat) : Prop where
  reached : ∃ t, t <:+: xs ∧ t <:+: ys ∧ t.length = n
  most : ∀ t, t <:+: xs → t <:+: ys → t.length ≤ n

namespace LongestSuffix

theorem nil_left (ys : List α) : LongestSuffix [] ys 0 where
  reached := ⟨[], List.suffix_rfl, List.nil_suffix, rfl⟩
  most _ inXs _ := inXs.length_le

theorem nil_right (xs : List α) : LongestSuffix xs [] 0 where
  reached := ⟨[], List.nil_suffix, List.suffix_rfl, rfl⟩
  most _ _ inYs := inYs.length_le

/-- A common character at the end of both words. -/
theorem concat [DecidableEq α] {xs ys : List α} {n : Nat} (longest : LongestSuffix xs ys n)
    (a b : α) : LongestSuffix (xs ++ [a]) (ys ++ [b]) (if a = b then n + 1 else 0) := by
  split
  · next same =>
      subst same
      obtain ⟨t, inXs, inYs, length⟩ := longest.reached
      have longer {zs : List α} (inZs : t <:+ zs) : t ++ [a] <:+ zs ++ [a] :=
        List.suffix_concat_iff.2 (.inr ⟨t, rfl, inZs⟩)
      refine ⟨⟨t ++ [a], longer inXs, longer inYs, by rw [List.length_append, length]; rfl⟩, ?_⟩
      intro u inXs inYs
      rcases List.suffix_concat_iff.1 inXs with rfl | ⟨v, rfl, endsXs⟩
      · exact Nat.zero_le _
      · rcases List.suffix_concat_iff.1 inYs with none | ⟨w, same, endsYs⟩
        · exact absurd none (by simp)
        · obtain rfl := List.append_cancel_right same
          rw [List.length_append]
          exact Nat.succ_le_succ (longest.most v endsXs endsYs)
  · next different =>
      refine ⟨⟨[], List.nil_suffix, List.nil_suffix, rfl⟩, fun t inXs inYs => ?_⟩
      rcases List.suffix_concat_iff.1 inXs with rfl | ⟨u, rfl, -⟩
      · exact Nat.le_refl 0
      · rcases List.suffix_concat_iff.1 inYs with none | ⟨v, same, -⟩
        · exact absurd none (by simp)
        · exact absurd (List.append_inj' same rfl).2 (by simpa using different)

end LongestSuffix

namespace LongestInfix

variable {xs ys : List α} {m n : Nat}

theorem nil_left (ys : List α) : LongestInfix [] ys 0 where
  reached := ⟨[], List.infix_rfl, List.nil_infix, rfl⟩
  most _ inXs _ := inXs.length_le

theorem symm (longest : LongestInfix xs ys n) : LongestInfix ys xs n where
  reached := by
    obtain ⟨t, inXs, inYs, length⟩ := longest.reached
    exact ⟨t, inYs, inXs, length⟩
  most t inYs inXs := longest.most t inXs inYs

theorem unique (longest : LongestInfix xs ys m) (longest' : LongestInfix xs ys n) : m = n := by
  obtain ⟨t, inXs, inYs, rfl⟩ := longest.reached
  obtain ⟨u, inXs', inYs', rfl⟩ := longest'.reached
  exact Nat.le_antisymm (longest'.most t inXs inYs) (longest.most u inXs' inYs')

theorem le_left (longest : LongestInfix xs ys n) : n ≤ xs.length := by
  obtain ⟨t, inXs, -, rfl⟩ := longest.reached
  exact inXs.length_le

/-- Words that are no longer than their common substring are the same. -/
theorem eq_of_max_le (longest : LongestInfix xs ys n) (le : max xs.length ys.length ≤ n) :
    xs = ys := by
  obtain ⟨t, inXs, inYs, rfl⟩ := longest.reached
  have left := inXs.eq_of_length_le (Nat.le_trans (Nat.le_max_left _ _) le)
  have right := inYs.eq_of_length_le (Nat.le_trans (Nat.le_max_right _ _) le)
  exact left.symm.trans right

end LongestInfix

/-! ## `longest_common_substring` -/

/-- `dp[i]`, from `dp[i - 1]` and the character before it. -/
def dpRow [DecidableEq α] (a : α) (s2 : List α) (above : List Nat) : List Nat :=
  0 :: List.zipWith (fun b before => if a = b then before + 1 else 0) s2 above

/-- The loop over the characters of `s1`; the entries that are not set are 0, and do not change
`max_len`. -/
def dpLoop [DecidableEq α] (s2 : List α) : List α → List Nat → Nat → Nat
  | [], _, maxLen => maxLen
  | a :: rest, above, maxLen =>
      let row := dpRow a s2 above
      dpLoop s2 rest row (row.foldl max maxLen)

def longestCommonSubstring [DecidableEq α] (s1 s2 : List α) : Nat :=
  dpLoop s2 s1 (List.replicate (s2.length + 1) 0) 0

/-! ## A row -/

/-- The row has the lengths of the common endings of a word and each beginning of `s2`. -/
structure RowOf (word s2 : List α) (row : List Nat) : Prop where
  length : row.length = s2.length + 1
  entry : ∀ j n, row[j]? = some n → LongestSuffix word (s2.take j) n

theorem rowOf_zero (s2 : List α) : RowOf [] s2 (List.replicate (s2.length + 1) 0) where
  length := List.length_replicate
  entry j n isEntry := by
    rw [List.getElem?_replicate] at isEntry
    split at isEntry
    · cases isEntry
      exact LongestSuffix.nil_left _
    · cases isEntry

theorem RowOf.next [DecidableEq α] {word s2 : List α} {above : List Nat}
    (row : RowOf word s2 above) (a : α) :
    RowOf (word ++ [a]) s2 (dpRow a s2 above) where
  length := by
    rw [dpRow, List.length_cons, List.length_zipWith, row.length]
    omega
  entry j n isEntry := by
    cases j with
    | zero =>
        cases isEntry
        exact LongestSuffix.nil_right _
    | succ j =>
        rw [dpRow, List.getElem?_cons_succ, List.getElem?_zipWith] at isEntry
        cases isB : s2[j]? with
        | none => simp [isB] at isEntry
        | some b =>
            cases isBefore : above[j]? with
            | none => simp [isB, isBefore] at isEntry
            | some before =>
                simp only [isB, isBefore, Option.some.injEq] at isEntry
                obtain ⟨inside, rfl⟩ := List.getElem?_eq_some_iff.1 isB
                rw [List.take_succ_eq_append_getElem inside, ← isEntry]
                exact (row.entry j before isBefore).concat a _

/-! ## The greatest entry -/

theorem foldl_max (row : List Nat) (m : Nat) :
    m ≤ row.foldl max m ∧ (∀ n ∈ row, n ≤ row.foldl max m) ∧
      (row.foldl max m = m ∨ row.foldl max m ∈ row) := by
  induction row generalizing m with
  | nil => exact ⟨Nat.le_refl m, fun _ member => absurd member List.not_mem_nil, .inl rfl⟩
  | cons n rest ih =>
      obtain ⟨first, others, reached⟩ := ih (max m n)
      rw [List.foldl_cons]
      refine ⟨by omega, List.forall_mem_cons.2 ⟨by omega, others⟩, ?_⟩
      rcases reached with same | later
      · rw [same]
        rcases Nat.le_total m n with le | le
        · rw [Nat.max_eq_right le]
          exact .inr List.mem_cons_self
        · exact .inl (Nat.max_eq_left le)
      · exact .inr (List.mem_cons_of_mem n later)

/-- The entries of the next row, and what was the greatest before. -/
theorem LongestInfix.next {word s2 : List α} {row : List Nat} {a : α} {m : Nat}
    (longest : LongestInfix word s2 m) (rowOf : RowOf (word ++ [a]) s2 row) :
    LongestInfix (word ++ [a]) s2 (row.foldl max m) := by
  obtain ⟨before, entries, reached⟩ := foldl_max row m
  refine ⟨?_, fun t inWord inS2 => ?_⟩
  · rcases reached with same | member
    · obtain ⟨t, inWord, inS2, length⟩ := longest.reached
      exact ⟨t, inWord.trans (List.prefix_append word [a]).isInfix, inS2, length.trans same.symm⟩
    · obtain ⟨j, isEntry⟩ := List.mem_iff_getElem?.1 member
      obtain ⟨t, inWord, inS2, length⟩ := (rowOf.entry j _ isEntry).reached
      exact ⟨t, inWord.isInfix, inS2.isInfix.trans (List.take_prefix j s2).isInfix, length⟩
  · rcases List.infix_concat_iff.1 inWord with ends | earlier
    · obtain ⟨ending, suffix, begins⟩ := List.infix_iff_suffix_prefix.1 inS2
      have inside : ending.length < row.length := by
        rw [rowOf.length]
        exact Nat.lt_succ_of_le begins.length_le
      have most := (rowOf.entry _ _ (List.getElem?_eq_getElem inside)).most t ends
        (List.prefix_iff_eq_take.1 begins ▸ suffix)
      exact Nat.le_trans most (entries _ (List.getElem_mem inside))
    · exact Nat.le_trans (longest.most t earlier inS2) before

theorem dpLoop_longest [DecidableEq α] {word s2 : List α} {above : List Nat} {m : Nat}
    (rest : List α) (rowOf : RowOf word s2 above) (longest : LongestInfix word s2 m) :
    LongestInfix (word ++ rest) s2 (dpLoop s2 rest above m) := by
  induction rest generalizing word above m with
  | nil => rwa [List.append_nil, dpLoop]
  | cons a rest ih =>
      have next := ih (rowOf.next a) (longest.next (rowOf.next a))
      rwa [List.append_assoc] at next

/-- **The longest common substring.** -/
theorem longestCommonSubstring_longest [DecidableEq α] (s1 s2 : List α) :
    LongestInfix s1 s2 (longestCommonSubstring s1 s2) :=
  dpLoop_longest s1 (rowOf_zero s2) (LongestInfix.nil_left s2)

theorem longestCommonSubstring_comm [DecidableEq α] (s1 s2 : List α) :
    longestCommonSubstring s1 s2 = longestCommonSubstring s2 s1 :=
  (longestCommonSubstring_longest s1 s2).unique (longestCommonSubstring_longest s2 s1).symm

/-- **What `longest_common_substring` is.**  It is the greatest length of a word that is a
substring of both, whichever of the two comes first. -/
theorem longestCommonSubstring_spec [DecidableEq α] (s1 s2 : List α) :
    IsGreatest {n | ∃ t, t <:+: s1 ∧ t <:+: s2 ∧ t.length = n} (longestCommonSubstring s1 s2) ∧
      longestCommonSubstring s1 s2 = longestCommonSubstring s2 s1 := by
  have longest := longestCommonSubstring_longest s1 s2
  refine ⟨⟨longest.reached, ?_⟩, longestCommonSubstring_comm s1 s2⟩
  rintro _ ⟨t, inS1, inS2, rfl⟩
  exact longest.most t inS1 inS2

end Refsapi.Nicks
