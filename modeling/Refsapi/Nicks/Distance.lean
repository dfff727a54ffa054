/-
# Nicks.Distance -- `fast_levenshtein`

The edit distance of two names, in two rows of 256 numbers that are swapped after each pass.  The
rows are not initialised: a cell is nothing until it is written, and to read such a cell, or to
leave a row, is no result.

After `i` passes the row that is read next has the distances of the first `i` characters to all
beginnings of the other name (`Completed`), which one pass carries on (`pass_completed`).
-/
import Refsapi.Lib.EditDistance

namespace Refsapi.Nicks

set_option autoImplicit false

/-! ## Rows -/

/-- `std::array<int, 256>` -/
abbrev Row : Type := Vector (Option Int) 256

namespace Row

def uninitialised : Row := Vector.replicate 256 none

def read (row : Row) (j : Nat) : Option Int := if h : j < 256 then row[j] else none

def write (row : Row) (j : Nat) (value : Int) : Option Row :=
  if h : j < 256 then some (row.set j (some value)) else none

theorem write_eq (row : Row) {j : Nat} (inside : j < 256) (value : Int) :
    ∃ written, row.write j value = some written ∧ written.read j = some value ∧
      ∀ k, k ≠ j → written.read k = row.read k := by
  refine ⟨row.set j (some value), by rw [write, dif_pos inside], ?_, fun k other => ?_⟩
  · rw [read, dif_pos inside, Vector.getElem_set_self]
  · rw [read, read]
    split
    · next h => rw [Vector.getElem_set_ne _ h (Ne.symm other)]
    · rfl

end Row

/-! ## `fast_levenshtein` -/

section

variable {α : Type} [DecidableEq α] (s1 s2 : List α)

/-- The first loop. -/
def firstRow : Option Row :=
  (List.range (s2.length + 1)).foldlM (fun prev j => prev.write j j) Row.uninitialised

/-- The body of the inner loop. -/
def cell (prev : Row) (i : Nat) (curr : Row) (j : Nat) : Option Row := do
  let a ← s1[i - 1]?
  let b ← s2[j - 1]?
  let cost := if a = b then 0 else 1
  let left ← curr.read (j - 1)
  let above ← prev.read j
  let before ← prev.read (j - 1)
  curr.write j (min (min (left + 1) (above + 1)) (before + cost))

/-- A round of the outer loop up to the swap. -/
def pass (prev curr : Row) (i : Nat) : Option Row := do
  let curr ← curr.write 0 i
  (List.range' 1 s2.length).foldlM (cell s1 s2 prev i) curr

/-- `prev` and `curr` after a number of rounds, with the swap at the end of each. -/
def passes : Nat → Option (Row × Row)
  | 0 => (firstRow s2).map fun prev => (prev, Row.uninitialised)
  | i + 1 => do
      let (prev, curr) ← passes i
      let curr ← pass s1 s2 prev curr (i + 1)
      return (curr, prev)

def fastLevenshtein : Option Int :=
  let len1 := s1.length
  let len2 := s2.length
  if len1 = 0 then some len2
  else if len2 = 0 then some len1
  else if len1 > 255 || len2 > 255 then some (max len1 len2)
  else do
    let (prev, _) ← passes s1 s2 len1
    prev.read len2

/-! ## A loop -/

/-- A loop whose rounds succeed, and carry an invariant on. -/
theorem foldlM_range' {σ : Type} (round : σ → Nat → Option σ) (Inv : Nat → σ → Prop)
    {first : Nat} (count : Nat) {s : σ} (init : Inv first s)
    (step : ∀ i s, first ≤ i → i < first + count → Inv i s →
      ∃ next, round s i = some next ∧ Inv (i + 1) next) :
    ∃ last, (List.range' first count).foldlM round s = some last ∧ Inv (first + count) last := by
  induction count generalizing first s with
  | zero => exact ⟨s, rfl, init⟩
  | succ count ih =>
      obtain ⟨next, isNext, carried⟩ := step first s (Nat.le_refl _) (by omega) init
      obtain ⟨last, isLast, final⟩ := ih carried fun i s le less =>
        step i s (by omega) (by omega)
      refine ⟨last, ?_, ?_⟩
      · rw [List.range'_succ, List.foldlM_cons, isNext]
        exact isLast
      · rwa [show first + (count + 1) = first + 1 + count by omega]

/-! ## One pass -/

/-- The row has the distances of a word to all beginnings of the other, up to a length. -/
def Filled (word : List α) (n : Nat) (row : Row) : Prop :=
  ∀ j < n, row.read j = some (editDistance word (s2.take j))

/-- The row has the distances of the first `i` characters to all beginnings of the other name. -/
def Completed (i : Nat) (row : Row) : Prop := Filled s2 (s1.take i) (s2.length + 1) row

variable {s1 s2}

theorem Filled.write {word : List α} {n : Nat} {row : Row} (filled : Filled s2 word n row)
    (inside : n < 256) :
    ∃ written, row.write n (editDistance word (s2.take n)) = some written ∧
      Filled s2 word (n + 1) written := by
  obtain ⟨written, isWritten, here, other⟩ :=
    Row.write_eq row inside (editDistance word (s2.take n))
  refine ⟨written, isWritten, fun j less => ?_⟩
  rcases Nat.lt_succ_iff_lt_or_eq.1 less with before | rfl
  · rw [other j (Nat.ne_of_lt before), filled j before]
  · exact here

/-- The value of a cell, from the three before it. -/
theorem cell_value {i j : Nat} (row : i < s1.length) (column : j < s2.length) :
    (editDistance (s1.take (i + 1)) (s2.take (j + 1)) : Int) =
      min (min (editDistance (s1.take (i + 1)) (s2.take j) + 1 : Int)
        (editDistance (s1.take i) (s2.take (j + 1)) + 1))
        (editDistance (s1.take i) (s2.take j) + if s1[i] = s2[j] then 0 else 1) := by
  rw [List.take_succ_eq_append_getElem row, List.take_succ_eq_append_getElem column,
    editDistance_concat]
  split <;> omega

theorem cell_filled {i j : Nat} {prev curr : Row} (row : i < s1.length) (column : j < s2.length)
    (fits : s2.length ≤ 255) (completed : Completed s1 s2 i prev)
    (filled : Filled s2 (s1.take (i + 1)) (j + 1) curr) :
    ∃ written, cell s1 s2 prev (i + 1) curr (j + 1) = some written ∧
      Filled s2 (s1.take (i + 1)) (j + 2) written := by
  obtain ⟨written, isWritten, more⟩ := filled.write (by omega)
  refine ⟨written, ?_, more⟩
  rw [cell_value row column] at isWritten
  simp only [cell, Nat.add_sub_cancel, List.getElem?_eq_getElem row,
    List.getElem?_eq_getElem column, filled j (Nat.lt_succ_self j),
    completed (j + 1) (by omega), completed j (by omega), Option.bind_eq_bind, Option.bind_some]
  exact isWritten

theorem firstRow_completed (fits : s2.length ≤ 255) :
    ∃ prev, firstRow s2 = some prev ∧ Completed s1 s2 0 prev := by
  rw [firstRow, List.range_eq_range']
  have empty : Filled s2 ([] : List α) 0 Row.uninitialised :=
    fun j less => absurd less (Nat.not_lt_zero j)
  have loop := foldlM_range' (fun prev j => Row.write prev j j) (Filled s2 []) (s2.length + 1)
    empty ?_
  · rwa [Nat.zero_add] at loop
  · intro j row _ less filled
    obtain ⟨written, isWritten, more⟩ := filled.write (by omega)
    rw [editDistance_nil_left, List.length_take_of_le (by omega)] at isWritten
    exact ⟨written, isWritten, more⟩

/-- **One pass.**  It completes the row of the next character. -/
theorem pass_completed {i : Nat} {prev : Row} (curr : Row) (row : i < s1.length)
    (fits : s2.length ≤ 255) (completed : Completed s1 s2 i prev) :
    ∃ done, pass s1 s2 prev curr (i + 1) = some done ∧ Completed s1 s2 (i + 1) done := by
  have empty : Filled s2 (s1.take (i + 1)) 0 curr :=
    fun j less => absurd less (Nat.not_lt_zero j)
  obtain ⟨begun, isBegun, first⟩ := empty.write (by decide)
  rw [List.take_zero, editDistance_nil_right, List.length_take_of_le row] at isBegun
  obtain ⟨done, isDone, filled⟩ := foldlM_range' (cell s1 s2 prev (i + 1))
    (Filled s2 (s1.take (i + 1))) s2.length first
    fun j current from1 less filled => by
      obtain ⟨j, rfl⟩ := Nat.exists_eq_add_of_le' from1
      exact cell_filled row (by omega) fits completed filled
  rw [Nat.add_comm 1] at filled
  refine ⟨done, ?_, filled⟩
  rw [pass]
  simp only [isBegun, Option.bind_eq_bind, Option.bind_some]
  exact isDone

/-! ## All passes -/

/-- The swap at the end of a round. -/
theorem passes_succ {i : Nat} {prev curr done : Row}
    (before : passes s1 s2 i = some (prev, curr))
    (isDone : pass s1 s2 prev curr (i + 1) = some done) :
    passes s1 s2 (i + 1) = some (done, prev) := by
  rw [passes, before]
  simp only [Option.bind_eq_bind, Option.bind_some, isDone]
  rfl

/-- The row that is read after a number of passes is the one that the last of them completed. -/
theorem passes_completed {i : Nat} (rows : i ≤ s1.length) (fits : s2.length ≤ 255) :
    ∃ prev curr, passes s1 s2 i = some (prev, curr) ∧ Completed s1 s2 i prev := by
  induction i with
  | zero =>
      obtain ⟨prev, isFirst, completed⟩ : ∃ prev, firstRow s2 = some prev ∧
          Completed s1 s2 0 prev := firstRow_completed fits
      exact ⟨prev, Row.uninitialised, by rw [passes, isFirst]; rfl, completed⟩
  | succ i ih =>
      obtain ⟨prev, curr, before, completed⟩ := ih (by omega)
      obtain ⟨done, isDone, next⟩ := pass_completed curr (by omega) fits completed
      exact ⟨done, prev, passes_succ before isDone, next⟩

/-- What the function gives for two names that fit. -/
theorem fastLevenshtein_fits (first : s1 ≠ []) (second : s2 ≠ []) (fits1 : s1.length ≤ 255)
    (fits2 : s2.length ≤ 255) : fastLevenshtein s1 s2 = some (editDistance s1 s2 : Int) := by
  obtain ⟨prev, curr, run, completed⟩ := passes_completed (Nat.le_refl s1.length) fits2
  have last := completed s2.length (Nat.lt_succ_self _)
  rw [List.take_length, List.take_length] at last
  have short : ¬ (s1.length > 255 || s2.length > 255) = true := by simpa using ⟨fits1, fits2⟩
  rw [fastLevenshtein, if_neg (mt List.length_eq_zero_iff.1 first),
    if_neg (mt List.length_eq_zero_iff.1 second), if_neg short, run]
  exact last

end

/-- What the function gives for any two names. -/
theorem fastLevenshtein_value {α : Type} [DecidableEq α] (s1 s2 : List α) :
    fastLevenshtein s1 s2 = some
      (if (s1.length ≤ 255 ∧ s2.length ≤ 255) ∨ s1 = [] ∨ s2 = [] then (editDistance s1 s2 : Int)
      else (max s1.length s2.length : Nat)) := by
  by_cases first : s1 = []
  · simp [fastLevenshtein, first]
  by_cases second : s2 = []
  · simp [fastLevenshtein, first, second]
  by_cases fits : s1.length ≤ 255 ∧ s2.length ≤ 255
  · rw [if_pos (.inl fits), fastLevenshtein_fits first second fits.1 fits.2]
  · have long : (s1.length > 255 || s2.length > 255) = true := by
      simp only [Bool.or_eq_true, decide_eq_true_eq]
      omega
    rw [if_neg (by simp [fits, first, second]), fastLevenshtein,
      if_neg (mt List.length_eq_zero_iff.1 first), if_neg (mt List.length_eq_zero_iff.1 second),
      if_pos long]
    exact congrArg some (by omega)

/-- **The edit distance.**  No row is left and nothing is read before it is written; the result
is the distance of the names, unless one is longer than a row and the other is not empty: then
it is the greater length, which the distance does not exceed.  Each pass reads the row that the
one before it completed. -/
theorem fastLevenshtein_exact {α : Type} [DecidableEq α] (s1 s2 : List α) :
    fastLevenshtein s1 s2 = some
        (if (s1.length ≤ 255 ∧ s2.length ≤ 255) ∨ s1 = [] ∨ s2 = [] then (editDistance s1 s2 : Int)
        else (max s1.length s2.length : Nat)) ∧
      editDistance s1 s2 ≤ max s1.length s2.length ∧
      ∀ i < s1.length, s2.length ≤ 255 → ∃ prev curr done, passes s1 s2 i = some (prev, curr) ∧
        Completed s1 s2 i prev ∧ pass s1 s2 prev curr (i + 1) = some done ∧
        passes s1 s2 (i + 1) = some (done, prev) ∧ Completed s1 s2 (i + 1) done := by
  refine ⟨fastLevenshtein_value s1 s2, editDistance_le_max s1 s2, fun i less fits => ?_⟩
  obtain ⟨prev, curr, before, completed⟩ := passes_completed (Nat.le_of_lt less) fits
  obtain ⟨done, isDone, next⟩ := pass_completed curr less fits completed
  exact ⟨prev, curr, done, before, completed, isDone, passes_succ before isDone, next⟩

/-- Two names, two changes apart. -/
theorem fastLevenshtein_names : fastLevenshtein "nik".toList "nick1".toList = some 2 := by
  refine (fastLevenshtein_exact "nik".toList "nick1".toList).1.trans ?_
  simp [editDistance_cons]

end Refsapi.Nicks
