/-
# Nicks.Repeats -- `max_rep_len`

How long the longest substring is that a text has at two positions.  The loops go over the
pairs of positions, `j` behind `i`, and both end `max_len` before the end of the text.  What
a bound leaves out has fewer characters behind it than were found (`Seen`), so that the
answer is that of all pairs (`maxRepLen_longest`).

The arithmetic is that of the processor, with a `Fault` where it would leave the text or the
numbers.
-/
import Refsapi.Misc.Wide
import Mathlib.Algebra.Group.Nat.Defs
import Mathlib.Data.List.Basic

namespace Refsapi.Nicks

set_option autoImplicit false

/-! ## Repeats of a word -/

section Words

variable {α : Type}

/-- The word `t` stands in `s` at the position. -/
def OccursAt (t s : List α) (position : Nat) : Prop := position ≤ s.length ∧ t <+: s.drop position

/-- A word of that length stands in `s` at two positions, which may overlap. -/
def Repeats (s : List α) (length : Nat) : Prop :=
  ∃ t i j, i ≠ j ∧ OccursAt t s i ∧ OccursAt t s j ∧ t.length = length

/-- The length of the longest repeat; the empty word has one position only, and no repeats. -/
structure LongestRepeat (s : List α) (n : Nat) : Prop where
  reached : Repeats s n ∨ s = [] ∧ n = 0
  most : ∀ k, Repeats s k → k ≤ n

/-- How many characters two words begin with in common. -/
def common [DecidableEq α] : List α → List α → Nat
  | a :: xs, b :: ys => if a = b then common xs ys + 1 else 0
  | _, _ => 0

end Words

/-! ## `max_rep_len` -/

/-- A `std::string` of a process with 32 bits. -/
structure StdString where
  text : Text
  fits : text.length < 2 ^ 31

inductive Fault where
  /-- A character behind the last one is read. -/
  | outside
  /-- A difference of two `size_t` is below 0. -/
  | wraps
  /-- An `int` does not hold the number. -/
  | overflows
  /-- A loop has not come to its end. -/
  | endless
  deriving DecidableEq, Repr

/-- `data[i]`. -/
def dataAt (s : Text) (i : Nat) : Except Fault UInt8 :=
  match s[i]? with
  | some b => .ok b
  | none => .error .outside

/-- `n - m`, of two `size_t`. -/
def minus (n m : Nat) : Except Fault Nat := if m ≤ n then .ok (n - m) else .error .wraps

/-- A `size_t` that is stored in an `int`. -/
def asInt (n : Nat) : Except Fault Nat := if n < 2 ^ 31 then .ok n else .error .overflows

/-- The loop over `k`, with `limit - k` turns left. -/
def matchLoop (s : Text) (i j : Nat) : Nat → Nat → Except Fault Nat
  | 0, k => .ok k
  | left + 1, k => do
      let a ← dataAt s (i + k)
      let b ← dataAt s (j + k)
      if a = b then matchLoop s i j left (k + 1) else .ok k

/-- The loop over `j`. -/
def jLoop (s : Text) (i : Nat) : Nat → Nat → Nat → Except Fault Nat
  | 0, _, _ => .error .endless
  | fuel + 1, j, maxLen => do
      let bound ← minus s.length maxLen
      if j < bound then
        let a ← dataAt s i
        let b ← dataAt s j
        if a ≠ b then jLoop s i fuel (j + 1) maxLen
        else
          let limit ← asInt (← minus s.length j)
          let k ← matchLoop s i j (limit - 1) 1
          jLoop s i fuel (j + 1) (if maxLen < k then k else maxLen)
      else .ok maxLen

/-- The loop over `i`. -/
def iLoop (s : Text) : Nat → Nat → Nat → Except Fault Nat
  | 0, _, _ => .error .endless
  | fuel + 1, i, maxLen => do
      let bound ← minus s.length maxLen
      if i < bound then
        let longer ← jLoop s i (s.length + 1) (i + 1) maxLen
        iLoop s fuel (i + 1) longer
      else .ok maxLen

def maxRepLen (s : StdString) : Except Fault Nat :=
  if s.text.length < 2 then .ok 0 else iLoop s.text (s.text.length + 1) 0 0

/-! ## Common beginnings -/

section Words

variable {α : Type}

theorem common_prefix [DecidableEq α] (xs ys : List α) :
    xs.take (common xs ys) <+: xs ∧ xs.take (common xs ys) <+: ys ∧
      (xs.take (common xs ys)).length = common xs ys := by
  induction xs generalizing ys with
  | nil => exact ⟨List.prefix_rfl, List.nil_prefix, rfl⟩
  | cons a xs ih =>
      cases ys with
      | nil => exact ⟨List.nil_prefix, List.prefix_rfl, rfl⟩
      | cons b ys =>
          rw [common]
          split
          · next same =>
              subst same
              obtain ⟨inXs, inYs, length⟩ := ih ys
              rw [List.take_succ_cons]
              refine ⟨?_, ?_, ?_⟩
              · exact (List.prefix_cons_inj a).2 inXs
              · exact (List.prefix_cons_inj a).2 inYs
              · rw [List.length_cons, length]
          · exact ⟨List.nil_prefix, List.nil_prefix, rfl⟩

theorem le_common [DecidableEq α] {t xs ys : List α} (inXs : t <+: xs) (inYs : t <+: ys) :
    t.length ≤ common xs ys := by
  induction t generalizing xs ys with
  | nil => exact Nat.zero_le _
  | cons a t ih =>
      obtain ⟨more, rfl⟩ := inXs
      obtain ⟨more', rfl⟩ := inYs
      rw [List.cons_append, List.cons_append, common, if_pos rfl, List.length_cons]
      exact Nat.succ_le_succ (ih (List.prefix_append t more) (List.prefix_append t more'))

theorem common_le_right [DecidableEq α] (xs ys : List α) : common xs ys ≤ ys.length := by
  obtain ⟨-, inYs, length⟩ := common_prefix xs ys
  rw [← length]
  exact inYs.length_le

/-- A repeat, with the first of its positions first. -/
theorem Repeats.ordered {s : List α} {n : Nat} (repeats : Repeats s n) :
    ∃ t i j, i < j ∧ OccursAt t s i ∧ OccursAt t s j ∧ t.length = n := by
  obtain ⟨t, i, j, different, first, second, length⟩ := repeats
  rcases Nat.lt_or_gt_of_ne different with before | behind
  · exact ⟨t, i, j, before, first, second, length⟩
  · exact ⟨t, j, i, behind, second, first, length⟩

theorem Repeats.le {s : List α} {n : Nat} (repeats : Repeats s n) : n ≤ s.length := by
  obtain ⟨t, i, -, -, ⟨-, begins⟩, -, rfl⟩ := repeats
  have short := begins.length_le
  rw [List.length_drop] at short
  omega

/-- Two positions give a repeat of what stands at both. -/
theorem repeats_common [DecidableEq α] {s : List α} {i j : Nat} (before : i < j)
    (inside : j < s.length) : Repeats s (common (s.drop i) (s.drop j)) := by
  obtain ⟨first, second, length⟩ := common_prefix (s.drop i) (s.drop j)
  exact ⟨_, i, j, Nat.ne_of_lt before, ⟨by omega, first⟩, ⟨by omega, second⟩, length⟩

theorem repeats_zero {s : List α} (some : s ≠ []) : Repeats s 0 := by
  have long := List.length_pos_iff.2 some
  exact ⟨[], 0, 1, Nat.zero_ne_one, ⟨Nat.zero_le _, List.nil_prefix⟩, ⟨long, List.nil_prefix⟩, rfl⟩

/-! ## The pairs that were seen -/

/-- `m` is the length of a repeat, and no pair of positions before `i`, `j` has more in common. -/
structure Seen [DecidableEq α] (s : List α) (i j m : Nat) : Prop where
  reached : Repeats s m
  most : ∀ a b, a < b → a < i ∨ a = i ∧ b < j → common (s.drop a) (s.drop b) ≤ m

namespace Seen

variable [DecidableEq α] {s : List α} {i j m : Nat}

theorem start (some : s ≠ []) : Seen s 0 1 0 where
  reached := repeats_zero some
  most a b before seen := by omega

/-- The next pair, with what it has in common. -/
theorem next (seen : Seen s i j m) (before : i < j) (inside : j < s.length) :
    Seen s i (j + 1) (max m (common (s.drop i) (s.drop j))) where
  reached := by
    rcases Nat.le_total m (common (s.drop i) (s.drop j)) with less | more
    · rw [Nat.max_eq_right less]
      exact repeats_common before inside
    · rw [Nat.max_eq_left more]
      exact seen.reached
  most a b ordered place := by
    by_cases this : a = i ∧ b = j
    · obtain ⟨rfl, rfl⟩ := this
      exact Nat.le_max_right _ _
    · exact Nat.le_trans (seen.most a b ordered (by omega)) (Nat.le_max_left _ _)

/-- What is not looked at is too short. -/
theorem skip (seen : Seen s i j m) (far : s.length - m ≤ j) : Seen s (i + 1) (i + 2) m where
  reached := seen.reached
  most a b ordered place := by
    by_cases earlier : a < i ∨ a = i ∧ b < j
    · exact seen.most a b ordered earlier
    · have short := common_le_right (s.drop a) (s.drop b)
      rw [List.length_drop] at short
      omega

/-- The loops are over. -/
theorem longest (seen : Seen s i j m) (far : s.length - m ≤ i) : LongestRepeat s m where
  reached := .inl seen.reached
  most k repeats := by
    obtain ⟨t, a, b, ordered, ⟨-, first⟩, ⟨-, second⟩, rfl⟩ := repeats.ordered
    have le := le_common first second
    by_cases earlier : a < i
    · exact Nat.le_trans le (seen.most a b ordered (.inl earlier))
    · have short := common_le_right (s.drop a) (s.drop b)
      rw [List.length_drop] at short
      omega

end Seen

end Words

/-! ## The loops -/

theorem ok_bind {A B : Type} (a : A) (f : A → Except Fault B) : (Except.ok a >>= f) = f a := rfl

theorem dataAt_eq {s : Text} {i : Nat} (inside : i < s.length) : dataAt s i = .ok s[i] := by
  rw [dataAt, List.getElem?_eq_getElem inside]

theorem minus_eq {n m : Nat} (le : m ≤ n) : minus n m = .ok (n - m) := if_pos le

theorem asInt_eq {n : Nat} (fits : n < 2 ^ 31) : asInt n = .ok n := if_pos fits

theorem common_drop {s : Text} {i j : Nat} (ordered : i < j) (inside : j < s.length) :
    common (s.drop i) (s.drop j) =
      if s[i] = s[j] then common (s.drop (i + 1)) (s.drop (j + 1)) + 1 else 0 := by
  rw [List.drop_eq_getElem_cons (Nat.lt_trans ordered inside), List.drop_eq_getElem_cons inside,
    common]

/-- The loop over `k` counts what the positions have in common behind `k`. -/
theorem matchLoop_eq {s : Text} {i j : Nat} (ordered : i < j) (left k : Nat)
    (inside : j + k + left = s.length) :
    matchLoop s i j left k = .ok (k + common (s.drop (i + k)) (s.drop (j + k))) := by
  induction left generalizing k with
  | zero =>
      have none : s.drop (j + k) = [] := List.drop_eq_nil_of_le (by omega)
      have short := common_le_right (s.drop (i + k)) (s.drop (j + k))
      rw [none] at short ⊢
      rw [matchLoop, Nat.le_zero.1 short]
      rfl
  | succ left ih =>
      have first := dataAt_eq (s := s) (i := i + k) (by omega)
      have second := dataAt_eq (s := s) (i := j + k) (by omega)
      rw [matchLoop, first, ok_bind, second, ok_bind, common_drop (by omega) (by omega)]
      split
      · rw [ih (k + 1) (by omega)]
        congr 1
        rw [Nat.add_assoc i k 1, Nat.add_assoc j k 1]
        omega
      · rfl

/-- The loop over `j` sees all the pairs of `i`. -/
theorem jLoop_seen {s : Text} {i : Nat} (fits : s.length < 2 ^ 31) (fuel j m : Nat)
    (seen : Seen s i j m) (before : i < j) (enough : s.length < j + fuel) (some : 0 < fuel) :
    ∃ longer, jLoop s i fuel j m = .ok longer ∧ Seen s (i + 1) (i + 2) longer := by
  induction fuel generalizing j m with
  | zero => exact absurd some (Nat.lt_irrefl 0)
  | succ fuel ih =>
      have short := seen.reached.le
      rw [jLoop, minus_eq short, ok_bind]
      split
      · next inBounds =>
          have inside : j < s.length := by omega
          have next := seen.next before inside
          have pair := common_drop before inside
          rw [dataAt_eq (Nat.lt_trans before inside), ok_bind, dataAt_eq inside, ok_bind]
          split
          · next different =>
              rw [pair, if_neg different, Nat.max_zero] at next
              exact ih (j + 1) m next (by omega) (by omega) (by omega)
          · next same =>
              rw [pair, if_pos (not_not.1 same)] at next
              rw [minus_eq (Nat.le_of_lt inside), ok_bind, asInt_eq (by omega), ok_bind,
                matchLoop_eq before _ _ (by omega), ok_bind]
              have greater (k : Nat) : (if m < 1 + k then 1 + k else m) = max m (k + 1) := by
                split <;> omega
              rw [greater]
              exact ih (j + 1) _ next (by omega) (by omega) (by omega)
      · next far =>
          exact ⟨m, rfl, seen.skip (by omega)⟩

/-- The loop over `i` sees them all. -/
theorem iLoop_longest {s : Text} (fits : s.length < 2 ^ 31) (fuel i m : Nat)
    (seen : Seen s i (i + 1) m) (enough : s.length < i + fuel) (some : 0 < fuel) :
    ∃ longest, iLoop s fuel i m = .ok longest ∧ LongestRepeat s longest := by
  induction fuel generalizing i m with
  | zero => exact absurd some (Nat.lt_irrefl 0)
  | succ fuel ih =>
      rw [iLoop, minus_eq seen.reached.le, ok_bind]
      split
      · obtain ⟨longer, loops, next⟩ :=
          jLoop_seen fits (s.length + 1) (i + 1) m seen (by omega) (by omega) (by omega)
        rw [loops, ok_bind]
        exact ih (i + 1) longer next (by omega) (by omega)
      · next far =>
          exact ⟨m, rfl, seen.longest (by omega)⟩

/-- A text of one character repeats the empty word only. -/
theorem longestRepeat_short {s : Text} (short : s.length < 2) : LongestRepeat s 0 where
  reached := by
    by_cases none : s = []
    · exact .inr ⟨none, rfl⟩
    · exact .inl (repeats_zero none)
  most k repeats := by
    obtain ⟨t, i, j, ordered, -, ⟨inside, second⟩, rfl⟩ := repeats.ordered
    have le := second.length_le
    rw [List.length_drop] at le
    omega

/-- **`max_rep_len`** gives the length of the longest repeat of every text: no character behind
the end is read, no difference wraps, and no pair of positions that counts is passed over. -/
theorem maxRepLen_longest (s : StdString) :
    ∃ n, maxRepLen s = .ok n ∧ LongestRepeat s.text n := by
  unfold maxRepLen
  split
  · next short => exact ⟨0, rfl, longestRepeat_short short⟩
  · next long =>
      have some : s.text ≠ [] := by
        intro none
        rw [none] at long
        exact long (by decide)
      exact iLoop_longest s.fits _ 0 0 (Seen.start some) (by omega) (by omega)

/-- Repeats that overlap. -/
example : maxRepLen ⟨[0x61, 0x61, 0x61, 0x61], by decide⟩ = .ok 3 := rfl

end Refsapi.Nicks
