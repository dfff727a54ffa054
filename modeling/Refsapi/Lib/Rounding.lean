/-
# Lib.Rounding -- rounding and the integer part of a number

A format rounds a number to a multiple of a unit that is the larger, the larger the number is.
Up to a unit of 1 the integers are among the multiples, and the integer part is lost exactly when
the number is rounded up to the next integer.  Where the unit is above 1 the integer part has to
be a multiple itself (`floor_nearest`).
-/
import Refsapi.Lib.Binary

set_option autoImplicit false

variable {q : ℚ}

/-! ## Ties -/

/-- A number is rounded below an integer if it is more than a half below it, or just a half and
the integer is odd. -/
theorem halfEven_lt_iff (n : Int) (q : ℚ) :
    halfEven q < n ↔ q < n - 1 / 2 ∨ q = n - 1 / 2 ∧ n % 2 = 1 := by
  have low : (q.floor : ℚ) ≤ q := Rat.floor_le q
  have high : q < q.floor + 1 := by exact_mod_cast Rat.lt_floor_add_one q
  rcases lt_trichotomy q.floor (n - 1) with far | next | above
  · have far' : (q.floor : ℚ) + 1 ≤ n - 1 := by exact_mod_cast (by omega : q.floor + 1 ≤ n - 1)
    refine iff_of_true ?_ (.inl (by linarith))
    unfold halfEven
    simp only
    split_ifs <;> omega
  · have next' : (q.floor : ℚ) = n - 1 := by rw [next]; push_cast; rfl
    unfold halfEven
    simp only [next']
    split
    · next below => exact iff_of_true (by omega) (.inl (by linarith))
    split
    · next beyond =>
        refine iff_of_false (by omega) ?_
        rintro (below | ⟨same, -⟩) <;> linarith
    · next below beyond =>
        have same : q = n - 1 / 2 := by linarith
        have odd : q.floor % 2 = 0 ↔ n % 2 = 1 := by omega
        rw [same]
        simp only [lt_self_iff_false, false_or, true_and]
        rw [same] at odd
        rw [← odd]
        split
        · next even => exact iff_of_true (by rw [same] at next; omega) even
        · next notEven => exact iff_of_false (by rw [same] at next; omega) notEven
  · have above' : (n : ℚ) ≤ q.floor := by exact_mod_cast (by omega : n ≤ q.floor)
    refine iff_of_false (not_lt.2 (le_halfEven (above'.trans low))) ?_
    rintro (below | ⟨same, -⟩) <;> linarith

/-! ## What a format rounds to -/

namespace Format

/-- What a number is rounded to a multiple of. -/
def unit (format : Format) (q : ℚ) : ℚ :=
  twoPow (max (exponent q - (format.digits - 1)) format.least)

/-- What a number is rounded to, if that is not too large. -/
def nearest (format : Format) (q : ℚ) : ℚ := halfEven (q / format.unit q) * format.unit q

/-- Rounding keeps the integer part: it is a multiple of a unit above 1; and else the number is
more than half a unit below the next integer, or just a half and the integer part is even. -/
def KeepsFloor (format : Format) (q : ℚ) : Prop :=
  if format.unit q ≤ 1 then
    q + format.unit q / 2 < q.floor + 1 ∨
      (format.unit q = 1 ∧ q + 1 / 2 = q.floor + 1 ∧ q.floor % 2 = 0)
  else ∃ n : Int, (q.floor : ℚ) = n * format.unit q

end Format

theorem Fp.round_eq (format : Format) (negative : Bool) (q : ℚ) :
    Fp.round format negative q =
      if twoPow format.top ≤ format.nearest q then inf negative
      else fin negative (format.nearest q) := by
  unfold Fp.round
  split
  · next zero =>
      have nearest : format.nearest q = 0 := by
        rw [Format.nearest, zero, zero_div, show halfEven 0 = 0 by decide +kernel]
        simp
      rw [nearest, if_neg (not_le.2 (twoPow_pos _))]
  · rfl

theorem Format.unit_pos (format : Format) (q : ℚ) : 0 < format.unit q := twoPow_pos _

theorem nearest_nonneg (format : Format) (nonneg : 0 ≤ q) : 0 ≤ format.nearest q := by
  refine mul_nonneg (Int.cast_nonneg (le_halfEven (n := 0) ?_)) (format.unit_pos q).le
  push_cast
  exact div_nonneg nonneg (format.unit_pos q).le

/-- A power of two above the unit stays below what is not below it. -/
theorem le_nearest (format : Format) {k : Int} (digits : 1 ≤ format.digits)
    (least : format.least ≤ k) (above : twoPow k ≤ q) : twoPow k ≤ format.nearest q := by
  have positive : 0 < q := (twoPow_pos k).trans_le above
  have k_lt : k < exponent q + 1 := lt_of_twoPow_lt (above.trans_lt (lt_twoPow_exponent positive))
  obtain ⟨j, isJ⟩ := Int.le.dest
    (show max (exponent q - (format.digits - 1 : Int)) format.least ≤ exponent q by omega)
  have power : twoPow (exponent q) = ((2 ^ j : Int) : ℚ) * format.unit q := by
    rw [← isJ, add_comm, twoPow_add]
    simp [twoPow, Format.unit]
  refine (twoPow_mono (show k ≤ exponent q by omega)).trans ?_
  rw [power, Format.nearest]
  refine mul_le_mul_of_nonneg_right (Int.cast_le.2 (le_halfEven ?_)) (format.unit_pos q).le
  rw [le_div_iff₀ (format.unit_pos q)]
  exact power.symm.le.trans (twoPow_exponent_le positive)

/-! ## The integer part -/

theorem floor_eq_iff {n : Int} : q.floor = n ↔ (n : ℚ) ≤ q ∧ q < n + 1 := by
  rw [show q.floor = n ↔ n ≤ q.floor ∧ q.floor < n + 1 by omega, Rat.le_floor_iff,
    Rat.floor_lt_iff]
  push_cast
  rfl

/-- A unit that is not above 1 is the inverse of a power of two. -/
theorem exists_inverse_unit {format : Format} (fine : format.unit q ≤ 1) :
    ∃ d : ℕ, ((2 ^ d : Int) : ℚ) * format.unit q = 1 := by
  have small : max (exponent q - (format.digits - 1 : Int)) format.least ≤ 0 := by
    by_contra large
    have above := twoPow_strictMono (not_le.1 large)
    rw [show twoPow 0 = 1 by norm_num [twoPow]] at above
    exact absurd fine (not_le.2 above)
  obtain ⟨d, isD⟩ := Int.le.dest small
  refine ⟨d, ?_⟩
  have whole := twoPow_add d (max (exponent q - (format.digits - 1 : Int)) format.least)
  rw [add_comm, isD] at whole
  rw [Format.unit, show ((2 ^ d : Int) : ℚ) = twoPow d by simp [twoPow], ← whole]
  norm_num [twoPow]

/-- A unit above 1 is a power of two, and a half of it is an integer. -/
theorem exists_unit {format : Format} (coarse : 1 < format.unit q) :
    2 ≤ format.unit q ∧ ∃ u : Int, format.unit q = u := by
  have large : 0 < max (exponent q - (format.digits - 1 : Int)) format.least := by
    refine lt_of_twoPow_lt ?_
    rw [show twoPow 0 = 1 by norm_num [twoPow]]
    exact coarse
  obtain ⟨k, isK⟩ := Int.le.dest (Int.add_one_le_of_lt large)
  rw [zero_add] at isK
  have isUnit : format.unit q = 2 * ((2 ^ k : Int) : ℚ) := by
    rw [Format.unit, ← isK, twoPow_add]
    simp [twoPow]
  refine ⟨?_, 2 * 2 ^ k, by rw [isUnit]; push_cast; rfl⟩
  have one_le : (1 : ℚ) ≤ ((2 ^ k : Int) : ℚ) := by
    exact_mod_cast one_le_pow₀ (show (1 : Int) ≤ 2 by decide)
  linarith

/-- Up to a unit of 1 the integer part is lost to the next integer. -/
theorem floor_nearest_fine {format : Format} (fine : format.unit q ≤ 1) :
    (format.nearest q).floor = q.floor ↔
      q + format.unit q / 2 < q.floor + 1 ∨
        (format.unit q = 1 ∧ q + 1 / 2 = q.floor + 1 ∧ q.floor % 2 = 0) := by
  have positive := format.unit_pos q
  obtain ⟨d, isUnit⟩ := exists_inverse_unit fine
  have integer (n : Int) : (n : ℚ) = ((n * 2 ^ d : Int) : ℚ) * format.unit q := by
    push_cast
    push_cast at isUnit
    rw [mul_assoc, isUnit, mul_one]
  have above : (q.floor : ℚ) ≤ format.nearest q := by
    rw [integer q.floor, Format.nearest]
    refine mul_le_mul_of_nonneg_right (Int.cast_le.2 (le_halfEven ?_)) positive.le
    rw [le_div_iff₀ positive, ← integer]
    exact Rat.floor_le q
  have next := integer (q.floor + 1)
  have below : format.nearest q < q.floor + 1 ↔
      halfEven (q / format.unit q) < (q.floor + 1) * 2 ^ d := by
    rw [show (q.floor : ℚ) + 1 = ((q.floor + 1 : Int) : ℚ) by push_cast; rfl, next, Format.nearest,
      mul_lt_mul_iff_left₀ positive, Int.cast_lt]
  have tie : ((((q.floor + 1) * 2 ^ d : Int) : ℚ) - 1 / 2) * format.unit q =
      q.floor + 1 - format.unit q / 2 := by
    rw [sub_mul, ← next]
    push_cast
    ring
  rw [floor_eq_iff, and_iff_right above, below, halfEven_lt_iff, div_lt_iff₀ positive,
    div_eq_iff positive.ne', tie]
  refine or_congr ⟨fun lt => by linarith, fun lt => by linarith⟩ ?_
  cases d with
  | zero =>
      have one : format.unit q = 1 := by simpa using isUnit
      rw [one, pow_zero, mul_one, and_iff_right rfl]
      refine and_congr ⟨fun same => by linarith, fun same => by linarith⟩ ?_
      omega
  | succ d =>
      refine iff_of_false (fun ⟨_, odd⟩ => ?_) (fun ⟨one, _⟩ => ?_)
      · rw [pow_succ, ← mul_assoc] at odd
        omega
      · rw [one, mul_one, pow_succ] at isUnit
        have isUnit : (2 ^ d * 2 : Int) = 1 := by exact_mod_cast isUnit
        omega

/-- Above a unit of 1 the integer part is a multiple of the unit, or it is lost. -/
theorem floor_nearest_coarse {format : Format} (coarse : 1 < format.unit q) :
    (format.nearest q).floor = q.floor ↔ ∃ n : Int, (q.floor : ℚ) = n * format.unit q := by
  have positive := format.unit_pos q
  obtain ⟨two_le, u, isU⟩ := exists_unit coarse
  have integer (n : Int) : (n : ℚ) * format.unit q = ((n * u : Int) : ℚ) := by
    rw [isU]
    push_cast
    rfl
  constructor
  · intro same
    refine ⟨halfEven (q / format.unit q), ?_⟩
    rw [← same, Format.nearest, integer, Rat.floor_intCast]
  · rintro ⟨n, isMultiple⟩
    have low : (q.floor : ℚ) ≤ q := Rat.floor_le q
    have high : q < q.floor + 1 := by exact_mod_cast Rat.lt_floor_add_one q
    have rounded : halfEven (q / format.unit q) = n := by
      have above : n ≤ halfEven (q / format.unit q) := by
        refine le_halfEven ?_
        rw [le_div_iff₀ positive, ← isMultiple]
        exact low
      have below : halfEven (q / format.unit q) < n + 1 := by
        rw [halfEven_lt_iff, div_lt_iff₀ positive]
        refine .inl ?_
        push_cast
        have split : ((n : ℚ) + 1 - 1 / 2) * format.unit q =
            n * format.unit q + format.unit q / 2 := by
          ring
        rw [split, ← isMultiple]
        linarith
      omega
    rw [Format.nearest, rounded, ← isMultiple, Rat.floor_intCast]

/-- **Rounding and the integer part.** -/
theorem floor_nearest (format : Format) (q : ℚ) :
    (format.nearest q).floor = q.floor ↔ format.KeepsFloor q := by
  unfold Format.KeepsFloor
  by_cases fine : format.unit q ≤ 1
  · rw [if_pos fine]
    exact floor_nearest_fine fine
  · rw [if_neg fine]
    exact floor_nearest_coarse (not_le.1 fine)

/-! ## What a `float` is cut to -/

namespace Fp

variable {a : Bool}

/-- What is cut to an `int`: the least one is as well what stands for the rest. -/
theorem toInt32_fin (nonneg : 0 ≤ q) :
    (fin a q).toInt32 = if q < 2 ^ 31 then (fin a q).trunc else -2 ^ 31 := by
  have low : 0 ≤ q.floor := Rat.le_floor_iff.2 (by simpa using nonneg)
  have floor : q < 2 ^ 31 ↔ q.floor < 2 ^ 31 := by
    rw [Rat.floor_lt_iff]
    norm_num
  simp only [toInt32, trunc, floor]
  cases a with
  | false =>
      simp only [Bool.false_eq_true, if_false]
      split_ifs <;> omega
  | true =>
      simp only [if_true]
      split_ifs <;> omega

/-- A number that no `int` holds. -/
theorem single_large (large : 2 ^ 31 ≤ q) : (single (.fin a q)).toInt32 = -2 ^ 31 := by
  have power : twoPow 31 = 2 ^ 31 := by norm_num [twoPow]
  have above : 2 ^ 31 ≤ binary32.nearest q := by
    rw [← power]
    exact le_nearest binary32 (by decide) (by decide) (power ▸ large)
  rw [single, round_eq]
  split
  · rfl
  · rw [toInt32_fin ((by norm_num : (0 : ℚ) ≤ 2 ^ 31).trans above), if_neg (not_lt.2 above)]

/-- A number below `2 ^ 31` is not rounded above it. -/
theorem single_small (nonneg : 0 ≤ q) (small : q < 2 ^ 31) :
    single (.fin a q) = .fin a (binary32.nearest q) ∧ binary32.nearest q ≤ 2 ^ 31 := by
  have power : twoPow 31 = 2 ^ 31 := by norm_num [twoPow]
  obtain ⟨nearest, rounded, -, high, -⟩ := round_below binary32 (e := 31) a
    (by decide) (by decide) (by decide) nonneg (by rw [power]; exact small)
  have isRounded := round_eq binary32 a q
  rw [rounded] at isRounded
  split at isRounded
  · cases isRounded
  · cases isRounded
    exact ⟨rounded, power ▸ high⟩

/-- **The `float` of a number, and the number, cut to an `int`.**  They are the same if and only
if no `int` holds the number or rounding keeps its integer part. -/
theorem toInt32_single_iff (nonneg : 0 ≤ q) :
    (single (.fin a q)).toInt32 = (fin a q).toInt32 ↔ 2 ^ 31 ≤ q ∨ binary32.KeepsFloor q := by
  rw [toInt32_fin nonneg]
  by_cases small : q < 2 ^ 31
  swap
  · rw [if_neg small, single_large (not_lt.1 small)]
    exact iff_of_true rfl (.inl (not_lt.1 small))
  obtain ⟨isSingle, high⟩ := single_small (a := a) nonneg small
  have above := nearest_nonneg binary32 nonneg
  have floor_lt : q.floor < 2 ^ 31 := Rat.floor_lt_iff.2 (by push_cast; exact small)
  have floor_nonneg : 0 ≤ q.floor := Rat.le_floor_iff.2 (by simpa using nonneg)
  rw [isSingle, toInt32_fin above, if_pos small, or_iff_right (not_le.2 small), ← floor_nearest]
  split
  · simp only [trunc]
    cases a with
    | false => simp only [Bool.false_eq_true, if_false]
    | true => simp only [if_true, neg_inj]
  · next large =>
      have top : (binary32.nearest q).floor = 2 ^ 31 := by
        rw [le_antisymm high (not_lt.1 large)]
        exact Rat.floor_intCast (2 ^ 31)
      simp only [trunc]
      rw [top]
      cases a with
      | false =>
          simp only [Bool.false_eq_true, if_false]
          omega
      | true =>
          simp only [if_true]
          omega

/-- The `float` of a number is cut to zero up to half a unit below 1. -/
theorem toInt32_single_eq_zero (nonneg : 0 ≤ q) :
    (single (.fin a q)).toInt32 = 0 ↔ q < 1 - 1 / 2 ^ 25 := by
  have one : twoPow 0 = 1 := by norm_num [twoPow]
  by_cases huge : 2 ^ 31 ≤ q
  · rw [single_large huge]
    exact iff_of_false (by decide) (not_lt.2 (le_trans (by norm_num) huge))
  obtain ⟨isSingle, high⟩ := single_small (a := a) nonneg (not_le.1 huge)
  have above := nearest_nonneg binary32 nonneg
  have zero : (single (.fin a q)).toInt32 = 0 ↔ binary32.nearest q < 1 := by
    rw [isSingle, toInt32_fin above]
    have floor : (binary32.nearest q).floor = 0 ↔ binary32.nearest q < 1 := by
      rw [floor_eq_iff, Int.cast_zero, zero_add]
      exact and_iff_right above
    split
    · rw [← floor]
      simp only [trunc]
      cases a with
      | false => simp only [Bool.false_eq_true, if_false]
      | true => simp only [if_true, neg_eq_zero]
    · next large => exact iff_of_false (by decide) (fun lt => large (lt.trans (by norm_num)))
  rw [zero]
  by_cases below : q < 1
  · obtain ⟨nearest, rounded, -, -, up⟩ := round_below binary32 (e := 0) a
      (by decide) (by decide) (by decide) nonneg (by rw [one]; exact below)
    have half : twoPow (0 - (binary32.digits : Int) - 1) = 1 / 2 ^ 25 := by
      rw [twoPow_eq_zpow]
      norm_num [binary32]
    have same : nearest = binary32.nearest q := by
      rw [single, rounded] at isSingle
      exact (Fp.fin.inj isSingle).2
    rw [one, half, same] at up
    exact up
  · have atLeast : 1 ≤ binary32.nearest q := by
      rw [← one]
      exact le_nearest binary32 (by decide) (by decide) (one ▸ not_lt.1 below)
    exact iff_of_false (not_lt.2 atLeast) (fun lt => below (lt.trans (by norm_num)))

end Fp

example : binary32.nearest 16777217 = 16777216 := by decide +kernel
