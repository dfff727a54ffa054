/-
# Misc.Clock -- `timespec_diff`

The time between two readings of the monotonic clock, in the arithmetic of `double`.
The compiler may carry more digits than a `double` has, and the results hold of every
such format.
-/
import Mathlib.Tactic.NormNum
import Refsapi.Lib.Binary

namespace Refsapi

set_option autoImplicit false

/-- `timespec`, of 32 bits: a reading of the monotonic clock. -/
structure Timespec where
  sec : Fin (2 ^ 31)
  nsec : Fin 1000000000
  deriving DecidableEq

/-- In nanoseconds. -/
def Timespec.ns (t : Timespec) : Int := t.sec * 1000000000 + t.nsec

/-- A format that a `double` can be computed in. -/
structure DoubleFormat extends Format where
  precise : 53 ≤ digits
  small : least ≤ -1074
  large : 1024 ≤ top

/-- With SSE2. -/
def DoubleFormat.sse : DoubleFormat := ⟨binary64, by decide, by decide, by decide⟩

/-- In the registers of the x87. -/
def DoubleFormat.x87 : DoubleFormat := ⟨⟨64, -16445, 16384⟩, by decide, by decide, by decide⟩

/-- `timespec_diff`. -/
def timespecDiff (format : DoubleFormat) (start finish : Timespec) : Fp :=
  let seconds : Int := finish.sec - start.sec
  let nanoseconds : Int := finish.nsec - start.nsec
  let (seconds, nanoseconds) :=
    if nanoseconds < 0 then (seconds - 1, nanoseconds + 1000000000) else (seconds, nanoseconds)
  (Fp.ofInt seconds).add format.toFormat
    ((Fp.ofInt nanoseconds).scale format.toFormat (1 / 1000000000))

/-- `(int)(timespec_diff(&start, &now) * 1000)`. -/
def elapsedMs (format : DoubleFormat) (start now : Timespec) : Int :=
  ((timespecDiff format start now).scale format.toFormat 1000).toInt32

/-- The whole milliseconds between two readings. -/
def wholeMs (start now : Timespec) : Int := (now.ns - start.ns) / 1000000

variable {format : DoubleFormat} {start now : Timespec}

/-- What the borrow makes of the difference. -/
theorem exists_parts (format : DoubleFormat) (forward : start.ns ≤ now.ns) :
    ∃ seconds nanoseconds : Nat,
    nanoseconds < 1000000000 ∧ (now.ns - start.ns : Int) = seconds * 1000000000 + nanoseconds ∧
    timespecDiff format start now = (Fp.ofInt seconds).add format.toFormat
      ((Fp.ofInt nanoseconds).scale format.toFormat (1 / 1000000000)) := by
  have startNsec := start.nsec.isLt
  have nowNsec := now.nsec.isLt
  unfold Timespec.ns at forward ⊢
  by_cases borrow : (now.nsec : Int) - start.nsec < 0
  · refine ⟨(now.sec - start.sec - 1 : Int).toNat, (now.nsec - start.nsec + 1000000000 : Int).toNat,
      by omega, by omega, ?_⟩
    simp only [timespecDiff, if_pos borrow]
    rw [Int.toNat_of_nonneg (by omega), Int.toNat_of_nonneg (by omega)]
  · refine ⟨(now.sec - start.sec : Int).toNat, (now.nsec - start.nsec : Int).toNat,
      by omega, by omega, ?_⟩
    simp only [timespecDiff, if_neg borrow]
    rw [Int.toNat_of_nonneg (by omega), Int.toNat_of_nonneg (by omega)]

/-- One operation of the processor: the exact result is hardly exceeded. -/
theorem round_step (format : DoubleFormat) (exact : ℚ) (normal : exact = 0 ∨ 1 / 2 ^ 40 ≤ exact)
    (small : exact < 2 ^ 64) :
    ∃ result, Fp.round format.toFormat false exact = .fin false result ∧ exact / 2 ≤ result ∧
      result ≤ exact * (1 + 1 / 2 ^ 52) := by
  refine round_hardly_above false format.precise (normal.imp_right fun le => ?_) ?_
  · have least : twoPow (format.least + 52) ≤ twoPow (-40) :=
      twoPow_mono (by have := format.small; omega)
    refine least.trans (le_trans (le_of_eq ?_) le)
    rw [twoPow_eq_zpow]
    norm_num
  · have top : twoPow 65 ≤ twoPow format.top := twoPow_mono (by have := format.large; omega)
    refine lt_of_lt_of_le ?_ top
    rw [twoPow_eq_zpow]
    norm_num at small ⊢
    linarith

theorem ofInt_natCast (n : Nat) : Fp.ofInt n = .fin false n := by
  simp [Fp.ofInt]

theorem add_positive (format : Format) {p q : ℚ} (first : 0 ≤ p) (second : 0 ≤ q) :
    (Fp.fin false p).add format (.fin false q) = .round format false (p + q) := by
  simp only [Fp.add, Fp.value, Bool.false_eq_true, if_false, Bool.and_self]
  split
  · next zero =>
      rw [zero]
      simp [Fp.round]
  · rw [Fp.ofRat, abs_of_nonneg (by positivity), decide_eq_false (by simp; positivity)]

/-- The elapsed milliseconds before the conversion are hardly more than have passed. -/
theorem exists_elapsed (format : DoubleFormat) (forward : start.ns ≤ now.ns) :
    ∃ magnitude : ℚ, 0 ≤ magnitude ∧
      magnitude ≤ ((now.ns - start.ns : Int) : ℚ) / 1000000 * (1 + 1 / 2 ^ 52) ^ 3 ∧
      elapsedMs format start now = (Fp.fin false magnitude).toInt32 := by
  obtain ⟨seconds, nanoseconds, small, total, parts⟩ := exists_parts format forward
  have few : seconds < 2 ^ 31 := by
    have := now.sec.isLt
    have := now.nsec.isLt
    unfold Timespec.ns at total
    omega
  have few' : (seconds : ℚ) < 2 ^ 31 := by exact_mod_cast few
  have small' : (nanoseconds : ℚ) < 1000000000 := by exact_mod_cast small
  have sign : (0 : ℚ) ≤ seconds := by positivity
  have grain : (nanoseconds : ℚ) = 0 ∨ 1 ≤ (nanoseconds : ℚ) := by
    rcases Nat.eq_zero_or_pos nanoseconds with zero | some
    · exact .inl (by rw [zero, Nat.cast_zero])
    · exact .inr (by exact_mod_cast some)
  have whole : (seconds : ℚ) = 0 ∨ 1 ≤ (seconds : ℚ) := by
    rcases Nat.eq_zero_or_pos seconds with zero | some
    · exact .inl (by rw [zero, Nat.cast_zero])
    · exact .inr (by exact_mod_cast some)
  obtain ⟨part, isPart, partLow, partHigh⟩ := round_step format
    (1 / 1000000000 * nanoseconds)
    (grain.imp (fun zero => by rw [zero, mul_zero]) fun some => by norm_num; linarith)
    (by norm_num; linarith)
  have partSign : 0 ≤ part := by linarith [(by positivity : (0 : ℚ) ≤ nanoseconds)]
  obtain ⟨sum, isSum, sumLow, sumHigh⟩ := round_step format (seconds + part)
    (by
      rcases whole with zero | some
      · rcases grain with zero' | some'
        · refine .inl ?_
          rw [zero'] at partHigh
          linarith
        · exact .inr (by norm_num; linarith)
      · exact .inr (by norm_num; linarith))
    (by norm_num at partHigh ⊢; linarith)
  obtain ⟨ms, isMs, msLow, msHigh⟩ := round_step format (1000 * sum)
    (by
      rcases whole with zero | some
      · rcases grain with zero' | some'
        · refine .inl ?_
          rw [zero'] at partHigh
          linarith
        · exact .inr (by norm_num; linarith)
      · exact .inr (by norm_num; linarith))
    (by norm_num at partHigh sumHigh ⊢; linarith)
  refine ⟨ms, by linarith, ?_, ?_⟩
  · have exactly : ((now.ns - start.ns : Int) : ℚ) / 1000000 =
        1000 * (seconds + 1 / 1000000000 * nanoseconds) := by
      rw [total]
      push_cast
      ring
    rw [exactly]
    have one : (1 : ℚ) ≤ 1 + 1 / 2 ^ 52 := by norm_num
    calc ms ≤ 1000 * sum * (1 + 1 / 2 ^ 52) := msHigh
      _ ≤ 1000 * ((seconds + part) * (1 + 1 / 2 ^ 52)) * (1 + 1 / 2 ^ 52) := by gcongr
      _ ≤ 1000 * ((seconds * (1 + 1 / 2 ^ 52) + 1 / 1000000000 * nanoseconds * (1 + 1 / 2 ^ 52)) *
            (1 + 1 / 2 ^ 52)) * (1 + 1 / 2 ^ 52) := by
          gcongr
          exact le_mul_of_one_le_right sign one
      _ = 1000 * (seconds + 1 / 1000000000 * nanoseconds) * (1 + 1 / 2 ^ 52) ^ 3 := by ring
  · rw [elapsedMs, parts, ofInt_natCast, ofInt_natCast, Fp.scale, isPart,
      add_positive _ sign partSign, isSum, Fp.scale, isMs]

/-- The conversion gives a number that is not negative, or the least, and that only where no
`int` holds what has passed. -/
theorem elapsedMs_nonneg_or (format : DoubleFormat) (forward : start.ns ≤ now.ns) :
    0 ≤ elapsedMs format start now ∨
      elapsedMs format start now = -2 ^ 31 ∧ 2 ^ 31 - 1 ≤ wholeMs start now := by
  obtain ⟨ms, sign, high, isMs⟩ := exists_elapsed format forward
  have floor : 0 ≤ ms.floor := Rat.le_floor_iff.2 (by exact_mod_cast sign)
  rw [isMs]
  simp only [Fp.toInt32, Bool.false_eq_true, if_false]
  split
  · exact .inl floor
  · next out =>
      refine .inr ⟨rfl, ?_⟩
      have big : (2 ^ 31 : Int) ≤ ms.floor := by omega
      have big' : (2 ^ 31 : ℚ) ≤ ms := by exact_mod_cast Rat.le_floor_iff.1 big
      by_contra less
      have passed : now.ns - start.ns ≤ (2 ^ 31 - 1) * 1000000 - 1 := by
        unfold wholeMs at less
        omega
      have passed' : ((now.ns - start.ns : Int) : ℚ) ≤ (2 ^ 31 - 1) * 1000000 - 1 := by
        exact_mod_cast passed
      norm_num at high passed' big'
      linarith

/-- The conversion does not go ahead of the clock by more than a millisecond. -/
theorem elapsedMs_le (format : DoubleFormat) (forward : start.ns ≤ now.ns) :
    elapsedMs format start now ≤ wholeMs start now + 1 := by
  obtain ⟨ms, -, high, isMs⟩ := exists_elapsed format forward
  have whole : 0 ≤ wholeMs start now := by
    unfold wholeMs
    omega
  have passed : now.ns - start.ns < (wholeMs start now + 1) * 1000000 := by
    unfold wholeMs
    omega
  have short : wholeMs start now + 1 ≤ 2 ^ 42 := by
    have := now.sec.isLt
    have := now.nsec.isLt
    unfold wholeMs Timespec.ns
    omega
  have passed' : ((now.ns - start.ns : Int) : ℚ) / 1000000 ≤ wholeMs start now + 1 := by
    rw [div_le_iff₀ (by norm_num)]
    exact_mod_cast passed.le
  have short' : (wholeMs start now + 1 : ℚ) ≤ 2 ^ 42 := by exact_mod_cast short
  have less : ms < wholeMs start now + 2 := by
    have scaled := high.trans (mul_le_mul_of_nonneg_right passed' (by norm_num))
    norm_num at scaled short'
    linarith
  have floor : ms.floor < wholeMs start now + 2 :=
    Rat.floor_lt_iff.2 (by push_cast; exact less)
  rw [isMs]
  simp only [Fp.toInt32, Bool.false_eq_true, if_false]
  split <;> omega

end Refsapi
