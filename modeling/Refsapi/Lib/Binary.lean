/-
# Lib.Binary -- binary floating point formats

A format rounds a rational to nearest, to even in a tie; what is too large for it
becomes an infinity.
-/
import Refsapi.Lib.Decimal
import Mathlib.Algebra.Order.Field.Power
import Mathlib.Data.Nat.Log
import Mathlib.Tactic.Linarith

set_option autoImplicit false

/-- A format has `digits` binary digits, `2 ^ least` as its least positive number, and
nothing finite from `2 ^ top` on. -/
structure Format where
  digits : Nat
  least : Int
  top : Nat

def binary32 : Format := ⟨24, -149, 128⟩

def binary64 : Format := ⟨53, -1074, 1024⟩

def twoPow : Int → ℚ
  | .ofNat n => (2 ^ n : Nat)
  | .negSucc n => 1 / (2 ^ (n + 1) : Nat)

/-- The exponent of the highest binary digit of a positive number. -/
def exponent (q : ℚ) : Int :=
  let e : Int := q.num.natAbs.log2 - q.den.log2
  if twoPow e ≤ q then e else e - 1

namespace Fp

/-- The number with a given sign and magnitude, in a format. -/
def round (format : Format) (negative : Bool) (magnitude : ℚ) : Fp :=
  if magnitude = 0 then fin negative 0
  else
    let unit := twoPow (max (exponent magnitude - (format.digits - 1)) format.least)
    let nearest := halfEven (magnitude / unit) * unit
    if twoPow format.top ≤ nearest then inf negative else fin negative nearest

def ofRat (format : Format) (q : ℚ) : Fp := round format (decide (q < 0)) |q|

/-- The rational that a finite number is. -/
def value (negative : Bool) (magnitude : ℚ) : ℚ := if negative then -magnitude else magnitude

/-- `<`, which no NaN satisfies. -/
def lt : Fp → Fp → Bool
  | nan _, _ => false
  | _, nan _ => false
  | inf a, inf b => a && !b
  | inf a, fin _ _ => a
  | fin _ _, inf b => !b
  | fin a p, fin b q => decide (value a p < value b q)

/-- `std::clamp`. -/
def clamp (x low high : Fp) : Fp := if x.lt low then low else if high.lt x then high else x

/-- A product with a positive number. -/
def scale (format : Format) (factor : ℚ) : Fp → Fp
  | nan a => nan a
  | inf a => inf a
  | fin a p => round format a (factor * p)

/-- A sum.  That of opposite infinities is a NaN, and a zero is negative only if both are. -/
def add (format : Format) : Fp → Fp → Fp
  | nan a, _ => nan a
  | _, nan b => nan b
  | inf a, inf b => if a = b then inf a else nan true
  | inf a, fin _ _ => inf a
  | fin _ _, inf b => inf b
  | fin a p, fin b q =>
      if value a p + value b q = 0 then fin (a && b) 0 else ofRat format (value a p + value b q)

def neg : Fp → Fp
  | nan a => nan !a
  | inf a => inf !a
  | fin a p => fin (!a) p

def sub (format : Format) (x y : Fp) : Fp := add format x y.neg

/-- A product.  That of an infinity and zero is a NaN. -/
def mul (format : Format) : Fp → Fp → Fp
  | nan a, _ => nan a
  | _, nan b => nan b
  | inf a, inf b => inf (a != b)
  | inf a, fin b q => if q = 0 then nan true else inf (a != b)
  | fin a p, inf b => if p = 0 then nan true else inf (a != b)
  | fin a p, fin b q => round format (a != b) (p * q)

/-- A quotient.  That of two zeros or two infinities is a NaN. -/
def div (format : Format) : Fp → Fp → Fp
  | nan a, _ => nan a
  | _, nan b => nan b
  | inf _, inf _ => nan true
  | inf a, fin b _ => inf (a != b)
  | fin a _, inf b => fin (a != b) 0
  | fin a p, fin b q =>
      if q = 0 then if p = 0 then nan true else inf (a != b)
      else round format (a != b) (p / q)

/-- `std::round` and the conversion to `int64_t`, which gives the least of them for a
number that has no other. -/
def roundInt64 : Fp → Int
  | fin negative magnitude =>
      let n := (magnitude + 1 / 2).floor
      let n := if negative then -n else n
      if -2 ^ 63 ≤ n ∧ n < 2 ^ 63 then n else -2 ^ 63
  | _ => -2 ^ 63

/-- `<=`. -/
def le : Fp → Fp → Bool
  | nan _, _ => false
  | _, nan _ => false
  | x, y => !y.lt x

/-- `==`, which no NaN satisfies. -/
def equal (x y : Fp) : Bool := x.le y && y.le x

def ofInt (n : Int) : Fp := fin (decide (n < 0)) n.natAbs

/-- The conversion to `int`, which gives the least of them for a number that has no other. -/
def toInt32 : Fp → Int
  | fin negative magnitude =>
      let n := if negative then -magnitude.floor else magnitude.floor
      if -2 ^ 31 ≤ n ∧ n < 2 ^ 31 then n else -2 ^ 31
  | _ => -2 ^ 31

/-- The integer that a number is cut to. -/
def trunc : Fp → Int
  | fin negative magnitude => if negative then -magnitude.floor else magnitude.floor
  | _ => 0

/-- The conversion to `int` is defined: an `int` is what the number is cut to. -/
def FitsInt32 : Fp → Prop
  | fin negative magnitude =>
      -2 ^ 31 ≤ (fin negative magnitude).trunc ∧ (fin negative magnitude).trunc < 2 ^ 31
  | _ => False

instance : (x : Fp) → Decidable x.FitsInt32
  | fin _ _ => inferInstanceAs (Decidable (_ ∧ _))
  | nan _ => inferInstanceAs (Decidable False)
  | inf _ => inferInstanceAs (Decidable False)

/-- The conversion to the format `binary32`. -/
def single : Fp → Fp
  | fin negative magnitude => round binary32 negative magnitude
  | x => x

/-- The encoding of a number of the format `binary32`. -/
def bits : Fp → BitVec 32
  | nan a => signBit a ||| 0x7FC00000#32
  | inf a => signBit a ||| 0x7F800000#32
  | fin a p =>
      let e := max (exponent p) (-126)
      let significand := (p / twoPow (e - 23)).floor.toNat
      -- The highest digit is not stored, and a number without it has the exponent zero.
      signBit a ||| .ofNat 32 (if significand < 2 ^ 23 then significand
        else (e + 126).toNat * 2 ^ 23 + significand)
where
  signBit (negative : Bool) : BitVec 32 := if negative then 0x80000000#32 else 0

/-- The number of the format `binary32` that has the encoding. -/
def ofBits (x : BitVec 32) : Fp :=
  let e : Nat := x.toNat / 2 ^ 23 % 2 ^ 8
  let significand : Nat := x.toNat % 2 ^ 23
  if e = 255 then if significand = 0 then inf x.msb else nan x.msb
  else if e = 0 then fin x.msb ((significand : ℚ) * twoPow (-149))
  else fin x.msb (((2 ^ 23 + significand : Nat) : ℚ) * twoPow ((e : Int) - 150))

end Fp

/-! ## Comparisons -/

namespace Fp

/-- What is not below a number is not below what that is not below. -/
theorem le_value {a : Bool} {q n : ℚ} {low : Fp} (le : (fin false n).le low = true)
    (notLt : (fin a q).lt low = false) : n ≤ value a q := by
  cases low with
  | nan b => cases le
  | inf b =>
      cases b with
      | true => cases le
      | false => cases notLt
  | fin b p =>
      have above : ¬ value b p < value false n :=
        of_decide_eq_false (by simpa [Fp.le, lt] using le)
      exact (not_lt.1 above).trans (not_lt.1 (of_decide_eq_false notLt))

theorem value_le {a : Bool} {q n : ℚ} {high : Fp} (le : high.le (fin false n) = true)
    (notLt : high.lt (fin a q) = false) : value a q ≤ n := by
  cases high with
  | nan b => cases le
  | inf b =>
      cases b with
      | true => cases notLt
      | false => cases le
  | fin b p =>
      have below : ¬ value false n < value b p :=
        of_decide_eq_false (by simpa [Fp.le, lt] using le)
      exact (not_lt.1 (of_decide_eq_false notLt)).trans (not_lt.1 below)

theorem value_ofInt (n : Int) : value (decide (n < 0)) (n.natAbs : ℚ) = n := by
  unfold value
  split
  · next negative =>
      have : n < 0 := of_decide_eq_true negative
      rw [← Int.cast_natCast, Int.natCast_natAbs, abs_of_neg this]
      push_cast
      ring
  · next positive =>
      have : 0 ≤ n := not_lt.1 fun negative => positive (decide_eq_true negative)
      rw [← Int.cast_natCast, Int.natCast_natAbs, abs_of_nonneg this]

end Fp

/-! ## How far rounding goes -/

theorem twoPow_eq_zpow (e : Int) : twoPow e = (2 : ℚ) ^ e := by
  cases e with
  | ofNat n => simp [twoPow]
  | negSucc n => simp [twoPow, zpow_negSucc]

theorem twoPow_mono {d e : Int} (le : d ≤ e) : twoPow d ≤ twoPow e := by
  rw [twoPow_eq_zpow, twoPow_eq_zpow]
  exact zpow_le_zpow_right₀ (by norm_num) le

theorem twoPow_pos (e : Int) : 0 < twoPow e := by
  rw [twoPow_eq_zpow]
  exact zpow_pos (by norm_num) e

theorem twoPow_add (d e : Int) : twoPow (d + e) = twoPow d * twoPow e := by
  rw [twoPow_eq_zpow, twoPow_eq_zpow, twoPow_eq_zpow, zpow_add₀ (by norm_num)]

theorem twoPow_strictMono {d e : Int} (lt : d < e) : twoPow d < twoPow e := by
  rw [twoPow_eq_zpow, twoPow_eq_zpow]
  exact zpow_lt_zpow_right₀ (by norm_num) lt

theorem lt_of_twoPow_lt {d e : Int} (lt : twoPow d < twoPow e) : d < e := by
  by_contra ge
  exact absurd lt (not_lt.2 (twoPow_mono (not_lt.1 ge)))

/-- The highest binary digit is not above the number. -/
theorem twoPow_exponent_le {q : ℚ} (positive : 0 < q) : twoPow (exponent q) ≤ q := by
  unfold exponent
  simp only
  split
  · next fits => exact fits
  have isNum : 0 < q.num := Rat.num_pos.2 positive
  have num : (2 : ℚ) ^ q.num.natAbs.log2 ≤ q.num := by
    have low := Nat.log2_self_le (Int.natAbs_ne_zero.2 isNum.ne')
    have cast : ((q.num.natAbs : ℕ) : ℚ) = q.num := by
      rw [Nat.cast_natAbs, abs_of_pos isNum]
    rw [← cast]
    exact_mod_cast low
  have den : (q.den : ℚ) ≤ 2 ^ (q.den.log2 + 1) := by
    exact_mod_cast (Nat.lt_log2_self (n := q.den)).le
  have den' : (0 : ℚ) < q.den := by exact_mod_cast q.den_pos
  calc twoPow (q.num.natAbs.log2 - q.den.log2 - 1)
      = (2 : ℚ) ^ q.num.natAbs.log2 / 2 ^ (q.den.log2 + 1) := by
        rw [twoPow_eq_zpow, sub_sub, zpow_sub₀ (by norm_num)]
        norm_cast
    _ ≤ q.num / q.den := by gcongr
    _ = q := Rat.num_div_den q

/-- The number is below twice its highest binary digit. -/
theorem lt_twoPow_exponent {q : ℚ} (positive : 0 < q) : q < twoPow (exponent q + 1) := by
  unfold exponent
  simp only
  split
  · have isNum : 0 < q.num := Rat.num_pos.2 positive
    have num : (q.num : ℚ) < 2 ^ (q.num.natAbs.log2 + 1) := by
      have high := Nat.lt_log2_self (n := q.num.natAbs)
      have cast : ((q.num.natAbs : ℕ) : ℚ) = q.num := by
        rw [Nat.cast_natAbs, abs_of_pos isNum]
      rw [← cast]
      exact_mod_cast high
    have den : (2 : ℚ) ^ q.den.log2 ≤ q.den := by
      exact_mod_cast Nat.log2_self_le q.den_pos.ne'
    have den' : (0 : ℚ) < q.den := by exact_mod_cast q.den_pos
    calc q = q.num / q.den := (Rat.num_div_den q).symm
      _ < 2 ^ (q.num.natAbs.log2 + 1) / q.den := by gcongr
      _ ≤ 2 ^ (q.num.natAbs.log2 + 1) / 2 ^ q.den.log2 := by gcongr
      _ = twoPow (q.num.natAbs.log2 - q.den.log2 + 1) := by
        rw [twoPow_eq_zpow, sub_add_eq_add_sub, zpow_sub₀ (by norm_num)]
        norm_cast
  · next above =>
      rw [sub_add_cancel]
      exact not_le.1 above

theorem halfEven_near (q : ℚ) : |halfEven q - q| ≤ 1 / 2 := by
  have low : (q.floor : ℚ) ≤ q := Rat.floor_le q
  have high : q < q.floor + 1 := by exact_mod_cast Rat.lt_floor_add_one q
  unfold halfEven
  simp only
  rw [abs_le]
  split
  · constructor <;> linarith
  split
  · push_cast
    constructor <;> linarith
  split
  · constructor <;> linarith
  · push_cast
    constructor <;> linarith

/-- Rounding keeps integers apart. -/
theorem le_halfEven {n : Int} {q : ℚ} (le : (n : ℚ) ≤ q) : n ≤ halfEven q := by
  have low : n ≤ q.floor := Rat.le_floor_iff.2 le
  unfold halfEven
  simp only
  split_ifs <;> omega

theorem halfEven_le {n : Int} {q : ℚ} (le : q ≤ n) : halfEven q ≤ n := by
  have high : halfEven q < n + 1 := by
    have near := abs_le.1 (halfEven_near q)
    have : (halfEven q : ℚ) < (n + 1 : Int) := by
      push_cast
      linarith
    exact_mod_cast this
  omega

/-- A tie goes up to an even number. -/
theorem le_halfEven_of_even {n : Int} {q : ℚ} (even : n % 2 = 0) (le : (n : ℚ) - 1 / 2 ≤ q) :
    n ≤ halfEven q := by
  have low : n - 1 ≤ q.floor := Rat.le_floor_iff.2 (by push_cast; linarith)
  rcases eq_or_lt_of_le low with same | above
  · unfold halfEven
    simp only
    have rest : ¬ q - (q.floor : ℚ) < 1 / 2 := by
      rw [← same]
      push_cast
      linarith
    rw [if_neg rest]
    split_ifs <;> omega
  · exact le_halfEven ((Int.cast_le.2 (by omega)).trans (Rat.floor_le q))

/-- A number in the range of a format is rounded to one between a half and three halves of it. -/
theorem round_near {format : Format} {magnitude : ℚ} (negative : Bool) (digits : 1 ≤ format.digits)
    (least : twoPow format.least ≤ magnitude) (top : 3 / 2 * magnitude < twoPow format.top) :
    ∃ nearest, Fp.round format negative magnitude = .fin negative nearest ∧
      magnitude / 2 ≤ nearest ∧ nearest ≤ 3 / 2 * magnitude := by
  have positive : 0 < magnitude := lt_of_lt_of_le (twoPow_pos _) least
  set unit := twoPow (max (exponent magnitude - (format.digits - 1)) format.least) with isUnit
  have unit_pos : 0 < unit := twoPow_pos _
  have unit_le : unit ≤ magnitude := by
    rcases max_choice (exponent magnitude - (format.digits - 1 : Int)) format.least with same | same
    · rw [isUnit, same]
      exact (twoPow_mono (by omega)).trans (twoPow_exponent_le positive)
    · rw [isUnit, same]
      exact least
  have near := abs_le.1 (halfEven_near (magnitude / unit))
  have exact_ : magnitude / unit * unit = magnitude := div_mul_cancel₀ _ unit_pos.ne'
  have low : magnitude / 2 ≤ halfEven (magnitude / unit) * unit := by nlinarith
  have high : halfEven (magnitude / unit) * unit ≤ 3 / 2 * magnitude := by nlinarith
  refine ⟨_, ?_, low, high⟩
  unfold Fp.round
  rw [if_neg positive.ne']
  simp only
  rw [← isUnit, if_neg (not_le.2 (high.trans_lt top))]

/-- A number of a format with the digits of a double is rounded to one hardly above it. -/
theorem round_hardly_above {format : Format} {magnitude : ℚ} (negative : Bool)
    (digits : 53 ≤ format.digits)
    (least : magnitude = 0 ∨ twoPow (format.least + 52) ≤ magnitude)
    (top : 2 * magnitude < twoPow format.top) :
    ∃ nearest, Fp.round format negative magnitude = .fin negative nearest ∧
      magnitude / 2 ≤ nearest ∧ nearest ≤ magnitude * (1 + 1 / 2 ^ 52) := by
  rcases least with rfl | least
  · exact ⟨0, by simp [Fp.round], by simp, by simp⟩
  have positive : 0 < magnitude := lt_of_lt_of_le (twoPow_pos _) least
  set unit := twoPow (max (exponent magnitude - (format.digits - 1)) format.least) with isUnit
  have unit_pos : 0 < unit := twoPow_pos _
  have unit_le : unit ≤ magnitude / 2 ^ 52 := by
    have shifted (e : Int) : twoPow (e + 52) = twoPow e * 2 ^ 52 := by
      rw [twoPow_eq_zpow, twoPow_eq_zpow, zpow_add₀ (by norm_num)]
      norm_cast
    rw [le_div_iff₀ (by positivity), ← shifted]
    rcases max_choice (exponent magnitude - (format.digits - 1 : Int)) format.least with same | same
    · rw [same]
      exact (twoPow_mono (by omega)).trans (twoPow_exponent_le positive)
    · rw [same]
      exact least
  have near := abs_le.1 (halfEven_near (magnitude / unit))
  have exact_ : magnitude / unit * unit = magnitude := div_mul_cancel₀ _ unit_pos.ne'
  have one_le : 1 ≤ magnitude / unit := by
    rw [le_div_iff₀ unit_pos, one_mul]
    exact unit_le.trans (div_le_self positive.le (by norm_num))
  have low : magnitude / 2 ≤ halfEven (magnitude / unit) * unit := by
    have above : magnitude / unit / 2 * unit ≤ halfEven (magnitude / unit) * unit :=
      mul_le_mul_of_nonneg_right (by linarith [near.1]) unit_pos.le
    rwa [div_mul_eq_mul_div, exact_] at above
  have high : halfEven (magnitude / unit) * unit ≤ magnitude * (1 + 1 / 2 ^ 52) := by
    have above : halfEven (magnitude / unit) * unit ≤ (magnitude / unit + 1) * unit :=
      mul_le_mul_of_nonneg_right (by linarith [near.2]) unit_pos.le
    rw [add_mul, exact_, one_mul] at above
    linarith
  have below : halfEven (magnitude / unit) * unit < twoPow format.top := by
    refine lt_of_le_of_lt high (lt_of_le_of_lt ?_ top)
    rw [mul_comm]
    exact mul_le_mul_of_nonneg_right (by norm_num) positive.le
  refine ⟨_, ?_, low, high⟩
  unfold Fp.round
  rw [if_neg positive.ne']
  simp only
  rw [← isUnit, if_neg (not_le.2 below)]

/-- **Rounding below a power of two.**  It goes up to the power if and only if the number is at
most half a unit below it. -/
theorem round_below (format : Format) {magnitude : ℚ} {e : Int} (negative : Bool)
    (digits : 1 ≤ format.digits) (least : format.least ≤ e - format.digits) (top : e < format.top)
    (nonneg : 0 ≤ magnitude) (below : magnitude < twoPow e) :
    ∃ nearest, Fp.round format negative magnitude = .fin negative nearest ∧ 0 ≤ nearest ∧
      nearest ≤ twoPow e ∧
      (nearest < twoPow e ↔ magnitude < twoPow e - twoPow (e - format.digits - 1)) := by
  have half : twoPow (e - format.digits) = 2 * twoPow (e - format.digits - 1) := by
    rw [show e - (format.digits : Int) = 1 + (e - format.digits - 1) by ring, twoPow_add]
    simp [twoPow]
  rcases nonneg.eq_or_lt with rfl | positive
  · refine ⟨0, by simp [Fp.round], le_refl 0, (twoPow_pos e).le, iff_of_true (twoPow_pos e) ?_⟩
    have smaller := twoPow_mono (show e - format.digits ≤ e by omega)
    have := twoPow_pos (e - format.digits - 1)
    linarith
  set u : Int := max (exponent magnitude - (format.digits - 1)) format.least with isU
  have unit_pos : 0 < twoPow u := twoPow_pos u
  have exponent_lt : exponent magnitude < e :=
    lt_of_twoPow_lt ((twoPow_exponent_le positive).trans_lt below)
  have u_le : u ≤ e - format.digits := by omega
  -- the power is a multiple of the unit
  obtain ⟨k, isK⟩ := Int.le.dest (show u ≤ e by omega)
  have power : twoPow e = ((2 ^ k : Int) : ℚ) * twoPow u := by
    rw [← isK, add_comm, twoPow_add]
    simp [twoPow]
  have scaled : magnitude / twoPow u ≤ ((2 ^ k : Int) : ℚ) := by
    rw [div_le_iff₀ unit_pos, ← power]
    exact below.le
  have high : (halfEven (magnitude / twoPow u) : ℚ) * twoPow u ≤ twoPow e := by
    rw [power]
    exact mul_le_mul_of_nonneg_right (Int.cast_le.2 (halfEven_le scaled)) unit_pos.le
  have low : (0 : ℚ) ≤ halfEven (magnitude / twoPow u) * twoPow u := by
    refine mul_nonneg (Int.cast_nonneg (le_halfEven (n := 0) ?_)) unit_pos.le
    push_cast
    positivity
  refine ⟨_, ?_, low, high, fun lt => ?_, fun lt => ?_⟩
  · unfold Fp.round
    rw [if_neg positive.ne']
    simp only
    rw [← isU, if_neg (not_le.2 (high.trans_lt (twoPow_strictMono top)))]
  · by_contra ge
    have ge : twoPow e - twoPow (e - format.digits - 1) ≤ magnitude := not_lt.1 ge
    have double : twoPow e = 2 * twoPow (e - 1) := by
      rw [show e = 1 + (e - 1) by ring, twoPow_add]
      simp [twoPow]
    have isE : e - 1 < exponent magnitude + 1 := by
      refine lt_of_twoPow_lt (lt_of_le_of_lt ?_ (lt_twoPow_exponent positive))
      have smaller := twoPow_mono (show e - format.digits - 1 ≤ e - 1 by omega)
      linarith
    have same : u = e - format.digits := by omega
    have even : (2 ^ k : Int) % 2 = 0 := by
      rw [show k = (k - 1) + 1 by omega, pow_succ]
      omega
    have up := le_halfEven_of_even even (q := magnitude / twoPow u) (by
      rw [le_div_iff₀ unit_pos, sub_mul, ← power, same]
      linarith)
    have reaches : twoPow e ≤ halfEven (magnitude / twoPow u) * twoPow u := by
      rw [power]
      exact mul_le_mul_of_nonneg_right (Int.cast_le.2 up) unit_pos.le
    exact absurd lt (not_lt.2 reaches)
  · have near := (abs_le.1 (halfEven_near (magnitude / twoPow u))).2
    have above : (halfEven (magnitude / twoPow u) : ℚ) * twoPow u ≤ magnitude + twoPow u / 2 := by
      have := mul_le_mul_of_nonneg_right near unit_pos.le
      rw [sub_mul, div_mul_cancel₀ _ unit_pos.ne'] at this
      linarith
    have unit_le := twoPow_mono u_le
    linarith

/-- A number between two integers is rounded to one between them. -/
theorem roundInt64_between {low high : Int} {magnitude : ℚ} (least : -2 ^ 63 ≤ low)
    (most : high < 2 ^ 63) (lower : (low : ℚ) ≤ magnitude) (upper : magnitude + 1 / 2 < high + 1) :
    low ≤ (Fp.fin false magnitude).roundInt64 ∧ (Fp.fin false magnitude).roundInt64 ≤ high := by
  have above : low ≤ (magnitude + 1 / 2).floor := Rat.le_floor_iff.2 (by linarith)
  have below : (magnitude + 1 / 2).floor < high + 1 := Rat.floor_lt_iff.2 (by push_cast; linarith)
  simp only [Fp.roundInt64, Bool.false_eq_true, if_false]
  rw [if_pos ⟨by omega, by omega⟩]
  omega

/-! ## What is cut to an `int` -/

namespace Fp

variable {a : Bool} {q : ℚ}

theorem toInt32_of_fits {x : Fp} (fits : x.FitsInt32) : x.toInt32 = x.trunc := by
  cases x with
  | nan b => cases fits
  | inf b => cases fits
  | fin a q => exact if_pos fits

/-- The magnitude that fits. -/
theorem fitsInt32_iff (nonneg : 0 ≤ q) :
    (fin a q).FitsInt32 ↔ if a then q < 2 ^ 31 + 1 else q < 2 ^ 31 := by
  have low : 0 ≤ q.floor := Rat.le_floor_iff.2 (by simpa using nonneg)
  simp only [FitsInt32, trunc]
  cases a with
  | true =>
      have floor : q.floor < 2 ^ 31 + 1 ↔ q < 2 ^ 31 + 1 := by
        rw [Rat.floor_lt_iff]
        norm_num
      simp only [if_true]
      rw [← floor]
      omega
  | false =>
      have floor : q.floor < 2 ^ 31 ↔ q < 2 ^ 31 := by
        rw [Rat.floor_lt_iff]
        norm_num
      simp only [Bool.false_eq_true, if_false]
      rw [← floor]
      omega

theorem zero_le_iff (nonneg : 0 ≤ q) :
    (fin false 0).le (.fin a q) = true ↔ a = false ∨ q = 0 := by
  cases a with
  | false => simpa [Fp.le, lt, value] using nonneg
  | true => simpa [Fp.le, lt, value] using (le_antisymm_iff.trans (and_iff_left nonneg)).symm

theorem ofInt_lt (n : Int) : (ofInt n).lt (.fin a q) = true ↔ (n : ℚ) < value a q := by
  rw [ofInt, lt, value_ofInt, decide_eq_true_eq]

theorem lt_ofInt (n : Int) : (fin a q).lt (.ofInt n) = true ↔ value a q < (n : ℚ) := by
  rw [ofInt, lt, value_ofInt, decide_eq_true_eq]

theorem between_iff (nonneg : 0 ≤ q) :
    ((ofInt (-2 ^ 31)).lt (.fin a q) = true ∧ (fin a q).lt (.ofInt (2 ^ 31)) = true) ↔
      q < 2 ^ 31 := by
  rw [ofInt_lt, lt_ofInt]
  unfold value
  push_cast
  cases a with
  | true =>
      simp only [if_true]
      constructor
      · rintro ⟨above, -⟩
        linarith
      · intro small
        constructor <;> linarith
  | false =>
      simp only [Bool.false_eq_true, if_false]
      exact ⟨And.right, fun small => ⟨by linarith, small⟩⟩

/-- The `float` of a number fits, unless it is rounded up to `2 ^ 31`. -/
theorem single_fits (nonneg : 0 ≤ q) (small : q < 2 ^ 31) :
    (single (.fin a q)).FitsInt32 ↔ (fin a q).lt (.ofInt (2 ^ 31 - 64)) = true := by
  have power : twoPow 31 = 2 ^ 31 := by norm_num [twoPow]
  obtain ⟨nearest, rounded, low, high, up⟩ := round_below binary32 (e := 31) a
    (by decide) (by decide) (by decide) nonneg (by rw [power]; exact small)
  have half : twoPow (31 - (binary32.digits : Int) - 1) = 64 := by norm_num [binary32, twoPow]
  rw [power] at high
  rw [power, half, show (2 : ℚ) ^ 31 - 64 = ((2 ^ 31 - 64 : Int) : ℚ) by norm_num] at up
  rw [single, rounded, fitsInt32_iff low, lt_ofInt]
  unfold value
  cases a with
  | true =>
      simp only [if_true]
      exact iff_of_true (by linarith) (by push_cast; linarith)
  | false =>
      simp only [Bool.false_eq_true, if_false]
      exact up

/-- An integer is not above a bound that is below it. -/
theorem lt_asymm_ofInt {x : Fp} {n : Int} (below : x.lt (.ofInt n) = true) :
    (ofInt n).lt x = false := by
  cases x with
  | nan b => cases below
  | inf b =>
      cases b with
      | true => rfl
      | false => cases below
  | fin a q =>
      rw [Bool.eq_false_iff, Ne, ofInt_lt, not_lt]
      exact ((lt_ofInt n).1 below).le

/-- A number between two integers is cut to one between them. -/
theorem toInt32_between {a : Bool} {q : ℚ} {low high : Int} (least : -2 ^ 31 ≤ low)
    (most : high < 2 ^ 31) (lower : (low : ℚ) ≤ value a q) (upper : value a q ≤ high) :
    low ≤ (fin a q).toInt32 ∧ (fin a q).toInt32 ≤ high := by
  have between : low ≤ (if a then -q.floor else q.floor) ∧
      (if a then -q.floor else q.floor) ≤ high := by
    cases a with
    | false =>
        have low_le : low ≤ q.floor := Rat.le_floor_iff.2 lower
        have lt_high : q.floor < high + 1 :=
          Rat.floor_lt_iff.2 (by push_cast; exact lt_of_le_of_lt upper (lt_add_one _))
        exact ⟨low_le, Int.lt_add_one_iff.1 lt_high⟩
    | true =>
        have lower : (low : ℚ) ≤ -q := lower
        have upper : -q ≤ (high : ℚ) := upper
        have low_le : -high ≤ q.floor := Rat.le_floor_iff.2 (by push_cast; linarith)
        have lt_high : q.floor < -low + 1 := Rat.floor_lt_iff.2 (by push_cast; linarith)
        constructor <;> simp only [if_true] <;> omega
  simp only [toInt32]
  rw [if_pos ⟨by omega, by omega⟩]
  exact between

end Fp

example : Fp.ofRat binary32 (1 / 10) = .fin false (13421773 / 134217728) := by decide +kernel

example : (Fp.fin false (13421773 / 134217728)).bits = 0x3DCCCCCD#32 := by decide +kernel
