/-
# Lib.Strtod -- numbers as the C library reads them

`scan` reads the longest number that a text begins with, in the locale "C": a
decimal or a hexadecimal with a point and an exponent, an infinity or a NaN.  It
gives the number that is written, exactly; `strtod` rounds it to a double and
says whether it sets `ERANGE`.
-/
import Refsapi.Lib.Rounding

namespace Strtod

set_option autoImplicit false

/-- `isspace`. -/
def isSpace (b : UInt8) : Bool := b == 0x20 || (0x09 ≤ b && b ≤ 0x0D)

/-- The value of a digit. -/
def digit (base : Nat) (b : UInt8) : Option Nat :=
  let d :=
    if 0x30 ≤ b ∧ b ≤ 0x39 then b.toNat - 0x30
    else if 0x61 ≤ b ∧ b ≤ 0x66 then b.toNat - 0x61 + 10
    else if 0x41 ≤ b ∧ b ≤ 0x46 then b.toNat - 0x41 + 10
    else base
  if d < base then some d else none

/-- The digits that a text begins with, and what is left of it. -/
def digits (base : Nat) : List UInt8 → List Nat × List UInt8
  | [] => ([], [])
  | b :: rest =>
      match digit base b with
      | some d => (d :: (digits base rest).1, (digits base rest).2)
      | none => ([], b :: rest)

def ofDigits (base : Nat) (ds : List Nat) : Nat := ds.foldl (fun n d => base * n + d) 0

/-- Digits with a point before, in or after them. -/
def mantissa (base : Nat) (text : List UInt8) : Option (ℚ × List UInt8) :=
  let whole := digits base text
  match whole.2 with
  | 0x2E :: more =>
      let part := digits base more
      if whole.1.isEmpty && part.1.isEmpty then none
      else some ((ofDigits base (whole.1 ++ part.1) : ℚ) / (base ^ part.1.length : Nat), part.2)
  | rest => if whole.1.isEmpty then none else some (ofDigits base whole.1, rest)

/-- A sign, if there is one: whether it is a minus. -/
def sign : List UInt8 → Bool × List UInt8
  | 0x2D :: rest => (true, rest)
  | 0x2B :: rest => (false, rest)
  | text => (false, text)

/-- The letter, or its capital. -/
def isLetter (letter b : UInt8) : Bool := b == letter || b == letter - 0x20

/-- An exponent after the letter that marks it; without a digit there is none. -/
def power (letter : UInt8) (text : List UInt8) : Int × List UInt8 :=
  match text with
  | [] => (0, [])
  | b :: rest =>
      let signed := sign rest
      let ds := digits 10 signed.2
      if !isLetter letter b || ds.1.isEmpty then (0, text)
      else (if signed.1 then -ofDigits 10 ds.1 else ofDigits 10 ds.1, ds.2)

/-- A number times a power. -/
def shift (base : Nat) (q : ℚ) : Int → ℚ
  | .ofNat n => q * (base ^ n : Nat)
  | .negSucc n => q / (base ^ (n + 1) : Nat)

/-- What follows a word, given in small letters. -/
def after : List UInt8 → List UInt8 → Option (List UInt8)
  | [], text => some text
  | _ :: _, [] => none
  | letter :: word, b :: rest => if isLetter letter b then after word rest else none

def inf : List UInt8 := [0x69, 0x6E, 0x66]

def inity : List UInt8 := [0x69, 0x6E, 0x69, 0x74, 0x79]

def nan : List UInt8 := [0x6E, 0x61, 0x6E]

/-- A character that may stand in the brackets after a NaN. -/
def isWord (b : UInt8) : Bool :=
  (0x30 ≤ b && b ≤ 0x39) || (0x41 ≤ b && b ≤ 0x5A) || (0x61 ≤ b && b ≤ 0x7A) || b == 0x5F

/-- What follows a NaN: the brackets belong to it if they are closed. -/
def afterNan : List UInt8 → List UInt8
  | 0x28 :: rest =>
      match rest.dropWhile isWord with
      | 0x29 :: more => more
      | _ => 0x28 :: rest
  | text => text

def decimal (text : List UInt8) : Option (ℚ × List UInt8) :=
  (mantissa 10 text).map fun m => (shift 10 m.1 (power 0x65 m.2).1, (power 0x65 m.2).2)

def hexadecimal : List UInt8 → Option (ℚ × List UInt8)
  | 0x30 :: x :: text =>
      if isLetter 0x78 x then
        (mantissa 16 text).map fun m => (shift 2 m.1 (power 0x70 m.2).1, (power 0x70 m.2).2)
      else none
  | _ => none

/-- The number that a text begins with, as it is written, and what is left of the text. -/
def scan (text : List UInt8) : Option (Fp × List UInt8) :=
  let signed := sign (text.dropWhile isSpace)
  match after inf signed.2 with
  | some rest => some (.inf signed.1, (after inity rest).getD rest)
  | none =>
      match after nan signed.2 with
      | some rest => some (.nan signed.1, afterNan rest)
      | none =>
          ((hexadecimal signed.2).orElse fun _ => decimal signed.2).map fun m =>
            (.fin signed.1 m.1, m.2)

/-- The number, rounded as if there were no least exponent. -/
def unbounded (digits : Nat) (q : ℚ) : ℚ :=
  let unit := twoPow (exponent q - (digits - 1))
  halfEven (q / unit) * unit

/-- The magnitude overflows, or its double is not it and has no normal exponent. -/
def erange (magnitude : ℚ) : Bool :=
  match Fp.round binary64 false magnitude with
  | .fin _ nearest => nearest != magnitude && unbounded 53 magnitude < twoPow (-1022)
  | _ => true

/-- `strtod`: the double, whether `errno` is `ERANGE`, and where the number ends. -/
def strtod (text : List UInt8) : Option (Fp × Bool × List UInt8) :=
  (scan text).map fun read =>
    match read.1 with
    | .fin negative magnitude =>
        (.round binary64 negative magnitude, erange magnitude, read.2)
    | x => (x, false, read.2)

/-! ## Magnitudes -/

theorem mantissa_nonneg {base : Nat} {text rest : List UInt8} {q : ℚ}
    (reads : mantissa base text = some (q, rest)) : 0 ≤ q := by
  unfold mantissa at reads
  simp only at reads
  split at reads
  · split at reads <;> cases reads
    positivity
  · split at reads <;> cases reads
    positivity

theorem shift_nonneg {base : Nat} {q : ℚ} (nonneg : 0 ≤ q) (e : Int) : 0 ≤ shift base q e := by
  unfold shift
  split
  · positivity
  · positivity

/-- The magnitude that is read is one. -/
theorem scan_nonneg {text rest : List UInt8} {a : Bool} {q : ℚ}
    (reads : scan text = some (.fin a q, rest)) : 0 ≤ q := by
  have decimal_nonneg {text : List UInt8} {m : ℚ × List UInt8} (reads : decimal text = some m) :
      0 ≤ m.1 := by
    obtain ⟨m, isMantissa, rfl⟩ := Option.map_eq_some_iff.1 reads
    exact shift_nonneg (mantissa_nonneg isMantissa) _
  have hexadecimal_nonneg {text : List UInt8} {m : ℚ × List UInt8}
      (reads : hexadecimal text = some m) : 0 ≤ m.1 := by
    unfold hexadecimal at reads
    split at reads
    · split at reads
      · obtain ⟨m, isMantissa, rfl⟩ := Option.map_eq_some_iff.1 reads
        exact shift_nonneg (mantissa_nonneg isMantissa) _
      · cases reads
    · cases reads
  unfold scan at reads
  simp only at reads
  split at reads
  · cases reads
  split at reads
  · cases reads
  obtain ⟨m, isNumber, same⟩ := Option.map_eq_some_iff.1 reads
  cases same
  cases hex : hexadecimal (sign (text.dropWhile isSpace)).2 with
  | some h =>
      rw [hex] at isNumber
      cases isNumber
      exact hexadecimal_nonneg hex
  | none =>
      rw [hex] at isNumber
      exact decimal_nonneg isNumber

/-- So is that of the double. -/
theorem strtod_nonneg {text rest : List UInt8} {a erange : Bool} {q : ℚ}
    (reads : strtod text = some (.fin a q, erange, rest)) : 0 ≤ q := by
  obtain ⟨⟨x, tail⟩, isRead, same⟩ := Option.map_eq_some_iff.1 reads
  cases x with
  | nan b => cases same
  | inf b => cases same
  | fin b magnitude =>
      simp only [Fp.round_eq] at same
      split at same
      · cases same
      · cases same
        exact nearest_nonneg binary64 (scan_nonneg isRead)

/-- A magnitude that does not overflow is finite. -/
theorem round_fin {magnitude : ℚ} (nonneg : 0 ≤ magnitude) (fits : erange magnitude = false)
    (negative : Bool) : ∃ q, 0 ≤ q ∧ Fp.round binary64 negative magnitude = .fin negative q := by
  unfold erange at fits
  unfold Fp.round at fits ⊢
  split
  · exact ⟨0, le_refl 0, rfl⟩
  · next nonzero =>
      simp only [if_neg nonzero] at fits
      simp only
      split
      · next large =>
          rw [if_pos large] at fits
          cases fits
      · refine ⟨_, mul_nonneg (Int.cast_nonneg (le_halfEven ?_)) (twoPow_pos _).le, rfl⟩
        exact div_nonneg (by simpa using nonneg) (twoPow_pos _).le

end Strtod
