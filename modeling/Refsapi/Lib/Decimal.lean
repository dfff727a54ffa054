/-
# Lib.Decimal -- numbers as the C library prints them

A binary floating point number is a zero or a rational with a sign, an infinity
or a NaN.  `printF` is its `%f`: six digits after the point, the last one rounded
to nearest and to even in a tie.
-/
import Mathlib.Data.Rat.Floor
import Mathlib.Tactic.IntervalCases

set_option autoImplicit false

/-- A floating point number; the sign of a zero counts. -/
inductive Fp where
  | nan (negative : Bool)
  | inf (negative : Bool)
  | fin (negative : Bool) (magnitude : ℚ)
  deriving DecidableEq

/-- The nearest integer, the even one in a tie. -/
def halfEven (q : ℚ) : Int :=
  let low := q.floor
  let rest := q - low
  if rest < 1 / 2 then low
  else if 1 / 2 < rest then low + 1
  else if low % 2 = 0 then low
  else low + 1

/-- The last `n` decimal digits of a number. -/
def lastDigits : Nat → Nat → List Char
  | 0, _ => []
  | n + 1, k => lastDigits n (k / 10) ++ [(k % 10).digitChar]

/-- `%f` of a number that is not negative. -/
def fixed (q : ℚ) : List Char :=
  let n := (halfEven (q * 10 ^ 6)).toNat
  Nat.toDigits 10 (n / 10 ^ 6) ++ '.' :: lastDigits 6 (n % 10 ^ 6)

namespace Fp

def sign (negative : Bool) : List Char := if negative then ['-'] else []

def printF : Fp → List Char
  | nan negative => sign negative ++ "nan".toList
  | inf negative => sign negative ++ "inf".toList
  | fin negative magnitude => sign negative ++ fixed magnitude

end Fp

/-! ## What is printed -/

theorem digitChar_isDigit (k : Nat) : (k % 10).digitChar.isDigit = true := by
  have below : k % 10 < 10 := Nat.mod_lt k (by decide)
  interval_cases k % 10 <;> rfl

theorem isDigit_of_mem_lastDigits {n k : Nat} {c : Char} (member : c ∈ lastDigits n k) :
    c.isDigit = true := by
  induction n generalizing k with
  | zero => cases member
  | succ n ih =>
      rcases List.mem_append.1 member with old | last
      · exact ih old
      · obtain rfl := List.mem_singleton.1 last
        exact digitChar_isDigit k

theorem sign_subset (negative : Bool) : Fp.sign negative ⊆ ['-', '.', 'n', 'a', 'i', 'f'] := by
  cases negative <;> decide

/-- `%f` prints digits, a point, a sign, `inf` and `nan`. -/
theorem mem_printF {x : Fp} {c : Char} (member : c ∈ x.printF) :
    c.isDigit = true ∨ c ∈ ['-', '.', 'n', 'a', 'i', 'f'] := by
  have other {word : List Char} (known : word ⊆ ['-', '.', 'n', 'a', 'i', 'f'])
      (member : c ∈ word) : c.isDigit = true ∨ c ∈ ['-', '.', 'n', 'a', 'i', 'f'] :=
    .inr (known member)
  cases x with
  | nan negative =>
      rcases List.mem_append.1 member with sign | word
      · exact other (sign_subset negative) sign
      · exact other (by decide) word
  | inf negative =>
      rcases List.mem_append.1 member with sign | word
      · exact other (sign_subset negative) sign
      · exact other (by decide) word
  | fin negative magnitude =>
      simp only [Fp.printF, fixed, List.mem_append, List.mem_cons] at member
      rcases member with sign | whole | point | part
      · exact other (sign_subset negative) sign
      · exact .inl (Nat.isDigit_of_mem_toDigits (by decide) (by decide) whole)
      · exact other (by decide) (List.mem_singleton.2 point)
      · exact .inl (isDigit_of_mem_lastDigits part)

theorem newline_not_mem_printF (x : Fp) : '\n' ∉ x.printF := by
  intro member
  rcases mem_printF member with digit | other
  · cases digit
  · revert other
    decide

example : (Fp.fin true (1 / 8)).printF = "-0.125000".toList := by decide +kernel
