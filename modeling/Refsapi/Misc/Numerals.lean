/-
# Misc.Numerals -- the grammar of `is_number`

The texts that `is_number` accepts are those of

    [+-]? (digits ('.' digits)? | '.' digits)

(`isNumber_iff_numeral`), and `strtod` reads each of them to its end, as the number that is
written (`isNumberInPlace_spec`).  `check_range` has the one read what the other accepted.
-/
import Refsapi.Misc.Number

namespace Refsapi

set_option autoImplicit false

/-! ## The grammar -/

def Digits (ds : Text) : Prop := ds ≠ [] ∧ ∀ b ∈ ds, isDigit b = true

/-- `digits ('.' digits)? | '.' digits`, with the digits before and behind the point. -/
inductive Unsigned : Text → Text → Text → Prop where
  | whole {ds : Text} (digits : Digits ds) : Unsigned ds ds []
  | point {ds more : Text} (digits : Digits ds) (part : Digits more) :
      Unsigned (ds ++ decimalPoint :: more) ds more
  | part {more : Text} (part : Digits more) : Unsigned (decimalPoint :: more) [] more

/-- A number with a sign or without, and whether the sign is a minus. -/
inductive Numeral : Text → Bool → Text → Text → Prop where
  | plain {text ds more : Text} (number : Unsigned text ds more) : Numeral text false ds more
  | plus {text ds more : Text} (number : Unsigned text ds more) :
      Numeral (0x2B :: text) false ds more
  | minus {text ds more : Text} (number : Unsigned text ds more) :
      Numeral (0x2D :: text) true ds more

/-- `is_number`: its answer, and its argument, which it trims. -/
def isNumberInPlace (s : Text) : Bool × Text := (isNumber (trimText s), trimText s)

/-! ## What the loop accepts -/

theorem isNumberLoop_digits {dpFound : Bool} {ds : Text} (digits : ∀ b ∈ ds, isDigit b = true)
    (rest : Text) : isNumberLoop dpFound (ds ++ rest) = isNumberLoop dpFound rest := by
  induction ds with
  | nil => rfl
  | cons b ds ih =>
      obtain ⟨digit, others⟩ := List.forall_mem_cons.1 digits
      rw [List.cons_append, isNumberLoop, if_pos digit, ih others]

theorem isNumberLoop_point {more : Text} (digits : Digits more) :
    isNumberLoop false (decimalPoint :: more) = true := by
  have ends : isNumberLoop true (more ++ []) = isNumberLoop true [] :=
    isNumberLoop_digits digits.2 []
  rw [List.append_nil] at ends
  rw [isNumberLoop, if_neg (by decide), if_pos (by simp [digits.1]), ends]
  rfl

namespace Unsigned

variable {text ds more : Text}

theorem loops (number : Unsigned text ds more) : isNumberLoop false text = true := by
  cases number with
  | whole digits =>
      have ends : isNumberLoop false (text ++ []) = isNumberLoop false [] :=
        isNumberLoop_digits digits.2 []
      rw [List.append_nil] at ends
      rw [ends]
      rfl
  | point digits part => rw [isNumberLoop_digits digits.2, isNumberLoop_point part]
  | part digits => exact isNumberLoop_point digits

theorem ne_nil (number : Unsigned text ds more) : text ≠ [] := by
  cases number with
  | whole digits => exact digits.1
  | point digits part => simp
  | part digits => exact List.cons_ne_nil _ _

/-- It begins with a digit or the point, and not with a sign. -/
theorem first (number : Unsigned text ds more) :
    ∃ b rest, text = b :: rest ∧ (isDigit b = true ∨ b = decimalPoint) := by
  obtain ⟨b, rest, rfl⟩ := List.exists_cons_of_ne_nil number.ne_nil
  exact ⟨b, rest, rfl, isNumberLoop_cons number.loops⟩

/-- What the loop accepts. -/
theorem of_loop (loops : isNumberLoop false text = true) (some : text ≠ []) :
    ∃ ds more, Unsigned text ds more := by
  obtain ⟨ds, more, digits, part, rfl | ⟨nonempty, rfl⟩⟩ := split_of_loop loops
  · exact ⟨text, [], .whole ⟨some, digits⟩⟩
  · by_cases none : ds = []
    · subst none
      exact ⟨[], more, .part ⟨nonempty, part⟩⟩
    · exact ⟨ds, more, .point ⟨none, digits⟩ ⟨nonempty, part⟩⟩

/-- The value that `strtod` finds behind the sign. -/
theorem mantissa (number : Unsigned text ds more) {post : Text} (blank : Blank post) :
    Strtod.mantissa 10 (text ++ post) = .some (magnitude ds more, post) := by
  cases number with
  | whole digits => exact mantissa_whole digits.2 digits.1 blank
  | point digits part => exact mantissa_point digits.2 part.2 part.1 blank
  | part digits =>
      have none : ∀ b ∈ ([] : Text), isDigit b = true := fun b isMember =>
        absurd isMember List.not_mem_nil
      have reads := mantissa_point none digits.2 digits.1 blank
      rwa [List.nil_append] at reads

end Unsigned

/-! ## Numbers with a sign -/

namespace Numeral

variable {s ds more : Text} {negative : Bool}

theorem isNumber (number : Numeral s negative ds more) : isNumber s = true := by
  cases number with
  | plain number =>
      obtain ⟨b, rest, rfl, first⟩ := number.first
      have noSign : (b == 0x2B || b == 0x2D) = false := by
        rcases first with digit | rfl
        · by_contra sign
          have sign := Bool.of_not_eq_false sign
          simp only [Bool.or_eq_true, beq_iff_eq] at sign
          rcases sign with rfl | rfl <;> cases digit
        · decide
      rw [Refsapi.isNumber, noSign]
      exact number.loops
  | plus number =>
      simp only [Refsapi.isNumber, number.loops, Bool.and_true]
      simp [number.ne_nil]
  | minus number =>
      simp only [Refsapi.isNumber, number.loops, Bool.and_true]
      simp [number.ne_nil]

/-- What `is_number` accepts. -/
theorem of_isNumber (accepted : Refsapi.isNumber s = true) :
    ∃ negative ds more, Numeral s negative ds more := by
  cases s with
  | nil => cases accepted
  | cons b rest =>
      rw [Refsapi.isNumber] at accepted
      split at accepted
      · next signed =>
          obtain ⟨some, loops⟩ := Bool.and_eq_true_iff.1 accepted
          obtain ⟨ds, more, number⟩ := Unsigned.of_loop loops (by simpa using some)
          simp only [Bool.or_eq_true, beq_iff_eq] at signed
          rcases signed with rfl | rfl
          · exact ⟨false, ds, more, .plus number⟩
          · exact ⟨true, ds, more, .minus number⟩
      · obtain ⟨ds, more, number⟩ := Unsigned.of_loop accepted (List.cons_ne_nil b rest)
        exact ⟨false, ds, more, .plain number⟩

/-- `strtod` reads the number that is written, and stops where it ends. -/
theorem scan (number : Numeral s negative ds more) :
    Strtod.scan s = some (.fin negative (magnitude ds more), []) := by
  have behind {text signed : Text} (number : Unsigned text ds more)
      (begins : Strtod.sign (signed.dropWhile Strtod.isSpace) = (negative, text)) :
      Strtod.scan signed = some (.fin negative (magnitude ds more), []) := by
    refine scan_of_mantissa number.ne_nil (neutral_of_loop number.loops) ?_
      (number.mantissa ?_) (begins.trans (by rw [List.append_nil]))
    · exact fun b member => absurd member List.not_mem_nil
    · exact fun b member => absurd member List.not_mem_nil
  cases number with
  | plain number =>
      apply behind number
      obtain ⟨b, rest, rfl, first⟩ := number.first
      exact sign_unsigned first
  | plus number => exact behind number rfl
  | minus number => exact behind number rfl

theorem strtod (number : Numeral s negative ds more) :
    Strtod.strtod s = some (.round binary64 negative (magnitude ds more),
      Strtod.erange (magnitude ds more), []) := by
  rw [Strtod.strtod, number.scan]
  rfl

theorem safeStod (number : Numeral s negative ds more) :
    safeStod s = if Strtod.erange (magnitude ds more) then none
      else some (.round binary64 negative (magnitude ds more)) := by
  rw [Refsapi.safeStod, number.strtod]
  rfl

end Numeral

theorem isNumber_iff_numeral (s : Text) :
    isNumber s = true ↔ ∃ negative ds more, Numeral s negative ds more := by
  constructor
  · exact Numeral.of_isNumber
  · rintro ⟨negative, ds, more, number⟩
    exact number.isNumber

/-- **`is_number` and `safe_stod` have one grammar.**  A text is accepted if it is a number of
the grammar when it is trimmed, and this number `strtod` reads to its end; `safe_stod` refuses
it only where the value overflows or underflows. -/
theorem isNumberInPlace_spec (s : Text) :
    ((isNumberInPlace s).1 = true ↔
        ∃ negative ds more, Numeral (isNumberInPlace s).2 negative ds more) ∧
      (isNumberInPlace s).2 = trimText s ∧
      ∀ negative ds more, Numeral (isNumberInPlace s).2 negative ds more →
        Strtod.strtod (isNumberInPlace s).2 =
            some (.round binary64 negative (magnitude ds more),
              Strtod.erange (magnitude ds more), []) ∧
          safeStod (isNumberInPlace s).2 =
            if Strtod.erange (magnitude ds more) then none
            else some (.round binary64 negative (magnitude ds more)) := by
  refine ⟨isNumber_iff_numeral _, rfl, ?_⟩
  intro negative ds more number
  exact ⟨number.strtod, number.safeStod⟩

end Refsapi
