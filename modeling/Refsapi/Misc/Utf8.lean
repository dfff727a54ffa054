/-
# Misc.Utf8 -- the two scalar UTF-8 validators of `refsapi_misc.cpp`

`isValidUtf8` is the byte-at-a-time state machine (`remaining`, `code_point`);
`refUtf8` is the look-ahead validator that finishes the work of the SSE path.
Overlong forms, surrogates and values above U+10FFFF are caught by three
different mechanisms in the first and by ranges of the second byte in the
second; both accept exactly well-formed UTF-8 (`isValidUtf8_bytes_iff`,
`refUtf8_iff`), and with it exactly what encodes a list of Unicode scalar values
(`isValidUtf8_iff_encodes`).
-/
import Mathlib.Data.FinEnum
import Mathlib.Tactic.NormNum
import Refsapi.Lib.Utf8

namespace Refsapi

open Utf8

set_option autoImplicit false

/-- A `const uint8_t *p` and the `size_t n` it is passed with: either no pointer
at all, or a pointer to exactly `n` readable bytes. -/
inductive Buffer where
  | null (n : Nat)
  | bytes (data : List UInt8)
  deriving DecidableEq, Repr

/-! ## The scalar state machine -/

/-- The loop of `is_valid_utf8`, on the bytes from `p + i` on. -/
def isValidUtf8Loop (remaining : Nat) (codePoint : UInt32) : List UInt8 → Bool
  | [] => remaining == 0
  | byte :: rest =>
      if remaining == 0 then
        if byte >>> 7 == 0x00 then isValidUtf8Loop 0 codePoint rest
        else if byte >>> 5 == 0x06 then
          let codePoint := (byte &&& 0x1F).toUInt32
          if codePoint < 0x02 then false else isValidUtf8Loop 1 codePoint rest
        else if byte >>> 4 == 0x0E then
          let codePoint := (byte &&& 0x0F).toUInt32
          match rest with
          | [] => false
          | next :: _ =>
              if codePoint == 0 && next &&& 0x20 == 0 then false
              else isValidUtf8Loop 2 codePoint rest
        else if byte >>> 3 == 0x1E then
          let codePoint := (byte &&& 0x07).toUInt32
          match rest with
          | [] => false
          | next :: _ =>
              if codePoint == 0 && next &&& 0x30 == 0 then false
              else isValidUtf8Loop 3 codePoint rest
        else false
      else if byte >>> 6 != 0x02 then false
      else
        let codePoint := (codePoint <<< 6) ||| (byte &&& 0x3F).toUInt32
        if remaining - 1 == 0 then
          if codePoint ≥ 0xD800 && codePoint ≤ 0xDFFF then false
          else if codePoint > 0x10FFFF then false
          else if codePoint ≤ 0x7F then false
          else isValidUtf8Loop 0 codePoint rest
        else isValidUtf8Loop (remaining - 1) codePoint rest

/-- `is_valid_utf8(p, n)`. -/
def isValidUtf8 : Buffer → Bool
  | .null n => n == 0
  | .bytes data => isValidUtf8Loop 0 0 data

/-! ## The look-ahead validator -/

/-- `ref_utf8(p, n)`, on the bytes from `p + i` on. -/
def refUtf8 : List UInt8 → Bool
  | [] => true
  | b :: rest =>
      if b < 0x80 then refUtf8 rest
      else if b ≥ 0xC2 && b ≤ 0xDF then
        match rest with
        | b1 :: rest => if b1 &&& 0xC0 != 0x80 then false else refUtf8 rest
        | _ => false
      else if b ≥ 0xE0 && b ≤ 0xEF then
        match rest with
        | b1 :: b2 :: rest =>
            if b1 &&& 0xC0 != 0x80 || b2 &&& 0xC0 != 0x80 then false
            else if b == 0xE0 && b1 < 0xA0 then false
            else if b == 0xED && b1 > 0x9F then false
            else refUtf8 rest
        | _ => false
      else if b ≥ 0xF0 && b ≤ 0xF4 then
        match rest with
        | b1 :: b2 :: b3 :: rest =>
            if b1 &&& 0xC0 != 0x80 || b2 &&& 0xC0 != 0x80 || b3 &&& 0xC0 != 0x80 then false
            else if b == 0xF0 && b1 < 0x90 then false
            else if b == 0xF4 && b1 > 0x8F then false
            else refUtf8 rest
        | _ => false
      else false

/-! ## Byte tests -/

/-- The mask tests of the two validators are range tests; the look-ahead masks
`0x20` and `0x30` only on a continuation byte. -/
theorem mask_tests : ∀ b : UInt8, (b &&& 0xC0 = 0x80 ↔ Utf8.Cont b) ∧
    (Utf8.Cont b → (b &&& 0x20 = 0 ↔ b < 0xA0)) ∧ (Utf8.Cont b → (b &&& 0x30 = 0 ↔ b < 0x90)) := by
  decide +kernel

theorem and_C0_eq_iff (b : UInt8) : b &&& 0xC0 = 0x80 ↔ Utf8.Cont b := (mask_tests b).1

theorem and_20_eq_iff (b : UInt8) : Utf8.Cont b → (b &&& 0x20 = 0 ↔ b < 0xA0) := (mask_tests b).2.1

theorem and_30_eq_iff (b : UInt8) : Utf8.Cont b → (b &&& 0x30 = 0 ↔ b < 0x90) := (mask_tests b).2.2

theorem toNat_shiftRight (b : UInt8) :
    (b >>> 7).toNat = b.toNat / 128 ∧ (b >>> 6).toNat = b.toNat / 64 ∧
      (b >>> 5).toNat = b.toNat / 32 ∧ (b >>> 4).toNat = b.toNat / 16 ∧
      (b >>> 3).toNat = b.toNat / 8 := by
  simp [UInt8.toNat_shiftRight, Nat.shiftRight_eq_div_pow]

theorem shiftRight_seven_iff (b : UInt8) : b >>> 7 = 0x00 ↔ b < 0x80 := by
  have := toNat_shiftRight b
  simp only [← UInt8.toNat_inj, UInt8.lt_iff_toNat_lt, UInt8.reduceToNat]
  omega

theorem shiftRight_six_iff (b : UInt8) : b >>> 6 = 0x02 ↔ Utf8.Cont b := by
  have := toNat_shiftRight b
  simp only [← UInt8.toNat_inj, Utf8.Cont, UInt8.lt_iff_toNat_lt, UInt8.le_iff_toNat_le,
    UInt8.reduceToNat]
  omega

theorem shiftRight_five_iff (b : UInt8) : b >>> 5 = 0x06 ↔ 0xC0 ≤ b ∧ b < 0xE0 := by
  have := toNat_shiftRight b
  simp only [← UInt8.toNat_inj, UInt8.lt_iff_toNat_lt, UInt8.le_iff_toNat_le, UInt8.reduceToNat]
  omega

theorem shiftRight_four_iff (b : UInt8) : b >>> 4 = 0x0E ↔ 0xE0 ≤ b ∧ b < 0xF0 := by
  have := toNat_shiftRight b
  simp only [← UInt8.toNat_inj, UInt8.lt_iff_toNat_lt, UInt8.le_iff_toNat_le, UInt8.reduceToNat]
  omega

theorem shiftRight_three_iff (b : UInt8) : b >>> 3 = 0x1E ↔ 0xF0 ≤ b ∧ b < 0xF8 := by
  have := toNat_shiftRight b
  simp only [← UInt8.toNat_inj, UInt8.lt_iff_toNat_lt, UInt8.le_iff_toNat_le, UInt8.reduceToNat]
  omega

/-- The payload bits of a byte. -/
theorem toNat_payload (b : UInt8) :
    (b &&& 0x1F).toUInt32.toNat = b.toNat % 32 ∧ (b &&& 0x0F).toUInt32.toNat = b.toNat % 16 ∧
      (b &&& 0x07).toUInt32.toNat = b.toNat % 8 ∧ (b &&& 0x3F).toUInt32.toNat = b.toNat % 64 := by
  simp only [UInt8.toNat_toUInt32, UInt8.toNat_and, UInt8.reduceToNat]
  exact ⟨Nat.and_two_pow_sub_one_eq_mod _ 5, Nat.and_two_pow_sub_one_eq_mod _ 4,
    Nat.and_two_pow_sub_one_eq_mod _ 3, Nat.and_two_pow_sub_one_eq_mod _ 6⟩

theorem and_1F_lt_iff (b : UInt8) (low : 0xC0 ≤ b) (high : b < 0xE0) :
    (b &&& 0x1F).toUInt32 < 0x02 ↔ ¬ 0xC2 ≤ b := by
  have := (toNat_payload b).1
  simp only [UInt32.lt_iff_toNat_lt, UInt8.lt_iff_toNat_lt, UInt8.le_iff_toNat_le,
    UInt8.reduceToNat, UInt32.reduceToNat] at *
  omega

theorem and_0F_eq_iff (b : UInt8) (low : 0xE0 ≤ b) (high : b < 0xF0) :
    (b &&& 0x0F).toUInt32 = 0 ↔ b = 0xE0 := by
  have := (toNat_payload b).2.1
  simp only [← UInt32.toNat_inj, ← UInt8.toNat_inj, UInt8.lt_iff_toNat_lt, UInt8.le_iff_toNat_le,
    UInt8.reduceToNat, UInt32.reduceToNat] at *
  omega

theorem and_07_eq_iff (b : UInt8) (low : 0xF0 ≤ b) (high : b < 0xF8) :
    (b &&& 0x07).toUInt32 = 0 ↔ b = 0xF0 := by
  have := (toNat_payload b).2.2.1
  simp only [← UInt32.toNat_inj, ← UInt8.toNat_inj, UInt8.lt_iff_toNat_lt, UInt8.le_iff_toNat_le,
    UInt8.reduceToNat, UInt32.reduceToNat] at *
  omega

/-! ## The look-ahead validator accepts well-formed UTF-8 -/

section Reference

variable {a : UInt8} {l : List UInt8}
  (step : ∀ l', l'.length < l.length → (refUtf8 l' = true ↔ WellFormed l'))

include step

theorem refUtf8_two (low : 0xC2 ≤ a) (high : a < 0xE0) :
    refUtf8 (a :: l) = true ↔ After a 0 l := by
  have lead : ¬ a < 0x80 ∧ a ≥ 0xC2 ∧ a ≤ 0xDF := by grind
  match l with
  | [] => simp [refUtf8, lead, After]
  | b :: rest =>
      have := step rest (by simp)
      simp [refUtf8, lead, After, Tails, and_C0_eq_iff, this, second_of_ne high]

theorem refUtf8_three (low : 0xE0 ≤ a) (high : a < 0xF0) :
    refUtf8 (a :: l) = true ↔ After a 1 l := by
  have lead : ¬ a < 0x80 ∧ ¬ a ≤ 0xDF ∧ a ≥ 0xE0 ∧ a ≤ 0xEF := by grind
  match l with
  | [] => simp [refUtf8, lead, After]
  | [b] => simp [refUtf8, lead, After, Tails]
  | b :: c :: rest =>
      have := step rest (by simp only [List.length_cons]; omega)
      simp only [refUtf8, lead, After, Tails, Second]
      have := and_C0_eq_iff b
      have := and_C0_eq_iff c
      grind

theorem refUtf8_four (low : 0xF0 ≤ a) (high : a < 0xF5) :
    refUtf8 (a :: l) = true ↔ After a 2 l := by
  have lead : ¬ a < 0x80 ∧ ¬ a ≤ 0xDF ∧ ¬ a ≤ 0xEF ∧ a ≥ 0xF0 ∧ a ≤ 0xF4 := by grind
  match l with
  | [] => simp [refUtf8, lead, After]
  | [b] => simp [refUtf8, lead, After, Tails]
  | [b, c] => simp [refUtf8, lead, After, Tails]
  | b :: c :: d :: rest =>
      have := step rest (by simp only [List.length_cons]; omega)
      simp only [refUtf8, lead, After, Tails, Second]
      have := and_C0_eq_iff b
      have := and_C0_eq_iff c
      have := and_C0_eq_iff d
      grind

end Reference

/-- **`ref_utf8` accepts exactly well-formed UTF-8.** -/
theorem refUtf8_iff (l : List UInt8) : refUtf8 l = true ↔ WellFormed l := by
  induction h : l.length using Nat.strongRecOn generalizing l with
  | ind m ih =>
      cases l with
      | nil => simp [refUtf8, WellFormed.nil]
      | cons a l =>
          have step : ∀ l', l'.length ≤ l.length → (refUtf8 l' = true ↔ WellFormed l') :=
            fun l' short => ih l'.length (by simp at h; omega) l' rfl
          have step' : ∀ l', l'.length < l.length → (refUtf8 l' = true ↔ WellFormed l') :=
            fun l' short => step l' short.le
          rw [wellFormed_cons_iff]
          by_cases ascii : a < 0x80
          · have := step l le_rfl
            rw [show refUtf8 (a :: l) = refUtf8 l by rw [refUtf8.eq_def]; simp [ascii]]
            grind
          by_cases isTwo : 0xC2 ≤ a ∧ a < 0xE0
          · rw [refUtf8_two step' isTwo.1 isTwo.2]
            grind
          by_cases isThree : 0xE0 ≤ a ∧ a < 0xF0
          · rw [refUtf8_three step' isThree.1 isThree.2]
            grind
          by_cases isFour : 0xF0 ≤ a ∧ a < 0xF5
          · rw [refUtf8_four step' isFour.1 isFour.2]
            grind
          · have refused : refUtf8 (a :: l) = false := by
              rw [refUtf8.eq_def]
              grind
            grind

/-! ## The state machine accepts well-formed UTF-8 -/

/-- `code_point` after one more continuation byte. -/
def accumulate (codePoint : UInt32) (byte : UInt8) : UInt32 :=
  (codePoint <<< 6) ||| (byte &&& 0x3F).toUInt32

/-- The tests made when the last byte of a sequence has been accumulated. -/
def CodePointOk (codePoint : Nat) : Prop :=
  ¬ (0xD800 ≤ codePoint ∧ codePoint ≤ 0xDFFF) ∧ codePoint ≤ 0x10FFFF ∧ 0x7F < codePoint

theorem toNat_accumulate (codePoint : UInt32) (byte : UInt8) (small : codePoint.toNat < 2 ^ 20) :
    (accumulate codePoint byte).toNat = codePoint.toNat * 64 + byte.toNat % 64 := by
  have shifted : (codePoint <<< 6).toNat = codePoint.toNat <<< 6 := by
    rw [UInt32.toNat_shiftLeft, show UInt32.toNat 6 % 32 = 6 from rfl]
    simp only [Nat.shiftLeft_eq]
    omega
  rw [accumulate, UInt32.toNat_or, (toNat_payload byte).2.2.2, shifted,
    ← Nat.shiftLeft_add_eq_or_of_lt (by omega : byte.toNat % 64 < 2 ^ 6), Nat.shiftLeft_eq]

@[simp] theorem isValidUtf8Loop_owed_nil (n : Nat) (codePoint : UInt32) :
    isValidUtf8Loop (n + 1) codePoint [] = false := by simp [isValidUtf8Loop]

theorem isValidUtf8Loop_owed (n : Nat) (codePoint : UInt32) (b : UInt8) (l : List UInt8) :
    isValidUtf8Loop (n + 2) codePoint (b :: l) = true ↔
      Utf8.Cont b ∧ isValidUtf8Loop (n + 1) (accumulate codePoint b) l = true := by
  rw [isValidUtf8Loop.eq_def]
  have := shiftRight_six_iff b
  by_cases cont : Utf8.Cont b <;> simp [this, cont, accumulate]

theorem isValidUtf8Loop_last (codePoint : UInt32) (b : UInt8) (l : List UInt8) :
    isValidUtf8Loop 1 codePoint (b :: l) = true ↔
      Utf8.Cont b ∧ CodePointOk (accumulate codePoint b).toNat ∧
        isValidUtf8Loop 0 (accumulate codePoint b) l = true := by
  rw [isValidUtf8Loop.eq_def]
  have := shiftRight_six_iff b
  by_cases cont : Utf8.Cont b
  · simp only [cont, accumulate, CodePointOk]
    generalize (codePoint <<< 6 ||| (b &&& 63).toUInt32) = value
    simp only [ge_iff_le, gt_iff_lt, UInt32.le_iff_toNat_le, UInt32.lt_iff_toNat_lt]
    norm_num
    grind
  · simp [this, cont]

section Machine

variable {a : UInt8} {l : List UInt8}
  (step : ∀ codePoint l', l'.length < l.length →
    (isValidUtf8Loop 0 codePoint l' = true ↔ WellFormed l'))

include step

theorem isValidUtf8Loop_two (codePoint : UInt32) (low : 0xC0 ≤ a) (high : a < 0xE0) :
    isValidUtf8Loop 0 codePoint (a :: l) = true ↔ 0xC2 ≤ a ∧ After a 0 l := by
  have seven : ¬ a >>> 7 = 0x00 := by rw [shiftRight_seven_iff]; grind
  have five : a >>> 5 = 0x06 := (shiftRight_five_iff a).2 ⟨low, high⟩
  have value := (toNat_payload a).1
  rw [isValidUtf8Loop.eq_def]
  simp only [beq_iff_eq, seven, five, and_1F_lt_iff a low high]
  cases l with
  | nil => simp [After]
  | cons b rest =>
      have ok : 0xC2 ≤ a → CodePointOk (accumulate (a &&& 0x1F).toUInt32 b).toNat := by
        rw [toNat_accumulate _ _ (by omega), value]
        simp only [UInt8.le_iff_toNat_le, UInt8.lt_iff_toNat_lt, UInt8.reduceToNat,
          CodePointOk] at *
        omega
      have tail := isValidUtf8Loop_last (a &&& 0x1F).toUInt32 b rest
      have rest := step (accumulate (a &&& 0x1F).toUInt32 b) rest (by simp)
      have second : Second a b := second_of_ne high
      simp only [After, Tails]
      grind

theorem isValidUtf8Loop_three (codePoint : UInt32) (low : 0xE0 ≤ a) (high : a < 0xF0) :
    isValidUtf8Loop 0 codePoint (a :: l) = true ↔ After a 1 l := by
  have seven : ¬ a >>> 7 = 0x00 := by rw [shiftRight_seven_iff]; grind
  have five : ¬ a >>> 5 = 0x06 := by rw [shiftRight_five_iff]; grind
  have four : a >>> 4 = 0x0E := (shiftRight_four_iff a).2 ⟨low, high⟩
  have value := (toNat_payload a).2.1
  rw [isValidUtf8Loop.eq_def]
  simp only [beq_iff_eq, seven, five, four]
  match l with
  | [] => simp [After]
  | [b] =>
      have tail := isValidUtf8Loop_owed 0 (a &&& 0x0F).toUInt32 b []
      simp only [After, Tails]
      grind [isValidUtf8Loop_owed_nil]
  | b :: c :: rest =>
      have overlong := and_20_eq_iff b
      have lead := and_0F_eq_iff a low high
      have tail := isValidUtf8Loop_owed 0 (a &&& 0x0F).toUInt32 b (c :: rest)
      have last := isValidUtf8Loop_last (accumulate (a &&& 0x0F).toUInt32 b) c rest
      have ok : Utf8.Cont b → (CodePointOk
          (accumulate (accumulate (a &&& 0x0F).toUInt32 b) c).toNat ∧ ¬ (a = 0xE0 ∧ b < 0xA0) ↔
            Second a b) := by
        intro cont
        rw [toNat_accumulate _ _ (by rw [toNat_accumulate _ _ (by omega)]; omega),
          toNat_accumulate _ _ (by omega), value]
        simp only [Utf8.Cont, UInt8.le_iff_toNat_le, UInt8.lt_iff_toNat_lt, ← UInt8.toNat_inj,
          UInt8.reduceToNat, CodePointOk, Second] at *
        omega
      have rest := step (accumulate (accumulate (a &&& 0x0F).toUInt32 b) c) rest
        (by simp only [List.length_cons]; omega)
      simp only [After, Tails]
      grind

theorem isValidUtf8Loop_four (codePoint : UInt32) (low : 0xF0 ≤ a) (high : a < 0xF8) :
    isValidUtf8Loop 0 codePoint (a :: l) = true ↔ a < 0xF5 ∧ After a 2 l := by
  have seven : ¬ a >>> 7 = 0x00 := by rw [shiftRight_seven_iff]; grind
  have five : ¬ a >>> 5 = 0x06 := by rw [shiftRight_five_iff]; grind
  have four : ¬ a >>> 4 = 0x0E := by rw [shiftRight_four_iff]; grind
  have three : a >>> 3 = 0x1E := (shiftRight_three_iff a).2 ⟨low, high⟩
  have value := (toNat_payload a).2.2.1
  rw [isValidUtf8Loop.eq_def]
  simp only [beq_iff_eq, seven, five, four, three]
  match l with
  | [] => simp [After]
  | [b] =>
      have tail := isValidUtf8Loop_owed 1 (a &&& 0x07).toUInt32 b []
      simp only [After, Tails]
      grind [isValidUtf8Loop_owed_nil]
  | [b, c] =>
      have tail := isValidUtf8Loop_owed 1 (a &&& 0x07).toUInt32 b [c]
      have tail₂ := isValidUtf8Loop_owed 0 (accumulate (a &&& 0x07).toUInt32 b) c []
      simp only [After, Tails]
      grind [isValidUtf8Loop_owed_nil]
  | b :: c :: d :: rest =>
      have overlong := and_30_eq_iff b
      have lead := and_07_eq_iff a low high
      have tail := isValidUtf8Loop_owed 1 (a &&& 0x07).toUInt32 b (c :: d :: rest)
      have tail₂ := isValidUtf8Loop_owed 0 (accumulate (a &&& 0x07).toUInt32 b) c (d :: rest)
      have last := isValidUtf8Loop_last
        (accumulate (accumulate (a &&& 0x07).toUInt32 b) c) d rest
      have ok : Utf8.Cont b → (CodePointOk (accumulate (accumulate
          (accumulate (a &&& 0x07).toUInt32 b) c) d).toNat ∧ ¬ (a = 0xF0 ∧ b < 0x90) ↔
            a < 0xF5 ∧ Second a b) := by
        intro cont
        have first := toNat_accumulate (a &&& 0x07).toUInt32 b (by omega)
        have middle := toNat_accumulate (accumulate (a &&& 0x07).toUInt32 b) c (by omega)
        rw [toNat_accumulate _ _ (by omega), middle, first, value]
        simp only [Utf8.Cont, UInt8.le_iff_toNat_le, UInt8.lt_iff_toNat_lt, ← UInt8.toNat_inj,
          UInt8.reduceToNat, CodePointOk, Second] at *
        omega
      have rest := step (accumulate (accumulate (accumulate (a &&& 0x07).toUInt32 b) c) d) rest
        (by simp only [List.length_cons]; omega)
      simp only [After, Tails]
      grind

end Machine

/-- Between sequences the accumulated code point plays no part. -/
theorem isValidUtf8Loop_iff (codePoint : UInt32) (l : List UInt8) :
    isValidUtf8Loop 0 codePoint l = true ↔ WellFormed l := by
  induction h : l.length using Nat.strongRecOn generalizing codePoint l with
  | ind m ih =>
      cases l with
      | nil => simp [isValidUtf8Loop, WellFormed.nil]
      | cons a l =>
          have step : ∀ codePoint l', l'.length ≤ l.length →
              (isValidUtf8Loop 0 codePoint l' = true ↔ WellFormed l') :=
            fun codePoint l' short => ih l'.length (by simp at h; omega) codePoint l' rfl
          have step' : ∀ codePoint l', l'.length < l.length →
              (isValidUtf8Loop 0 codePoint l' = true ↔ WellFormed l') :=
            fun codePoint l' short => step codePoint l' short.le
          rw [wellFormed_cons_iff]
          by_cases ascii : a < 0x80
          · have := step codePoint l le_rfl
            rw [show isValidUtf8Loop 0 codePoint (a :: l) = isValidUtf8Loop 0 codePoint l by
              rw [isValidUtf8Loop.eq_def]; simp [(shiftRight_seven_iff a).2 ascii]]
            grind
          by_cases isTwo : 0xC0 ≤ a ∧ a < 0xE0
          · rw [isValidUtf8Loop_two step' codePoint isTwo.1 isTwo.2]
            grind
          by_cases isThree : 0xE0 ≤ a ∧ a < 0xF0
          · rw [isValidUtf8Loop_three step' codePoint isThree.1 isThree.2]
            grind
          by_cases isFour : 0xF0 ≤ a ∧ a < 0xF8
          · rw [isValidUtf8Loop_four step' codePoint isFour.1 isFour.2]
            grind
          · have refused : isValidUtf8Loop 0 codePoint (a :: l) = false := by
              rw [isValidUtf8Loop.eq_def]
              have := shiftRight_seven_iff a
              have := shiftRight_five_iff a
              have := shiftRight_four_iff a
              have := shiftRight_three_iff a
              grind
            grind

/-- **`is_valid_utf8` accepts exactly well-formed UTF-8.** -/
theorem isValidUtf8_bytes_iff (data : List UInt8) :
    isValidUtf8 (.bytes data) = true ↔ WellFormed data := isValidUtf8Loop_iff 0 data

/-! ## The overloads -/

/-- The bytes of a C string: those in front of the first zero byte. -/
def cString (memory : List UInt8) : List UInt8 := memory.takeWhile (· != 0)

/-- `is_valid_utf8(const char *s)`, where `none` is the null pointer. -/
def isValidUtf8CString : Option (List UInt8) → Bool
  | none => false
  | some memory => isValidUtf8 (.bytes (cString memory))

/-- `is_valid_utf8(const char *s, size_t n)`, and the one on `char *` that calls it. -/
def isValidUtf8Chars (s : Buffer) : Bool :=
  let nullData := match s with
    | .null n => n != 0
    | .bytes _ => false
  !nullData && isValidUtf8 s

/-- **`is_valid_utf8` accepts exactly the encodings of lists of Unicode scalar
values.**  The overloads ask the same of the bytes they stand for: a null
pointer stands for no bytes when the size is 0, and for no string otherwise. -/
theorem isValidUtf8_iff_encodes :
    (∀ data, isValidUtf8 (.bytes data) = true ↔
      ∃ chars : List Char, chars.flatMap String.utf8EncodeChar = data) ∧
    (∀ data, isValidUtf8Chars (.bytes data) = true ↔
      ∃ chars : List Char, chars.flatMap String.utf8EncodeChar = data) ∧
    (∀ n, isValidUtf8Chars (.null n) = true ↔ n = 0) ∧
    (∀ memory, isValidUtf8CString (some memory) = true ↔
      ∃ chars : List Char, chars.flatMap String.utf8EncodeChar = cString memory) ∧
    isValidUtf8CString none = false := by
  have bytes (data : List UInt8) : isValidUtf8 (.bytes data) = true ↔
      ∃ chars : List Char, chars.flatMap String.utf8EncodeChar = data :=
    (isValidUtf8_bytes_iff data).trans (wellFormed_iff_encodes data)
  refine ⟨bytes, fun data => ?_, fun n => ?_, fun memory => bytes (cString memory), rfl⟩
  · simpa [isValidUtf8Chars] using bytes data
  · simp [isValidUtf8Chars, isValidUtf8]

end Refsapi
