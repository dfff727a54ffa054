/-
# Cvars.Convert -- numbers that are cut to an `int`

A cvar of a number is converted in three places, each from its own reading of the string:
`check_range` cuts what `safe_stod` reads of the trimmed string, `copy_bind` what it reads of
the string as it stands, and `get` the `float` of the engine.  None of them looks whether an
`int` can hold it, and `check_range` cuts before it compares: 3000000000 becomes the least
`int`, and is below every minimum.

`converts_iff` says for which numbers all three are defined and the upper bound is set.
-/
import Refsapi.Cvars.Range

namespace Refsapi.Cvars

set_option autoImplicit false

variable {m : Tracked} {cvar : Cvar} {a : Bool} {q : ℚ}

/-! ## The conversions -/

/-- `get` of a record: what it returns, and the cells that it writes. -/
def Tracked.get (m : Tracked) (cvar : Cvar) (type : CvarType) (ptrLen : Nat) : Cell × List Cell :=
  match type with
  | .none => (0, [])
  | .num => (.ofInt 32 cvar.value.toInt32, [])
  | .flt => (cvar.value.bits, [])
  | .str =>
      let s := wstos m.value
      let result := min ptrLen s.length
      (.ofNat 32 result, amxString s (result + 1))
  | .flg => (readFlags (wstos m.value), [])

/-- What `check_range` converts. -/
def rangeArg (x : Fp) : Fp := if (Fp.fin false 0).le x then x else x.neg

/-- What `copy_bind` converts. -/
def copyArg (string : Text) : Fp := (safeStod string).getD (.fin false 0)

/-- What is converted to `int` for a cvar of a number, by `check_range`, `copy_bind` and `get`. -/
def conversions (cvar : Cvar) (x : Fp) : List Fp := [rangeArg x, copyArg cvar.string, cvar.value]

/-- Each conversion is defined, and a number above the upper bound is clamped to it. -/
structure Tracked.Converts (m : Tracked) (cvar : Cvar) (x : Fp) : Prop where
  fits : ∀ y ∈ conversions cvar x, y.FitsInt32
  clamps : m.hasMax = true → m.maxVal.FitsInt32 → m.maxVal.lt (.ofInt x.trunc) = true →
    m.verdict cvar.string = .float m.maxVal

/-- A number is strictly between `-2 ^ 31` and `2 ^ 31`, and the engine has no `float` for it
that is `2 ^ 31`; nor is it above the upper bound and below the lower one. -/
structure Tracked.Small (m : Tracked) (cvar : Cvar) (x : Fp) : Prop where
  above : (Fp.ofInt (-2 ^ 31)).lt x = true
  below : x.lt (.ofInt (2 ^ 31)) = true
  single : (cvar.value = .fin false 0 ∨ cvar.value = .fin true 0) ∨
    x.lt (.ofInt (2 ^ 31 - 64)) = true
  ordered : ¬ (m.hasMax = true ∧ m.maxVal.FitsInt32 ∧ m.maxVal.lt (.ofInt x.trunc) = true ∧
    m.hasMin = true ∧ (Fp.ofInt x.trunc).lt m.minVal = true)

/-! ## What they are cut to -/

theorem rangeArg_fits (nonneg : 0 ≤ q) : (rangeArg (.fin a q)).FitsInt32 ↔ q < 2 ^ 31 := by
  unfold rangeArg
  split
  · next positive =>
      rw [Fp.fitsInt32_iff nonneg]
      rcases (Fp.zero_le_iff nonneg).1 positive with rfl | rfl
      · rfl
      · cases a <;> norm_num
  · next negative =>
      rw [Fp.zero_le_iff nonneg, not_or, Bool.not_eq_false] at negative
      rw [negative.1, Fp.neg, Fp.fitsInt32_iff nonneg]
      rfl

/-- The difference from zero is cut, with its sign. -/
theorem checked_num {x : Fp} (typed : m.type = .num) (nonneg : 0 ≤ q) (isX : x = .fin a q)
    (fits : (rangeArg x).FitsInt32) : m.checked x = .ofInt x.trunc := by
  subst isX
  have cut := Fp.toInt32_of_fits fits
  have small := (rangeArg_fits nonneg).1 fits
  unfold rangeArg at cut
  simp only [Tracked.checked, if_pos typed]
  cases sign : (Fp.fin false 0).le (.fin a q) with
  | true =>
      rw [sign, if_pos rfl] at cut
      rw [if_pos rfl, cut]
  | false =>
      rw [sign, if_neg Bool.false_ne_true] at cut
      rw [if_neg Bool.false_ne_true, cut]
      have negative : a = true := by
        by_contra positive
        rw [(Fp.zero_le_iff nonneg).2 (.inl (Bool.eq_false_of_not_eq_true positive))] at sign
        cases sign
      subst negative
      have low : 0 ≤ q.floor := Rat.le_floor_iff.2 (by simpa using nonneg)
      have high : q.floor < 2 ^ 31 := Rat.floor_lt_iff.2 (by push_cast; exact small)
      show Fp.ofInt ((-q.floor).bmod (2 ^ 32)) = Fp.ofInt (-q.floor)
      rw [Int.bmod_eq_of_le (by omega) (by omega)]

/-! ## Where they are defined -/

/-- `copy_bind` reads the number or nothing. -/
theorem copyArg_fits {string : Text} {x : Fp} (isNumber : number string = some x)
    (fits : x.FitsInt32) : (copyArg string).FitsInt32 := by
  unfold number at isNumber
  split at isNumber
  · next trimmed =>
      rcases safeStod_trim trimmed with hidden | same
      · rw [copyArg, hidden]
        decide
      · rw [copyArg, same, isNumber]
        exact fits
  · cases isNumber

theorem verdict_of_number {string : Text} {x : Fp} (typed : m.type = .num)
    (isNumber : number string = some x) : m.verdict string =
      if m.hasMin && (m.checked x).lt m.minVal then .float m.minVal
      else if m.hasMax && m.maxVal.lt (m.checked x) then .float m.maxVal
      else .stands := by
  unfold number at isNumber
  split at isNumber
  · next trimmed => simp [Tracked.verdict, typed, trimmed, isNumber]
  · cases isNumber

theorem number_fin {string : Text} {x : Fp} (isNumber : number string = some x) :
    ∃ a q, 0 ≤ q ∧ x = .fin a q := by
  unfold number at isNumber
  split at isNumber
  · next trimmed => exact safeStod_fin trimmed isNumber
  · cases isNumber

/-- **When the conversions of a number are defined.**  For a string that is a number, all three
are, and a number above the upper bound is clamped to it, if and only if the number is strictly
between `-2 ^ 31` and `2 ^ 31`, its `float` is not rounded up to `2 ^ 31`, and the bounds do
not cross at it. -/
theorem converts_iff (m : Tracked) (cvar : Cvar) (x : Fp) (typed : m.type = .num)
    (isNumber : number cvar.string = some x)
    (engine : cvar.value = x.single ∨ cvar.value = .fin false 0 ∨ cvar.value = .fin true 0) :
    m.Converts cvar x ↔ m.Small cvar x := by
  obtain ⟨a, q, nonneg, rfl⟩ := number_fin isNumber
  have verdict := verdict_of_number typed isNumber
  constructor
  · rintro ⟨fits, clamps⟩
    simp only [conversions, List.forall_mem_cons] at fits
    obtain ⟨range, -, get, -⟩ := fits
    have small := (rangeArg_fits nonneg).1 range
    obtain ⟨above, below⟩ := (Fp.between_iff nonneg).2 small
    refine ⟨above, below, ?_, ?_⟩
    · rcases engine with isSingle | zero
      · rw [isSingle, Fp.single_fits nonneg small] at get
        exact .inr get
      · exact .inl zero
    · rintro ⟨hasMax, maxFits, aboveMax, hasMin, belowMin⟩
      have clamped := clamps hasMax maxFits aboveMax
      rw [verdict, checked_num typed nonneg rfl range, hasMin, belowMin] at clamped
      have same : m.minVal = m.maxVal := Verdict.float.inj clamped
      rw [same, Fp.lt_asymm_ofInt aboveMax] at belowMin
      cases belowMin
  · rintro ⟨above, below, isSingle, ordered⟩
    have small := (Fp.between_iff nonneg).1 ⟨above, below⟩
    have range := (rangeArg_fits (a := a) nonneg).2 small
    have fits : (Fp.fin a q).FitsInt32 := by
      rw [Fp.fitsInt32_iff nonneg]
      cases a with
      | true => exact small.trans (lt_add_one _)
      | false => exact small
    refine ⟨?_, fun hasMax maxFits aboveMax => ?_⟩
    · simp only [conversions, List.forall_mem_cons]
      refine ⟨range, copyArg_fits isNumber fits, ?_, fun _ none => by cases none⟩
      rcases isSingle with (zero | zero) | noTie
      · rw [zero]
        decide
      · rw [zero]
        decide
      rcases engine with isEngine | zero | zero
      · rw [isEngine, Fp.single_fits nonneg small]
        exact noTie
      · rw [zero]
        decide
      · rw [zero]
        decide
    · rw [verdict, checked_num typed nonneg rfl range, hasMax, aboveMax, if_neg]
      · rfl
      · intro crosses
        obtain ⟨hasMin, belowMin⟩ := Bool.and_eq_true_iff.1 crosses
        exact ordered ⟨hasMax, maxFits, aboveMax, hasMin, belowMin⟩

/-- Numbers up to 100. -/
def upTo100 : Tracked :=
  { name := ['x'], value := ['1'], desc := [], hasMin := true, hasMax := true,
    minVal := .fin false 0, maxVal := .fin false 100, type := .num, flags := 0 }

/-- 200 is clamped to 100. -/
theorem converts_iff_above :
    upTo100.Converts ⟨[0x78], [0x32, 0x30, 0x30], .fin false 200, 0⟩ (.fin false 200) :=
  (converts_iff upTo100 ⟨[0x78], [0x32, 0x30, 0x30], .fin false 200, 0⟩ (.fin false 200) rfl
    (by decide +kernel) (.inl (by decide +kernel))).2
    ⟨by decide +kernel, by decide +kernel, .inr (by decide +kernel), by decide +kernel⟩

/-- 3000000000 is cut to the least `int`, and clamped to 0. -/
theorem not_always_converts : ¬ ∀ (m : Tracked) (cvar : Cvar) (x : Fp), m.type = .num →
    number cvar.string = some x →
    (cvar.value = x.single ∨ cvar.value = .fin false 0 ∨ cvar.value = .fin true 0) →
      m.Converts cvar x := by
  intro always
  have converts := always upTo100
    ⟨[0x78], [0x33, 0x30, 0x30, 0x30, 0x30, 0x30, 0x30, 0x30, 0x30, 0x30],
      .fin false 3000000000, 0⟩
    (.fin false 3000000000) rfl (by decide +kernel) (.inl (by decide +kernel))
  have clamped := converts.clamps rfl (by decide +kernel) (by decide +kernel)
  revert clamped
  decide +kernel

end Refsapi.Cvars
