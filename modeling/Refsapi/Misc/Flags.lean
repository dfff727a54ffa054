/-
# Misc.Flags -- letters as bits

`UTIL_GetFlags` writes one letter for each of the low 26 bits, and `UTIL_ReadFlags` shifts a one
by the distance of each character from `a`.  So a word comes back with these bits
(`readFlags_getFlags`), and a text is read as it should be if and only if it is letters
(`readFlags_iff`): the reader does not look whether a character is one, and `check_range`
lets every text of a cvar of flags through.
-/
import Refsapi.Misc.Number

namespace Refsapi

set_option autoImplicit false

variable {b : UInt8} {s : Text}

/-! ## The characters -/

/-- What `UTIL_ReadFlags` shifts by, as a `char` has a sign. -/
def flagShift (b : UInt8) : Int := b.toBitVec.toInt - 0x61

/-- `a` to `z`. -/
def isFlag (b : UInt8) : Bool := 0x61 ≤ b && b ≤ 0x7A

/-- Every shift is defined, and only the letters contribute bits. -/
structure ReadsLetters (s : Text) : Prop where
  shifts : ∀ b ∈ s, 0 ≤ flagShift b ∧ flagShift b ≤ 31
  letters : readFlags s = readFlags (s.filter isFlag)

/-- The bit that a character sets. -/
def bitOf (b : UInt8) : Nat := (b.toNat + 0x100 - 0x61) % 32

theorem getLsbD_foldl (flags : Cell) (s : Text) (i : Nat) (bound : i < 32) :
    (s.foldl (fun flags b => flags ||| (1#32 <<< bitOf b)) flags).getLsbD i =
      (flags.getLsbD i || s.any fun b => bitOf b == i) := by
  induction s generalizing flags with
  | nil => simp
  | cons b rest ih =>
      have bit : (1#32 <<< bitOf b).getLsbD i = (bitOf b == i) := by
        have low : bitOf b < 32 := Nat.mod_lt _ (by decide)
        rw [BitVec.getLsbD_shiftLeft, BitVec.getLsbD_one, Bool.eq_iff_iff]
        simp only [bound, Bool.and_eq_true, Bool.not_eq_eq_eq_not, Bool.not_true,
          decide_eq_false_iff_not, decide_eq_true_eq, beq_iff_eq, true_and]
        omega
      rw [List.foldl_cons, ih, List.any_cons, BitVec.getLsbD_or, bit, Bool.or_assoc]

/-- A bit is set if a character sets it. -/
theorem getLsbD_readFlags (s : Text) {i : Nat} (bound : i < 32) :
    (readFlags s).getLsbD i = s.any fun b => bitOf b == i := by
  have bits := getLsbD_foldl 0 s i bound
  rw [show (0 : Cell).getLsbD i = false from BitVec.getLsbD_zero, Bool.false_or] at bits
  exact bits

/-! ## The round trip -/

theorem bitOf_letter {i : Nat} (bound : i < 26) : bitOf (.ofNat (0x61 + i)) = i := by
  unfold bitOf
  rw [UInt8.toNat_ofNat']
  omega

/-- The low 26 bits come back. -/
theorem readFlags_getFlags (a : Cell) : readFlags (getFlags a) = a &&& 0x3FFFFFF#32 := by
  apply BitVec.eq_of_getLsbD_eq
  intro i bound
  have mask : (0x3FFFFFF#32).getLsbD i = decide (i < 26) := by
    rw [show (0x3FFFFFF#32) = BitVec.ofNat 32 (2 ^ 26 - 1) from rfl, BitVec.getLsbD_ofNat,
      Nat.testBit_two_pow_sub_one]
    simp [bound]
  rw [getLsbD_readFlags _ bound, BitVec.getLsbD_and, mask, Bool.eq_iff_iff]
  simp only [getFlags, List.any_eq_true, List.mem_filterMap, List.mem_range, Bool.and_eq_true,
    decide_eq_true_eq, beq_iff_eq]
  constructor
  · rintro ⟨b, ⟨j, low, written⟩, isBit⟩
    split at written
    · next set =>
        cases written
        rw [bitOf_letter low] at isBit
        subst isBit
        exact ⟨set, low⟩
    · cases written
  · rintro ⟨set, low⟩
    exact ⟨.ofNat (0x61 + i), ⟨i, low, if_pos set⟩, bitOf_letter low⟩

/-! ## Which texts are read as letters -/

theorem isFlag_iff : isFlag b = true ↔ 0x61 ≤ b.toNat ∧ b.toNat ≤ 0x7A := by
  simp [isFlag, UInt8.le_iff_toNat_le]

theorem flagShift_eq :
    flagShift b = if b.toNat < 0x80 then (b.toNat : Int) - 0x61 else (b.toNat : Int) - 0x161 := by
  have bound := b.toNat_lt
  rw [flagShift, BitVec.toInt_eq_toNat_cond, UInt8.toNat_toBitVec]
  split_ifs <;> omega

theorem flagShift_letter (letter : isFlag b = true) : 0 ≤ flagShift b ∧ flagShift b ≤ 31 := by
  rw [isFlag_iff] at letter
  rw [flagShift_eq]
  split <;> omega

theorem bitOf_lt (letter : isFlag b = true) : bitOf b < 26 := by
  rw [isFlag_iff] at letter
  unfold bitOf
  omega

/-- The characters behind `z` are in reach of the shift, and set a bit that no letter sets. -/
theorem bitOf_other (other : isFlag b = false) (defined : 0 ≤ flagShift b) : 26 ≤ bitOf b := by
  have outside : ¬ (0x61 ≤ b.toNat ∧ b.toNat ≤ 0x7A) := by
    rw [← isFlag_iff, other]
    exact Bool.false_ne_true
  have bound := b.toNat_lt
  rw [flagShift_eq] at defined
  unfold bitOf
  split at defined <;> omega

/-- **When a text is read as letters.**  A word that is written and read again keeps its low 26
bits; and of a text every shift is defined and only letters contribute, if and only if it has
nothing but letters. -/
theorem readFlags_iff (a : Cell) (s : Text) :
    readFlags (getFlags a) = a &&& 0x3FFFFFF#32 ∧
      (ReadsLetters s ↔ ∀ b ∈ s, isFlag b = true) := by
  refine ⟨readFlags_getFlags a, ?_, ?_⟩
  · rintro ⟨shifts, letters⟩ b member
    by_contra other
    have other : isFlag b = false := Bool.eq_false_of_not_eq_true other
    have high := bitOf_other other (shifts b member).1
    have bound : bitOf b < 32 := Nat.mod_lt _ (by decide)
    have set : (readFlags s).getLsbD (bitOf b) = true := by
      rw [getLsbD_readFlags s bound, List.any_eq_true]
      exact ⟨b, member, beq_self_eq_true _⟩
    rw [letters, getLsbD_readFlags _ bound, List.any_eq_true] at set
    obtain ⟨c, inLetters, same⟩ := set
    have low := bitOf_lt (List.mem_filter.1 inLetters).2
    have same : bitOf c = bitOf b := by simpa using same
    omega
  · intro letters
    exact ⟨fun b member => flagShift_letter (letters b member),
      by rw [List.filter_eq_self.2 letters]⟩

/-- The digit 0 is shifted by -49. -/
theorem not_always_letters : ¬ ∀ s : Text, (0 : UInt8) ∉ s → ReadsLetters s := by
  intro always
  have shifts := (always [0x30] (by decide)).shifts 0x30 List.mem_cons_self
  exact absurd shifts (by decide)

end Refsapi
