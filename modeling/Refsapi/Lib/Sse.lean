/-
# Lib.Sse -- sixteen byte lanes

The byte-wise SSE2 operations, lane by lane, as their documentation states them.
Comparisons are signed; `movemaskEpi8` collects the top bits of the lanes, lane
`j` in bit `j`.  The lemmas reduce a mask to what it says about one lane, which
is all a proof about a mask algorithm needs.
-/
import Mathlib.Data.FinEnum

namespace Sse

set_option autoImplicit false

/-- A 128-bit register as byte lanes, lane 0 the lowest address. -/
def M128i : Type := Fin 16 → UInt8

/-- `_mm_set1_epi8` -/
def set1Epi8 (c : UInt8) : M128i := fun _ => c

/-- `_mm_and_si128` -/
def andSi128 (a b : M128i) : M128i := fun j => a j &&& b j

/-- `_mm_or_si128` -/
def orSi128 (a b : M128i) : M128i := fun j => a j ||| b j

/-- `_mm_cmpeq_epi8` -/
def cmpeqEpi8 (a b : M128i) : M128i := fun j => if a j = b j then 0xFF else 0x00

/-- `_mm_cmpgt_epi8`, on signed bytes. -/
def cmpgtEpi8 (a b : M128i) : M128i := fun j => if (b j).toInt8 < (a j).toInt8 then 0xFF else 0x00

/-- `_mm_cmplt_epi8`, on signed bytes. -/
def cmpltEpi8 (a b : M128i) : M128i := fun j => if (a j).toInt8 < (b j).toInt8 then 0xFF else 0x00

/-- The 16-bit lane that holds byte lane `j`. -/
def wordOf (v : M128i) (j : Fin 16) : UInt16 :=
  (v ⟨2 * (j / 2), by omega⟩).toUInt16 ||| ((v ⟨2 * (j / 2) + 1, by omega⟩).toUInt16 <<< 8)

/-- `_mm_srli_epi16`: each 16-bit lane is shifted right on its own. -/
def srliEpi16 (v : M128i) (n : UInt16) : M128i := fun j =>
  let word := wordOf v j >>> n
  if j.val % 2 = 0 then word.toUInt8 else (word >>> 8).toUInt8

/-- `_mm_srli_si128`: the whole register is shifted right by bytes. -/
def srliSi128 (v : M128i) (n : Nat) : M128i := fun j =>
  if h : j.val + n < 16 then v ⟨j + n, h⟩ else 0x00

/-- `_mm_movemask_epi8` -/
def movemaskEpi8 (v : M128i) : BitVec 32 :=
  (BitVec.ofBoolListLE (List.ofFn fun j => (v j).toBitVec.msb)).setWidth 32

/-! ## One lane at a time -/

theorem msb_eq_decide (b : UInt8) : b.toBitVec.msb = decide (0x80 ≤ b) := by
  simp [BitVec.msb_eq_decide, UInt8.le_iff_toNat_le]

theorem getLsbD_movemask_lt (v : M128i) {j : Nat} (low : j < 16) :
    (movemaskEpi8 v).getLsbD j = decide (0x80 ≤ v ⟨j, low⟩) := by
  have wide : j < 32 := by omega
  simp only [movemaskEpi8, BitVec.getLsbD_setWidth, BitVec.getLsbD_ofBoolListLE, msb_eq_decide,
    List.getD_eq_getElem?_getD, List.getElem?_ofFn, wide, low]
  simp

theorem getLsbD_movemask_of_ge (v : M128i) {j : Nat} (high : 16 ≤ j) :
    (movemaskEpi8 v).getLsbD j = false := by
  simp [movemaskEpi8, Nat.not_lt.2 high]

@[simp] theorem getLsbD_movemask (v : M128i) (j : Fin 16) :
    (movemaskEpi8 v).getLsbD j = decide (0x80 ≤ v j) := getLsbD_movemask_lt v j.isLt

@[simp] theorem top_cmpeqEpi8 (a b : M128i) (j : Fin 16) :
    0x80 ≤ cmpeqEpi8 a b j ↔ a j = b j := by
  by_cases h : a j = b j <;> simp [cmpeqEpi8, h]

@[simp] theorem top_cmpgtEpi8 (a b : M128i) (j : Fin 16) :
    0x80 ≤ cmpgtEpi8 a b j ↔ (b j).toInt8 < (a j).toInt8 := by
  by_cases h : (b j).toInt8 < (a j).toInt8 <;> simp [cmpgtEpi8, h]

@[simp] theorem top_cmpltEpi8 (a b : M128i) (j : Fin 16) :
    0x80 ≤ cmpltEpi8 a b j ↔ (a j).toInt8 < (b j).toInt8 := by
  by_cases h : (a j).toInt8 < (b j).toInt8 <;> simp [cmpltEpi8, h]

@[simp] theorem top_orSi128 (a b : M128i) (j : Fin 16) :
    0x80 ≤ orSi128 a b j ↔ 0x80 ≤ a j ∨ 0x80 ≤ b j := by
  have msb := BitVec.msb_or (x := (a j).toBitVec) (y := (b j).toBitVec)
  rw [← UInt8.toBitVec_or] at msb
  simp only [msb_eq_decide] at msb
  rw [Bool.eq_iff_iff] at msb
  simpa only [orSi128, Bool.or_eq_true, decide_eq_true_eq] using msb

@[simp] theorem set1Epi8_apply (c : UInt8) (j : Fin 16) : set1Epi8 c j = c := rfl

@[simp] theorem andSi128_apply (a b : M128i) (j : Fin 16) : andSi128 a b j = a j &&& b j := rfl

/-- A mask is nonzero when some bit of it is set. -/
theorem ne_zero_iff {n : Nat} (m : BitVec n) : m ≠ 0 ↔ ∃ j, m.getLsbD j = true := by
  constructor
  · intro nonzero
    by_contra none_
    apply nonzero
    apply BitVec.eq_of_getLsbD_eq
    intro j _
    simpa using fun set => none_ ⟨j, set⟩
  · rintro ⟨j, set⟩ rfl
    simp at set

/-- The top bits of a register, as a predicate on lanes. -/
theorem movemask_ne_zero_iff (v : M128i) : movemaskEpi8 v ≠ 0 ↔ ∃ j, 0x80 ≤ v j := by
  rw [ne_zero_iff]
  constructor
  · rintro ⟨j, set⟩
    by_cases low : j < 16
    · exact ⟨⟨j, low⟩, by simpa using (getLsbD_movemask v ⟨j, low⟩).symm.trans set⟩
    · rw [getLsbD_movemask_of_ge v (by omega)] at set
      cases set
  · rintro ⟨j, top⟩
    exact ⟨j, by simpa using top⟩

/-! ## Shifts -/

theorem toNat_wordOf (v : M128i) (j : Fin 16) :
    (wordOf v j).toNat = (v ⟨2 * (j / 2), by omega⟩).toNat +
      (v ⟨2 * (j / 2) + 1, by omega⟩).toNat * 256 := by
  have low := (v ⟨2 * (j / 2), by omega⟩).toNat_lt
  have high := (v ⟨2 * (j / 2) + 1, by omega⟩).toNat_lt
  rw [wordOf, UInt16.toNat_or, UInt16.toNat_shiftLeft, UInt8.toNat_toUInt16,
    UInt8.toNat_toUInt16, show UInt16.toNat 8 % 16 = 8 from rfl,
    Nat.mod_eq_of_lt (by rw [Nat.shiftLeft_eq]; omega), Nat.or_comm,
    ← Nat.shiftLeft_add_eq_or_of_lt low, Nat.shiftLeft_eq]
  omega

theorem lane_eq (v : M128i) (j : Fin 16) :
    v j = if j.val % 2 = 0 then v ⟨2 * (j / 2), by omega⟩
      else v ⟨2 * (j / 2) + 1, by omega⟩ := by
  split <;> congr 1 <;> apply Fin.ext <;> simp <;> omega

/-- After the mask `0x0F` a 16-bit shift by four leaves the high nibble of each
byte: what crosses from the upper byte is masked away. -/
theorem srliEpi16_four_and (v : M128i) (j : Fin 16) :
    andSi128 (srliEpi16 v 4) (set1Epi8 0x0F) j = v j >>> 4 := by
  have nibble : ∀ b : UInt8, (b &&& 0x0F).toNat = b.toNat % 16 := fun b => by
    rw [UInt8.toNat_and]
    exact Nat.and_two_pow_sub_one_eq_mod _ 4
  have word := toNat_wordOf v j
  have low := (v ⟨2 * (j / 2), by omega⟩).toNat_lt
  have high := (v ⟨2 * (j / 2) + 1, by omega⟩).toNat_lt
  have shifted : (wordOf v j >>> 4).toNat = (wordOf v j).toNat / 16 := by
    rw [UInt16.toNat_shiftRight, Nat.shiftRight_eq_div_pow]
    rfl
  have shifted8 : (wordOf v j >>> 4 >>> 8).toNat = (wordOf v j).toNat / 4096 := by
    rw [UInt16.toNat_shiftRight, shifted, Nat.shiftRight_eq_div_pow]
    exact Nat.div_div_eq_div_mul _ _ _
  have shiftedByte : ∀ b : UInt8, (b >>> 4).toNat = b.toNat / 16 := fun b => by
    rw [UInt8.toNat_shiftRight, Nat.shiftRight_eq_div_pow]
    rfl
  apply UInt8.toNat_inj.1
  simp only [andSi128, set1Epi8, nibble, srliEpi16]
  rw [lane_eq v j]
  split <;> simp only [UInt16.toNat_toUInt8, shifted, shifted8, shiftedByte] <;> omega

end Sse
