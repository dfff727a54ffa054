/-
# Misc.Utf8Simd -- `is_valid_utf8_simd` agrees with `is_valid_utf8`

The block validator reads sixteen bytes at a time and carries two things from
one block to the next: `pending`, the mask of continuation bytes the next block
owes to this one, and `prev_crit`, the last byte when it restricts its
successor.  What is left over is handed to `ref_utf8`, restarted up to three
bytes back at a byte that is not a continuation byte.

The proof never speaks of sequences.  `Carry` says what the two carried values
mean in terms of the three bytes before the block; `simdBlock_spec` says that a
block passes exactly when each of its sixteen positions may be read in the sense
of `Utf8.StepOk`, and that the carry is kept.  The alignment of sequences to
blocks plays no part.  `simdLoop_iff` is the run over all blocks and the tail,
and `isValidUtf8Simd_eq` the agreement of the two validators.
-/
import Refsapi.Lib.Sse
import Refsapi.Misc.Utf8

namespace Refsapi

open Utf8 Sse

set_option autoImplicit false

/-! ## The block validator -/

/-- `_mm_loadu_si128((const __m128i *)(p + i))` -/
def loadu (p : List UInt8) (i : Nat) : M128i := fun j => p.getD (i + j) 0

/-- The tests of the pair that straddles two blocks: `prev_crit` is the lead on
position 15 of the block before, `nb` the first byte of this one. -/
def boundaryFails (prevCrit nb : UInt8) : Bool :=
  prevCrit != 0 && nb &&& 0xC0 == 0x80 &&
    (prevCrit == 0xE0 && nb < 0xA0 || prevCrit == 0xED && nb > 0x9F ||
      prevCrit == 0xF0 && nb < 0x90 || prevCrit == 0xF4 && nb > 0x8F)

/-- The tests of the pairs inside a block.  Lane `j` of `nxt` is the byte after
lane `j` of `v`; lane 15 has none and is masked out. -/
def pairsFail (v : M128i) : Bool :=
  let isE0 := movemaskEpi8 (cmpeqEpi8 v (set1Epi8 0xE0))
  let isED := movemaskEpi8 (cmpeqEpi8 v (set1Epi8 0xED))
  let isF0 := movemaskEpi8 (cmpeqEpi8 v (set1Epi8 0xF0))
  let isF4 := movemaskEpi8 (cmpeqEpi8 v (set1Epi8 0xF4))
  if isE0 ||| isED ||| isF0 ||| isF4 != 0 then
    let nxt := srliSi128 v 1
    movemaskEpi8 (cmpltEpi8 nxt (set1Epi8 0xA0)) &&& (isE0 &&& 0x7FFF) != 0 ||
      movemaskEpi8 (cmpgtEpi8 nxt (set1Epi8 0x9F)) &&& (isED &&& 0x7FFF) != 0 ||
      movemaskEpi8 (cmpltEpi8 nxt (set1Epi8 0x90)) &&& (isF0 &&& 0x7FFF) != 0 ||
      movemaskEpi8 (cmpgtEpi8 nxt (set1Epi8 0x8F)) &&& (isF4 &&& 0x7FFF) != 0
  else false

/-- The bytes that occur nowhere: `C0`, `C1`, then `F8..FF`, then `F5..F7`. -/
def forbiddenBytes (v : M128i) : Bool :=
  movemaskEpi8 (cmpeqEpi8 (andSi128 v (set1Epi8 0xFE)) (set1Epi8 0xC0)) != 0 ||
    movemaskEpi8 (cmpeqEpi8 (andSi128 v (set1Epi8 0xF8)) (set1Epi8 0xF8)) != 0 ||
    movemaskEpi8 (orSi128 (cmpeqEpi8 v (set1Epi8 0xF5))
      (cmpeqEpi8 (andSi128 v (set1Epi8 0xFE)) (set1Epi8 0xF6))) != 0

/-- The bit masks of a block: continuation bytes, and leads by the length of the
sequence they announce. -/
structure Masks where
  cont : BitVec 32
  m2 : BitVec 32
  m3 : BitVec 32
  m4 : BitVec 32

def masksOf (v : M128i) : Masks :=
  let nonascii := movemaskEpi8 v
  let cont := movemaskEpi8 (cmpeqEpi8 (andSi128 v (set1Epi8 0xC0)) (set1Epi8 0x80))
  let hi := andSi128 (srliEpi16 v 4) (set1Epi8 0x0F)
  let m3 := movemaskEpi8 (cmpeqEpi8 hi (set1Epi8 0x0E))
  let m4 := movemaskEpi8 (cmpgtEpi8 hi (set1Epi8 0x0E))
  let m2 := nonascii &&& ~~~cont &&& ~~~m3 &&& ~~~m4
  { cont, m2, m3, m4 }

/-- Where continuation bytes are expected: bits 0 to 15 in this block, bits 16 to
18 in the next. -/
def Masks.expect (m : Masks) : BitVec 64 :=
  let lead2 := m.m2 ||| m.m3 ||| m.m4
  let lead3 := m.m3 ||| m.m4
  let lead4 := m.m4
  lead2.setWidth 64 <<< 1 ||| lead3.setWidth 64 <<< 2 ||| lead4.setWidth 64 <<< 3

/-- The last byte of a block, kept when it restricts its successor. -/
def critical (last : UInt8) : UInt8 :=
  if last == 0xE0 || last == 0xED || last == 0xF0 || last == 0xF4 then last else 0

/-- One turn of the block loop at offset `i`: `none` is `return false`, otherwise
the new `pending` and `prev_crit`. -/
def simdBlock (p : List UInt8) (i : Nat) (pending : BitVec 32) (prevCrit : UInt8) :
    Option (BitVec 32 × UInt8) :=
  let v := loadu p i
  if boundaryFails prevCrit (p.getD i 0) then none
  else if movemaskEpi8 v == 0 then
    if pending != 0 then none else some (pending, 0)
  else
    let m := masksOf v
    if forbiddenBytes v then none
    else if pairsFail v then none
    else
      let expectHere : BitVec 32 := (m.expect &&& 0xFFFF).setWidth 32 ||| pending
      if m.cont != expectHere then none
      else some (((m.expect >>> 16) &&& 0x7).setWidth 32, critical (p.getD (i + 15) 0))

/-- The search for a byte to restart at, from `k` up to `i`. -/
def resync (p : List UInt8) (i k : Nat) : Nat :=
  if k < i ∧ p.getD k 0 &&& 0xC0 = 0x80 then resync p i (k + 1) else k
termination_by i - k

/-- The tail after the last full block ended at `i`. -/
def simdTail (p : List UInt8) (i : Nat) : Bool :=
  refUtf8 (p.drop (resync p i (if i ≥ 3 then i - 3 else 0)))

/-- The loop over the blocks, then the tail. -/
def simdLoop (p : List UInt8) (i : Nat) (pending : BitVec 32) (prevCrit : UInt8) : Bool :=
  if i + 16 ≤ p.length then
    match simdBlock p i pending prevCrit with
    | none => false
    | some (pending, prevCrit) => simdLoop p (i + 16) pending prevCrit
  else simdTail p i
termination_by p.length - i

/-- `is_valid_utf8_simd(p, n)`. -/
def isValidUtf8Simd : Buffer → Bool
  | .null n => n == 0
  | .bytes [] => true
  | .bytes p => simdLoop p 0 0 0

/-! ## What the masks say about one lane -/

/-- The tests of the block loop on one byte, with signed comparisons read as
ranges. -/
theorem lane_tests : ∀ b : UInt8,
    (b >>> 4 = 0x0E ↔ 0xE0 ≤ b ∧ b < 0xF0) ∧
    ((0x0E : UInt8).toInt8 < (b >>> 4).toInt8 ↔ 0xF0 ≤ b) ∧
    (¬ b &&& 0xFE = 0xC0 ∧ ¬ b &&& 0xF8 = 0xF8 ∧ ¬ (b = 0xF5 ∨ b &&& 0xFE = 0xF6) ↔
      Allowed b) ∧
    (b.toInt8 < (0xA0 : UInt8).toInt8 ↔ 0x80 ≤ b ∧ b < 0xA0) ∧
    ((0x9F : UInt8).toInt8 < b.toInt8 ↔ ¬ (0x80 ≤ b ∧ b < 0xA0)) ∧
    (b.toInt8 < (0x90 : UInt8).toInt8 ↔ 0x80 ≤ b ∧ b < 0x90) ∧
    ((0x8F : UInt8).toInt8 < b.toInt8 ↔ ¬ (0x80 ≤ b ∧ b < 0x90)) := by
  decide +kernel

/-- A block of ones, as a mask. -/
theorem getLsbD_ones (w k j : Nat) :
    (BitVec.ofNat w (2 ^ k - 1)).getLsbD j = (decide (j < w) && decide (j < k)) := by
  rw [BitVec.getLsbD_ofNat, Nat.testBit_two_pow_sub_one]

/-- Two masks meet below bit 15 when two registers do below lane 15. -/
theorem and_7FFF_ne_zero_iff (a b : M128i) :
    movemaskEpi8 a &&& (movemaskEpi8 b &&& 0x7FFF) ≠ 0 ↔
      ∃ j : Fin 16, j.val < 15 ∧ 0x80 ≤ a j ∧ 0x80 ≤ b j := by
  have ones : ∀ j, BitVec.getLsbD (0x7FFF : BitVec 32) j = (decide (j < 32) && decide (j < 15)) :=
    getLsbD_ones 32 15
  rw [ne_zero_iff]
  constructor
  · rintro ⟨j, set⟩
    rw [BitVec.getLsbD_and, BitVec.getLsbD_and, ones] at set
    have low : j < 15 := by
      by_contra high
      simp [high] at set
    refine ⟨⟨j, by omega⟩, low, ?_⟩
    rw [getLsbD_movemask_lt a (by omega), getLsbD_movemask_lt b (by omega)] at set
    simp only [Bool.and_eq_true, decide_eq_true_eq] at set
    exact ⟨set.1, set.2.1⟩
  · rintro ⟨j, low, left, right⟩
    refine ⟨j, ?_⟩
    rw [BitVec.getLsbD_and, BitVec.getLsbD_and, ones, getLsbD_movemask, getLsbD_movemask]
    simp [left, right, low, (by omega : j.val < 32)]

/-- What the pair tests refuse: a restricting lead before a continuation byte
outside its range, or before no continuation byte at all. -/
def PairBad (a b : UInt8) : Prop :=
  a = 0xE0 ∧ (0x80 ≤ b ∧ b < 0xA0) ∨ a = 0xED ∧ ¬ (0x80 ≤ b ∧ b < 0xA0) ∨
    a = 0xF0 ∧ (0x80 ≤ b ∧ b < 0x90) ∨ a = 0xF4 ∧ ¬ (0x80 ≤ b ∧ b < 0x90)

theorem pairBad_iff {a b : UInt8} (cont : Utf8.Cont b) : PairBad a b ↔ ¬ Second a b := by
  unfold PairBad Second Utf8.Cont at *
  grind

@[simp] theorem srliSi128_one {j : Fin 16} (v : M128i) (low : j.val < 15) :
    srliSi128 v 1 j = v ⟨j + 1, by omega⟩ := by
  simp [srliSi128, (by omega : j.val + 1 < 16)]

/-- The guard in front of the pair tests only saves work. -/
theorem pairsFail_iff (v : M128i) :
    pairsFail v = true ↔ ∃ j : Fin 16, ∃ low : j.val < 15, PairBad (v j) (v ⟨j + 1, by omega⟩) := by
  have guard : pairsFail v = true ↔
      movemaskEpi8 (cmpltEpi8 (srliSi128 v 1) (set1Epi8 0xA0)) &&&
          (movemaskEpi8 (cmpeqEpi8 v (set1Epi8 0xE0)) &&& 0x7FFF) ≠ 0 ∨
        movemaskEpi8 (cmpgtEpi8 (srliSi128 v 1) (set1Epi8 0x9F)) &&&
          (movemaskEpi8 (cmpeqEpi8 v (set1Epi8 0xED)) &&& 0x7FFF) ≠ 0 ∨
        movemaskEpi8 (cmpltEpi8 (srliSi128 v 1) (set1Epi8 0x90)) &&&
          (movemaskEpi8 (cmpeqEpi8 v (set1Epi8 0xF0)) &&& 0x7FFF) ≠ 0 ∨
        movemaskEpi8 (cmpgtEpi8 (srliSi128 v 1) (set1Epi8 0x8F)) &&&
          (movemaskEpi8 (cmpeqEpi8 v (set1Epi8 0xF4)) &&& 0x7FFF) ≠ 0 := by
    unfold pairsFail
    generalize movemaskEpi8 (cmpeqEpi8 v (set1Epi8 0xE0)) = isE0
    generalize movemaskEpi8 (cmpeqEpi8 v (set1Epi8 0xED)) = isED
    generalize movemaskEpi8 (cmpeqEpi8 v (set1Epi8 0xF0)) = isF0
    generalize movemaskEpi8 (cmpeqEpi8 v (set1Epi8 0xF4)) = isF4
    by_cases any : isE0 ||| isED ||| isF0 ||| isF4 = 0
    · obtain ⟨⟨⟨rfl, rfl⟩, rfl⟩, rfl⟩ : ((isE0 = 0 ∧ isED = 0) ∧ isF0 = 0) ∧ isF4 = 0 := by
        simpa [BitVec.or_eq_zero_iff] using any
      simp
    · simp only [bne_iff_ne, ne_eq, any, not_false_eq_true, if_true, Bool.or_eq_true, or_assoc]
  rw [guard]
  simp only [and_7FFF_ne_zero_iff, top_cmpltEpi8, top_cmpgtEpi8, top_cmpeqEpi8, set1Epi8_apply,
    ← exists_or]
  refine exists_congr fun j => ?_
  by_cases low : j.val < 15
  · obtain ⟨-, -, -, belowA0, above9F, below90, above8F⟩ := lane_tests (v ⟨j + 1, by omega⟩)
    simp only [low, srliSi128_one v low, belowA0, above9F, below90, above8F, true_and,
      exists_true_left, PairBad, and_comm]
  · simp [low]

theorem forbiddenBytes_iff (v : M128i) : forbiddenBytes v = true ↔ ∃ j, ¬ Allowed (v j) := by
  simp only [forbiddenBytes, Bool.or_eq_true, bne_iff_ne, movemask_ne_zero_iff, top_cmpeqEpi8,
    top_orSi128, andSi128_apply, set1Epi8_apply]
  constructor
  · rintro ((⟨j, bad⟩ | ⟨j, bad⟩) | ⟨j, bad⟩) <;>
    · refine ⟨j, fun allowed => ?_⟩
      have tests := (lane_tests (v j)).2.2.1
      tauto
  · rintro ⟨j, bad⟩
    have tests := (lane_tests (v j)).2.2.1
    by_cases first : v j &&& 0xFE = 0xC0
    · exact .inl (.inl ⟨j, first⟩)
    by_cases second : v j &&& 0xF8 = 0xF8
    · exact .inl (.inr ⟨j, second⟩)
    · exact .inr ⟨j, by tauto⟩

/-! ## The expected continuation bytes -/

/-- The bytes of a block by position; zero past its end. -/
def laneAt (v : M128i) (j : Nat) : UInt8 := if low : j < 16 then v ⟨j, low⟩ else 0

theorem getLsbD_cont (v : M128i) (j : Nat) :
    (masksOf v).cont.getLsbD j = decide (Utf8.Cont (laneAt v j)) := by
  by_cases low : j < 16
  · simp [masksOf, getLsbD_movemask_lt _ low, laneAt, low, and_C0_eq_iff]
  · simp only [masksOf, getLsbD_movemask_of_ge _ (Nat.le_of_not_lt low), laneAt, low, dite_false]
    rfl

/-- `lead2`, `lead3` and `lead4` mark the bytes from `C0`, `E0` and `F0` on. -/
theorem getLsbD_leads (v : M128i) (j : Nat) :
    ((masksOf v).m2 ||| (masksOf v).m3 ||| (masksOf v).m4).getLsbD j =
        decide (0xC0 ≤ laneAt v j) ∧
      ((masksOf v).m3 ||| (masksOf v).m4).getLsbD j = decide (0xE0 ≤ laneAt v j) ∧
      (masksOf v).m4.getLsbD j = decide (0xF0 ≤ laneAt v j) := by
  by_cases low : j < 16
  · have nibble := srliEpi16_four_and v ⟨j, low⟩
    have cont := and_C0_eq_iff (v ⟨j, low⟩)
    obtain ⟨isThree, isFour, -⟩ := lane_tests (v ⟨j, low⟩)
    simp only [masksOf, BitVec.getLsbD_or, BitVec.getLsbD_and, BitVec.getLsbD_not,
      getLsbD_movemask_lt _ low, top_cmpeqEpi8, top_cmpgtEpi8, andSi128_apply, set1Epi8_apply,
      laneAt, low, dite_true, (by omega : j < 32)] at nibble ⊢
    rw [nibble]
    simp only [cont, isThree, isFour]
    unfold Utf8.Cont
    grind
  · simp only [masksOf, BitVec.getLsbD_or, BitVec.getLsbD_and,
      getLsbD_movemask_of_ge _ (Nat.le_of_not_lt low), laneAt, low, dite_false]
    simp

theorem getLsbD_expect (v : M128i) (j : Nat) (low : j < 64) :
    (masksOf v).expect.getLsbD j = true ↔
      (1 ≤ j ∧ 0xC0 ≤ laneAt v (j - 1)) ∨ (2 ≤ j ∧ 0xE0 ≤ laneAt v (j - 2)) ∨
        (3 ≤ j ∧ 0xF0 ≤ laneAt v (j - 3)) := by
  simp only [Masks.expect, BitVec.getLsbD_or, BitVec.getLsbD_shiftLeft, BitVec.getLsbD_setWidth]
  have two := (getLsbD_leads v (j - 1)).1
  have three := (getLsbD_leads v (j - 2)).2.1
  have four := (getLsbD_leads v (j - 3)).2.2
  simp only [BitVec.getLsbD_or] at two three
  simp only [two, three, four, low, Bool.or_eq_true, Bool.and_eq_true, decide_eq_true_eq,
    Bool.not_eq_true', decide_eq_false_iff_not, Nat.not_lt, true_and, or_assoc]
  simp [(by omega : j - 1 < 64), (by omega : j - 2 < 64), (by omega : j - 3 < 64)]

/-! ## One block -/

theorem laneAt_loadu (p : List UInt8) (i : Nat) {j : Nat} (low : j < 16) :
    laneAt (loadu p i) j = p.getD (i + j) 0 := by
  simp [laneAt, loadu, low]

theorem laneAt_of_ge (v : M128i) {j : Nat} (high : 16 ≤ j) : laneAt v j = 0 := by
  simp [laneAt, Nat.not_lt.2 high]

/-- The bytes in front of a position in or just after a block. -/
theorem before_add (p : List UInt8) (i j k : Nat) (low : j ≤ 16) (pos : 1 ≤ k) :
    before p (i + j) k = if k ≤ j then laneAt (loadu p i) (j - k) else before p i (k - j) := by
  by_cases inside : k ≤ j
  · rw [if_pos inside, laneAt_loadu p i (by omega), before, if_pos (by omega)]
    congr 1
    omega
  · rw [if_neg inside, before, before]
    have same : i + j - k = i - (k - j) := by omega
    have bound : k ≤ i + j ↔ k - j ≤ i := by omega
    simp only [same, bound]

/-- What the carried values say about the three bytes before offset `i`. -/
structure Carry (p : List UInt8) (i : Nat) (pending : BitVec 32) (prevCrit : UInt8) : Prop where
  pending : ∀ j, pending.getLsbD j = true ↔
    (j = 0 ∧ (windowAt p i).Owes) ∨ (j = 1 ∧ (windowAt p i).Owes2) ∨
      (j = 2 ∧ (windowAt p i).Owes3)
  prevCrit : prevCrit = critical (windowAt p i).w1

/-- Every byte of the block at `i` may be read. -/
def BlockOk (p : List UInt8) (i : Nat) : Prop :=
  ∀ j < 16, StepOk (windowAt p (i + j)) (p.getD (i + j) 0)

/-- Inside a block a continuation byte is owed where a lead expects one or the
block before left one pending. -/
theorem owes_iff {p : List UInt8} {i : Nat} {pending : BitVec 32} {prevCrit : UInt8}
    (carry : Carry p i pending prevCrit) {j : Nat} (low : j < 16) :
    (windowAt p (i + j)).Owes ↔
      (masksOf (loadu p i)).expect.getLsbD j = true ∨ pending.getLsbD j = true := by
  rw [getLsbD_expect _ j (by omega), carry.pending]
  have one := before_add p i j 1 low.le (by omega)
  have two := before_add p i j 2 low.le (by omega)
  have three := before_add p i j 3 low.le (by omega)
  simp only [windowAt, Window.Owes, Window.Owes2, Window.Owes3, one, two, three]
  rcases j with _ | _ | _ | j
  · simp
  · simp
  · simp [or_assoc]
  · simp

/-- The bits shifted out of a block are what it leaves owed. -/
theorem carry_expect (p : List UInt8) (i : Nat) :
    Carry p (i + 16) (((masksOf (loadu p i)).expect >>> 16 &&& 0x7).setWidth 32)
      (critical (p.getD (i + 15) 0)) := by
  have seven : ∀ j, BitVec.getLsbD (0x7 : BitVec 64) j = (decide (j < 64) && decide (j < 3)) :=
    getLsbD_ones 64 3
  have one := before_add p i 16 1 le_rfl (by omega)
  have two := before_add p i 16 2 le_rfl (by omega)
  have three := before_add p i 16 3 le_rfl (by omega)
  constructor
  · intro j
    rw [BitVec.getLsbD_setWidth, BitVec.getLsbD_and, BitVec.getLsbD_ushiftRight, seven]
    by_cases small : j < 3
    · have expect := getLsbD_expect (loadu p i) (16 + j) (by omega)
      simp only [windowAt, Window.Owes, Window.Owes2, Window.Owes3, one, two, three]
      rw [Bool.and_eq_true, Bool.and_eq_true, expect]
      obtain rfl | rfl | rfl : j = 0 ∨ j = 1 ∨ j = 2 := by omega
      · simp
      · simp [laneAt_of_ge]
      · simp [laneAt_of_ge]
    · have beyond : j ≠ 0 ∧ j ≠ 1 ∧ j ≠ 2 := by omega
      simp [small, beyond]
  · rw [windowAt, one]
    simp [laneAt_loadu]

theorem boundaryFails_iff (last b : UInt8) :
    boundaryFails (critical last) b = true ↔ Utf8.Cont b ∧ ¬ Second last b := by
  have cont := and_C0_eq_iff b
  unfold boundaryFails critical Second
  grind

/-- Only a byte that owes something restricts its successor. -/
theorem second_of_not_owes {w : Window} (free : ¬ w.Owes) (b : UInt8) : Second w.w1 b := by
  apply second_of_ne
  unfold Window.Owes at free
  grind

/-- Lane `j` of a block in terms of the window in front of it. -/
theorem windowAt_w1 (p : List UInt8) (i j : Nat) (low : j < 15) :
    (windowAt p (i + (j + 1))).w1 = loadu p i ⟨j, by omega⟩ := by
  have one := before_add p i (j + 1) 1 (by omega) (by omega)
  rw [windowAt, one]
  simp [laneAt, (by omega : j < 16)]

theorem not_blockOk_of_pair {p : List UInt8} {i j : Nat} (low : j < 15)
    (bad : PairBad (loadu p i ⟨j, by omega⟩) (loadu p i ⟨j + 1, by omega⟩)) : ¬ BlockOk p i := by
  intro ok
  obtain ⟨-, cont, second⟩ := ok (j + 1) (by omega)
  rw [windowAt_w1 p i j low] at second
  have lead : 0xC0 ≤ (windowAt p (i + (j + 1))).w1 := by
    rw [windowAt_w1 p i j low]
    unfold PairBad at bad
    grind
  exact (pairBad_iff (cont.2 (.inl lead))).1 bad second

/-- A block of ASCII bytes may be read when nothing is pending, and leaves
nothing pending. -/
theorem blockOk_ascii {p : List UInt8} {i : Nat} {pending : BitVec 32} {prevCrit : UInt8}
    (carry : Carry p i pending prevCrit) (ascii : movemaskEpi8 (loadu p i) = 0) :
    (BlockOk p i ↔ pending = 0) ∧ Carry p (i + 16) 0 0 := by
  have lanes : ∀ j, laneAt (loadu p i) j < 0x80 := by
    intro j
    by_cases low : j < 16
    · have bit := getLsbD_movemask (loadu p i) ⟨j, low⟩
      rw [ascii] at bit
      simpa [laneAt, low] using bit.symm
    · rw [laneAt_of_ge _ (Nat.le_of_not_lt low)]
      decide
  have free : ∀ j < 64, ¬ (masksOf (loadu p i)).expect.getLsbD j = true := by
    intro j low
    have one := lanes (j - 1)
    have two := lanes (j - 2)
    have three := lanes (j - 3)
    rw [getLsbD_expect _ j low]
    grind
  have owes : ∀ j < 16, ((windowAt p (i + j)).Owes ↔ pending.getLsbD j = true) := by
    intro j low
    rw [owes_iff carry low]
    exact or_iff_right (free j (by omega))
  refine ⟨⟨fun ok => ?_, ?_⟩, ?_⟩
  · by_contra nonzero
    obtain ⟨j, set⟩ := (ne_zero_iff pending).1 nonzero
    have low : j < 16 := by
      have := (carry.pending j).1 set
      omega
    have cont := (ok j low).2.1.2 ((owes j low).2 set)
    rw [← laneAt_loadu p i low] at cont
    have := lanes j
    unfold Utf8.Cont at cont
    grind
  · rintro rfl j low
    rw [stepOk_of_not_owes (by simp [owes j low]), ← laneAt_loadu p i low]
    have := lanes j
    unfold Allowed Utf8.Cont
    grind
  · have one := before_add p i 16 1 le_rfl (by omega)
    have two := before_add p i 16 2 le_rfl (by omega)
    have three := before_add p i 16 3 le_rfl (by omega)
    have last := lanes 15
    have last₂ := lanes 14
    have last₃ := lanes 13
    constructor
    · intro j
      simp only [windowAt, Window.Owes, Window.Owes2, Window.Owes3, one, two, three]
      simp
      grind
    · simp only [windowAt, one, critical]
      grind

/-- The mask comparison asks at every lane whether a continuation byte is there
exactly when one is owed. -/
theorem cont_eq_iff {p : List UInt8} {i : Nat} {pending : BitVec 32} {prevCrit : UInt8}
    (carry : Carry p i pending prevCrit) :
    (masksOf (loadu p i)).cont =
        ((masksOf (loadu p i)).expect &&& 0xFFFF).setWidth 32 ||| pending ↔
      ∀ j < 16, (Utf8.Cont (p.getD (i + j) 0) ↔ (windowAt p (i + j)).Owes) := by
  have ones : ∀ j, BitVec.getLsbD (0xFFFF : BitVec 64) j =
      (decide (j < 64) && decide (j < 16)) := getLsbD_ones 64 16
  have here : ∀ j < 32, (((masksOf (loadu p i)).expect &&& 0xFFFF).setWidth 32 |||
      pending).getLsbD j = (decide (j < 16) && (masksOf (loadu p i)).expect.getLsbD j ||
        pending.getLsbD j) := by
    intro j wide
    rw [BitVec.getLsbD_or, BitVec.getLsbD_setWidth, BitVec.getLsbD_and, ones]
    simp [wide, (by omega : j < 64), Bool.and_comm]
  constructor
  · intro same j low
    have bit := congrArg (fun m => BitVec.getLsbD m j) same
    simp only [here j (by omega), getLsbD_cont, laneAt_loadu p i low] at bit
    rw [owes_iff carry low, Bool.eq_iff_iff] at *
    simpa [low] using bit
  · intro lanes
    apply BitVec.eq_of_getLsbD_eq
    intro j wide
    rw [here j wide, getLsbD_cont, Bool.eq_iff_iff]
    by_cases low : j < 16
    · have lane := lanes j low
      rw [owes_iff carry low] at lane
      simpa [low, laneAt_loadu p i low] using lane
    · have none_ : ¬ pending.getLsbD j = true := by
        rw [carry.pending]
        omega
      rw [laneAt_of_ge _ (Nat.le_of_not_lt low)]
      simp [low, none_, Utf8.Cont]

/-- **One block.**  It passes exactly when each of its bytes may be read, and
carries on what it owes. -/
theorem simdBlock_spec {p : List UInt8} {i : Nat} {pending : BitVec 32} {prevCrit : UInt8}
    (carry : Carry p i pending prevCrit) :
    match simdBlock p i pending prevCrit with
    | none => ¬ BlockOk p i
    | some (pending', prevCrit') => BlockOk p i ∧ Carry p (i + 16) pending' prevCrit' := by
  have boundary := boundaryFails_iff (windowAt p i).w1 (p.getD i 0)
  rw [← carry.prevCrit] at boundary
  simp only [simdBlock]
  by_cases straddles : boundaryFails prevCrit (p.getD i 0) = true
  · rw [if_pos straddles]
    exact fun ok => (boundary.1 straddles).2 (ok 0 (by omega)).2.2
  rw [if_neg straddles]
  by_cases ascii : (movemaskEpi8 (loadu p i) == 0) = true
  · obtain ⟨ok, next⟩ := blockOk_ascii carry (beq_iff_eq.1 ascii)
    rw [if_pos ascii]
    by_cases owed : pending = 0
    · subst owed
      exact ⟨ok.2 rfl, next⟩
    · rw [if_pos (bne_iff_ne.2 owed)]
      exact mt ok.1 owed
  rw [if_neg ascii]
  by_cases forbidden : forbiddenBytes (loadu p i) = true
  · rw [if_pos forbidden]
    obtain ⟨j, bad⟩ := (forbiddenBytes_iff _).1 forbidden
    exact fun ok => bad (ok j j.isLt).1
  rw [if_neg forbidden]
  by_cases pairs : pairsFail (loadu p i) = true
  · rw [if_pos pairs]
    obtain ⟨j, low, bad⟩ := (pairsFail_iff _).1 pairs
    exact not_blockOk_of_pair low bad
  rw [if_neg pairs]
  by_cases agree : (masksOf (loadu p i)).cont =
      ((masksOf (loadu p i)).expect &&& 0xFFFF).setWidth 32 ||| pending
  · rw [if_neg (by simpa using agree)]
    refine ⟨fun j low => ?_, carry_expect p i⟩
    have owed := (cont_eq_iff carry).1 agree j low
    refine ⟨?_, owed, ?_⟩
    · by_contra bad
      exact forbidden ((forbiddenBytes_iff _).2 ⟨⟨j, low⟩, bad⟩)
    by_cases owes : (windowAt p (i + j)).Owes
    · have cont := owed.2 owes
      match j with
      | 0 => exact not_not.1 fun bad => straddles (boundary.2 ⟨cont, bad⟩)
      | j + 1 =>
          rw [windowAt_w1 p i j (by omega)]
          refine not_not.1 fun bad => pairs ((pairsFail_iff _).2 ⟨⟨j, by omega⟩, ?_⟩)
          exact ⟨by simp; omega, (pairBad_iff cont).2 bad⟩
    · exact second_of_not_owes owes _
  · rw [if_pos (bne_iff_ne.2 agree)]
    exact fun ok => agree ((cont_eq_iff carry).2 fun j low => (ok j low).2.1)

/-! ## The tail -/

/-- The restart never passes `i` and skips continuation bytes only. -/
theorem resync_spec (p : List UInt8) (i k : Nat) (low : k ≤ i) :
    k ≤ resync p i k ∧ resync p i k ≤ i ∧ (∀ j, k ≤ j → j < resync p i k → Utf8.Cont (p.getD j 0)) ∧
      (resync p i k < i → ¬ Utf8.Cont (p.getD (resync p i k) 0)) := by
  induction k using resync.induct p i with
  | case1 k here ih =>
      obtain ⟨from_, upTo, skipped, stop⟩ := ih here.1
      rw [resync, if_pos here]
      refine ⟨by omega, upTo, fun j above below => ?_, stop⟩
      by_cases first : j = k
      · exact first ▸ (and_C0_eq_iff _).1 here.2
      · exact skipped j (by omega) below
  | case2 k stop =>
      rw [resync, if_neg stop]
      refine ⟨le_rfl, low, fun j above below => absurd above (by omega), fun below cont => ?_⟩
      exact stop ⟨below, (and_C0_eq_iff _).2 cont⟩

/-- Three continuation bytes owe nothing. -/
theorem not_owes_of_cont {p : List UInt8} {i : Nat} (far : 3 ≤ i)
    (conts : ∀ j, i - 3 ≤ j → j < i → Utf8.Cont (p.getD j 0)) : ¬ (windowAt p i).Owes := by
  have one := conts (i - 1) (by omega) (by omega)
  have two := conts (i - 2) (by omega) (by omega)
  have three := conts (i - 3) (by omega) (by omega)
  simp only [windowAt, before, Window.Owes, (by omega : 1 ≤ i), (by omega : 2 ≤ i), far, if_true]
  unfold Utf8.Cont at one two three
  grind

/-- **The tail.**  Nothing is owed where it restarts, so it decides what the
blocks have left undecided. -/
theorem simdTail_iff {p : List UInt8} {i : Nat} (within : i ≤ p.length) (block : i = 0 ∨ 3 ≤ i)
    (steps : ∀ j < i, StepOk (windowAt p j) (p.getD j 0)) :
    simdTail p i = true ↔ WellFormed p := by
  rw [simdTail, refUtf8_iff]
  obtain ⟨from_, upTo, skipped, stop⟩ :=
    resync_spec p i (if i ≥ 3 then i - 3 else 0) (by split <;> omega)
  generalize resync p i (if i ≥ 3 then i - 3 else 0) = k at *
  have free : ¬ (windowAt p k).Owes := by
    by_cases early : k < i
    · exact fun owes => stop early ((steps k early).2.1.2 owes)
    obtain rfl : k = i := by omega
    rcases block with rfl | far
    · exact Window.start_owes
    · rw [if_pos far] at skipped
      exact not_owes_of_cont far skipped
  exact (wellFormed_iff_drop p k (by omega) (fun j below => steps j (by omega)) free).symm

/-! ## The run over all blocks -/

theorem carry_start (p : List UInt8) : Carry p 0 0 0 := by
  have free : ¬ Window.start.Owes ∧ ¬ Window.start.Owes2 ∧ ¬ Window.start.Owes3 := by
    unfold Window.Owes Window.Owes2 Window.Owes3
    decide
  exact ⟨fun j => by simp [free], by simp [critical, Window.start]⟩

/-- **The run.**  From every block boundary whose carry is right and behind which
every byte may be read, the rest of the run decides well-formedness. -/
theorem simdLoop_iff {p : List UInt8} {i : Nat} {pending : BitVec 32} {prevCrit : UInt8}
    (carry : Carry p i pending prevCrit) (within : i ≤ p.length) (block : i = 0 ∨ 3 ≤ i)
    (steps : ∀ j < i, StepOk (windowAt p j) (p.getD j 0)) :
    simdLoop p i pending prevCrit = true ↔ WellFormed p := by
  induction i, pending, prevCrit using simdLoop.induct p with
  | case1 i pending prevCrit room failed =>
      have spec := simdBlock_spec carry
      rw [failed] at spec
      rw [simdLoop, if_pos room, failed]
      refine iff_of_false (by simp) fun formed => spec fun j low => ?_
      exact formed.stepOk (i + j) (by omega)
  | case2 i pending prevCrit room pending' prevCrit' passed ih =>
      have spec := simdBlock_spec carry
      rw [passed] at spec
      rw [simdLoop, if_pos room, passed]
      refine ih spec.2 room (by omega) fun j below => ?_
      by_cases behind : j < i
      · exact steps j behind
      · have here := spec.1 (j - i) (by omega)
        rwa [Nat.add_sub_of_le (by omega)] at here
  | case3 i pending prevCrit last =>
      rw [simdLoop, if_neg last]
      exact simdTail_iff within block steps

theorem isValidUtf8Simd_bytes_iff (p : List UInt8) :
    isValidUtf8Simd (.bytes p) = true ↔ WellFormed p := by
  cases p with
  | nil => simp [isValidUtf8Simd, WellFormed.nil]
  | cons a l => exact simdLoop_iff (carry_start _) (Nat.zero_le _) (.inl rfl) (by simp)

/-- **The two validators agree** on every buffer. -/
theorem isValidUtf8Simd_eq (b : Buffer) : isValidUtf8Simd b = isValidUtf8 b := by
  cases b with
  | null n => rfl
  | bytes p =>
      rw [Bool.eq_iff_iff, isValidUtf8Simd_bytes_iff, isValidUtf8_bytes_iff]

end Refsapi
