/-
# Misc.AmxText -- `set_amx_string` and the memory of a plugin

`amxString` has the cells that `set_amx_string` writes.  Here is the loop as it stands, with
the count that it returns.  One condition copies, counts and keeps within `max_size`, and the
count goes up before the test: what is written is always what fits (`setAmxString_writes`),
and a text that is cut is counted one character longer than it was written
(`setAmxString_count`).
-/
import Refsapi.Misc.Number
import Mathlib.Logic.Function.Basic

namespace Refsapi

set_option autoImplicit false

/-- Memory, from an address on. -/
abbrev Cells : Type := Nat → Cell

/-- `(cell)*str`, of a signed `char`. -/
def cellOf (b : UInt8) : Cell := b.toBitVec.signExtend 32

/-- A text up to the zero that ends it; a null has none. -/
def cText : Option Text → Text
  | none => []
  | some text => text.takeWhile (· ≠ 0)

/-! ## `set_amx_string` -/

/-- What the loop leaves. -/
structure Copied where
  memory : Cells
  /-- how far `dest` has moved -/
  moved : Nat
  count : Nat

/-- `while (str && *str && ++count < max_size) *dest++ = (cell)*str++;` -/
def copyLoop (maxSize : Nat) : Text → Copied → Copied
  | [], s => s
  | b :: rest, s =>
      if b = 0 then s
      else if s.count + 1 < maxSize then
        copyLoop maxSize rest
          ⟨Function.update s.memory s.moved (cellOf b), s.moved + 1, s.count + 1⟩
      else { s with count := s.count + 1 }

/-- `set_amx_string`, for a `dest` that is not null: the memory, and what is returned. -/
def setAmxString (dest : Cells) (str : Option Text) (maxSize : Nat) : Cells × Nat :=
  if maxSize = 0 then (dest, 0)
  else
    let ended := copyLoop maxSize (str.getD []) ⟨dest, 0, 0⟩
    (Function.update ended.memory ended.moved 0, ended.count)

/-! ## What is written -/

/-- The memory with cells written to its beginning, and nothing beyond them. -/
def written (dest : Cells) (cells : List Cell) : Cells := fun i => cells[i]?.getD (dest i)

/-- A plugin finds a string of that length: the cells before the first zero. -/
def FindsLength (memory : Cells) (n : Nat) : Prop := memory n = 0 ∧ ∀ i < n, memory i ≠ 0

theorem FindsLength.unique {memory : Cells} {m n : Nat} (first : FindsLength memory m)
    (second : FindsLength memory n) : m = n := by
  rcases Nat.lt_trichotomy m n with before | same | behind
  · exact absurd first.1 (second.2 m before)
  · exact same
  · exact absurd second.1 (first.2 n behind)

/-- The empty string. -/
theorem findsLength_zero_iff {memory : Cells} : FindsLength memory 0 ↔ memory 0 = 0 := by
  constructor
  · intro finds
    exact finds.1
  · intro zero
    refine ⟨zero, ?_⟩
    intro i before
    exact absurd before (Nat.not_lt_zero i)

theorem written_nil (dest : Cells) : written dest [] = dest := rfl

/-- One more cell. -/
theorem written_concat (dest : Cells) (cells : List Cell) (c : Cell) :
    Function.update (written dest cells) cells.length c = written dest (cells ++ [c]) := by
  funext i
  by_cases last : i = cells.length
  · subst last
    rw [Function.update_self, written, List.getElem?_concat_length]
    rfl
  · rw [Function.update_of_ne last]
    simp only [written]
    rcases Nat.lt_or_gt_of_ne last with before | behind
    · rw [List.getElem?_append_left before]
    · rw [List.getElem?_eq_none (Nat.le_of_lt behind),
        List.getElem?_eq_none (by rw [List.length_append, List.length_singleton]; exact behind)]

/-- A character of a text is a cell that is not 0. -/
theorem cellOf_ne_zero {b : UInt8} (some : b ≠ 0) : cellOf b ≠ 0 := by
  intro zero
  apply some
  have value : (cellOf b).toInt = b.toBitVec.toInt := BitVec.toInt_signExtend_of_le (by decide)
  rw [zero] at value
  exact UInt8.toBitVec_inj.1 (BitVec.toInt_inj.1 value.symm)

theorem cText_ne_zero {str : Option Text} : ∀ b ∈ cText str, b ≠ 0 := by
  intro b member
  cases str with
  | none => cases member
  | some text => simpa using List.mem_takeWhile_imp member

/-- A plugin finds what was written for it. -/
theorem findsLength_written (dest : Cells) {text : Text} (some : ∀ b ∈ text, b ≠ 0) :
    FindsLength (written dest (text.map cellOf ++ [0])) text.length := by
  constructor
  · rw [written, List.getElem?_append_right (by rw [List.length_map]), List.length_map,
      Nat.sub_self]
    rfl
  · intro i before
    rw [written, List.getElem?_append_left (by rwa [List.length_map]), List.getElem?_map,
      List.getElem?_eq_getElem before]
    exact cellOf_ne_zero (some _ (List.getElem_mem before))

/-! ## The loop -/

/-- The loop from where some cells have been written: it writes what still fits, and counts one
character more if there is one. -/
theorem copyLoop_eq (dest : Cells) {maxSize : Nat} (text : Text) (cells : List Cell)
    (room : cells.length < maxSize) :
    let rest := text.takeWhile (· ≠ 0)
    let fits := rest.take (maxSize - 1 - cells.length)
    copyLoop maxSize text ⟨written dest cells, cells.length, cells.length⟩ =
      ⟨written dest (cells ++ fits.map cellOf), cells.length + fits.length,
        min (cells.length + rest.length) maxSize⟩ := by
  induction text generalizing cells with
  | nil => simp [copyLoop, Nat.min_eq_left (Nat.le_of_lt room)]
  | cons b text ih =>
      dsimp only
      rw [copyLoop]
      split
      · next zero =>
          subst zero
          simp [Nat.min_eq_left (Nat.le_of_lt room)]
      · next nonzero =>
          have longer : (b :: text).takeWhile (· ≠ 0) = b :: text.takeWhile (· ≠ 0) :=
            List.takeWhile_cons_of_pos (by simpa using nonzero)
          rw [longer]
          split
          · next more =>
              have more : cells.length + 1 < maxSize := more
              have next := ih (cells ++ [cellOf b]) (by simpa using more)
              obtain ⟨left, isLeft⟩ : ∃ left, maxSize - 1 - cells.length = left + 1 :=
                ⟨maxSize - 2 - cells.length, by omega⟩
              have isLeft' : maxSize - 1 - (cells.length + 1) = left := by omega
              simp only [List.length_append, List.length_singleton, isLeft'] at next
              simp only [written_concat, isLeft, List.take_succ_cons, List.map_cons,
                List.length_cons]
              rw [next]
              simp only [Copied.mk.injEq]
              refine ⟨by rw [List.append_assoc, List.singleton_append], by omega, by omega⟩
          · next last =>
              have last : ¬cells.length + 1 < maxSize := last
              have none : maxSize - 1 - cells.length = 0 := by omega
              simp only [none, List.take_zero, List.map_nil, List.append_nil, List.length_nil,
                Nat.add_zero, List.length_cons, Copied.mk.injEq, true_and]
              omega

theorem takeWhile_getD (str : Option Text) : (str.getD []).takeWhile (· ≠ 0) = cText str := by
  cases str with
  | none => rfl
  | some text => rfl

/-- **What `set_amx_string` writes** is the longest beginning of the text that fits, a zero, and
nothing beyond. -/
theorem setAmxString_writes (dest : Cells) (str : Option Text) {maxSize : Nat}
    (room : 0 < maxSize) :
    (setAmxString dest str maxSize).1 =
      written dest (((cText str).take (maxSize - 1)).map cellOf ++ [0]) := by
  have loop := copyLoop_eq dest (str.getD []) [] room
  simp only [List.length_nil, Nat.zero_add, Nat.sub_zero, List.nil_append, written_nil,
    takeWhile_getD] at loop
  rw [setAmxString, if_neg (Nat.ne_of_gt room), loop, ← written_concat, List.length_map]

/-- **What it returns** is the length of the text, up to `max_size`. -/
theorem setAmxString_count (dest : Cells) (str : Option Text) {maxSize : Nat}
    (room : 0 < maxSize) :
    (setAmxString dest str maxSize).2 = min (cText str).length maxSize := by
  have loop := copyLoop_eq dest (str.getD []) [] room
  simp only [List.length_nil, Nat.zero_add, written_nil, takeWhile_getD] at loop
  rw [setAmxString, if_neg (Nat.ne_of_gt room), loop]

/-- The cells that are written, as the other modules have them. -/
theorem setAmxString_cells (dest : Cells) (str : Option Text) (maxSize : Nat) :
    (setAmxString dest str maxSize).1 = written dest (amxString (cText str) maxSize) := by
  by_cases none : maxSize = 0
  · rw [setAmxString, if_pos none, amxString, if_pos none, written_nil]
  · rw [setAmxString_writes dest str (Nat.pos_of_ne_zero none), amxString, if_neg none]
    rfl

/-- What `set_amx_string` is for: it writes the beginning of the text that fits, and returns how
many characters these are. -/
structure Transfers (dest : Cells) (str : Option Text) (maxSize : Nat) : Prop where
  writes : (setAmxString dest str maxSize).1 =
    written dest (((cText str).take (maxSize - 1)).map cellOf ++ [0])
  counts : (setAmxString dest str maxSize).2 = ((cText str).take (maxSize - 1)).length

/-- A text that is cut is counted one character longer than it was written. -/
theorem transfers_iff (dest : Cells) (str : Option Text) {maxSize : Nat} (room : 0 < maxSize) :
    Transfers dest str maxSize ↔ (cText str).length < maxSize := by
  have count := setAmxString_count dest str room
  constructor
  · intro transfers
    have same := count.symm.trans transfers.counts
    rw [List.length_take] at same
    omega
  · intro fits
    refine ⟨setAmxString_writes dest str room, ?_⟩
    rw [count, List.length_take]
    omega

/-- What is returned is the length that is found, unless the text is cut. -/
theorem findsLength_setAmxString (dest : Cells) (str : Option Text) {maxSize : Nat}
    (room : 0 < maxSize) :
    FindsLength (setAmxString dest str maxSize).1 (setAmxString dest str maxSize).2 ↔
      (cText str).length < maxSize := by
  have whole : ∀ b ∈ (cText str).take (maxSize - 1), b ≠ 0 := by
    intro b member
    exact cText_ne_zero b (List.mem_of_mem_take member)
  have finds := findsLength_written dest whole
  rw [← setAmxString_writes dest str room] at finds
  rw [← transfers_iff dest str room]
  constructor
  · intro counted
    exact ⟨setAmxString_writes dest str room, counted.unique finds⟩
  · intro transfers
    rw [transfers.counts]
    exact finds

end Refsapi
