/-
# Lib.Bytes -- numbers in memory, and loads that stay inside a buffer

`ofNat width n` is the number `n` in `width` bytes, lowest byte first, and
`toNat` reads it back up to the wrap (`toNat_ofNat`).  `load buffer start len`
is a load of a range of a buffer; it has no value when the range is not inside
the buffer, so that a program which never gets `none` reads only inside.
-/
import Mathlib.Data.List.Basic
import Mathlib.Algebra.Group.Nat.Even

namespace Bytes

set_option autoImplicit false

/-- The number in `width` bytes, lowest byte first. -/
def ofNat : Nat → Nat → List UInt8
  | 0, _ => []
  | width + 1, n => UInt8.ofNat n :: ofNat width (n / 256)

def toNat : List UInt8 → Nat
  | [] => 0
  | b :: rest => b.toNat + 256 * toNat rest

@[simp] theorem length_ofNat (width n : Nat) : (ofNat width n).length = width := by
  induction width generalizing n with
  | zero => rfl
  | succ width ih => rw [ofNat, List.length_cons, ih]

/-- What was stored is read back, up to the wrap. -/
theorem toNat_ofNat (width n : Nat) : toNat (ofNat width n) = n % 256 ^ width := by
  induction width generalizing n with
  | zero => simp [ofNat, toNat, Nat.mod_one]
  | succ width ih =>
      have wrap : n % (256 * 256 ^ width) = n % 256 + 256 * (n / 256 % 256 ^ width) :=
        Nat.mod_mul
      rw [ofNat, toNat, ih, pow_succ', wrap]
      simp

/-- What fits is read back as it is. -/
theorem toNat_ofNat_of_lt {width n : Nat} (fits : n < 256 ^ width) :
    toNat (ofNat width n) = n := by
  rw [toNat_ofNat, Nat.mod_eq_of_lt fits]

/-- What was read is stored as it was. -/
theorem ofNat_toNat (bytes : List UInt8) : ofNat bytes.length (toNat bytes) = bytes := by
  induction bytes with
  | nil => rfl
  | cons b rest ih =>
      have low := b.toNat_lt
      have first : UInt8.ofNat (b.toNat + 256 * toNat rest) = b := by
        rw [← UInt8.toNat_inj, UInt8.toNat_ofNat']
        omega
      have others : (b.toNat + 256 * toNat rest) / 256 = toNat rest := by omega
      rw [toNat, List.length_cons, ofNat, first, others, ih]

theorem toNat_lt (bytes : List UInt8) : toNat bytes < 256 ^ bytes.length := by
  induction bytes with
  | nil => exact Nat.one_pos
  | cons b rest ih =>
      have low := b.toNat_lt
      rw [toNat, List.length_cons, pow_succ']
      omega

theorem ofNat_inj {width m n : Nat} (small : m < 256 ^ width) (small' : n < 256 ^ width)
    (same : ofNat width m = ofNat width n) : m = n := by
  have same := congrArg toNat same
  rwa [toNat_ofNat_of_lt small, toNat_ofNat_of_lt small'] at same

/-- The first bytes of a buffer after a sequence of writes, each at its offset.
What was not written reads as zero. -/
def contents (writes : List (Int × List UInt8)) (len : Nat) : List UInt8 :=
  (List.range len).map fun i => writes.foldl
    (fun byte write => if (i : Int) < write.1 then byte
      else (write.2[(i - write.1).toNat]?).getD byte) 0

/-! ## Writes side by side -/

/-- A byte at an address after a sequence of writes. -/
def stored (writes : List (Int × List UInt8)) (address : Int) (byte : UInt8) : UInt8 :=
  writes.foldl (fun byte write => if address < write.1 then byte
    else (write.2[(address - write.1).toNat]?).getD byte) byte

theorem stored_append (first second : List (Int × List UInt8)) (address : Int) (byte : UInt8) :
    stored (first ++ second) address byte = stored second address (stored first address byte) :=
  List.foldl_append

/-- The writes put these bytes there, and nothing elsewhere. -/
structure Lays (writes : List (Int × List UInt8)) (pos : Int) (bytes : List UInt8) : Prop where
  inside : ∀ (i : Nat) (within : i < bytes.length) (byte : UInt8),
    stored writes (pos + i) byte = bytes[i]
  outside : ∀ (address : Int) (byte : UInt8), address < pos ∨ pos + bytes.length ≤ address →
    stored writes address byte = byte

theorem Lays.nil (pos : Int) : Lays [] pos [] :=
  ⟨fun i within => absurd within (Nat.not_lt_zero i), fun _ _ _ => rfl⟩

theorem Lays.single (pos : Int) (bytes : List UInt8) : Lays [(pos, bytes)] pos bytes where
  inside i within byte := by
    have offset : (pos + i - pos).toNat = i := by omega
    have after : ¬ pos + i < pos := by omega
    rw [stored, List.foldl_cons, List.foldl_nil, if_neg after, offset,
      List.getElem?_eq_getElem within, Option.getD_some]
  outside address byte elsewhere := by
    rw [stored, List.foldl_cons, List.foldl_nil]
    split
    · rfl
    · next after =>
        rw [List.getElem?_eq_none (by simp only; omega), Option.getD_none]

section Parts

variable {first second : List (Int × List UInt8)} {pos behind : Int} {bytes rest : List UInt8}

/-- Parts that lie side by side may be written in either order. -/
theorem Lays.parts (lays : Lays first pos bytes) (next : Lays second behind rest)
    (side : behind = pos + bytes.length) :
    Lays (first ++ second) pos (bytes ++ rest) ∧ Lays (second ++ first) pos (bytes ++ rest) := by
  subst side
  have here (i : Nat) (within : i < (bytes ++ rest).length) (byte : UInt8) :
      (∃ short : i < bytes.length, (bytes ++ rest)[i] = bytes[i]) ∨
        ∃ k, i = bytes.length + k ∧ ∃ short : k < rest.length, (bytes ++ rest)[i] = rest[k] := by
    rw [List.length_append] at within
    by_cases short : i < bytes.length
    · exact .inl ⟨short, List.getElem_append_left short⟩
    · refine .inr ⟨i - bytes.length, by omega, by omega, ?_⟩
      exact List.getElem_append_right (Nat.le_of_not_lt short)
  constructor
  · refine ⟨fun i within byte => ?_, fun address byte elsewhere => ?_⟩
    · rw [stored_append]
      rcases here i within byte with ⟨short, same⟩ | ⟨k, rfl, short, same⟩
      · rw [next.outside _ _ (.inl (by omega)), lays.inside i short, same]
      · rw [same, ← next.inside k short]
        congr 1
        omega
    · rw [List.length_append] at elsewhere
      rw [stored_append, lays.outside _ _ (by omega), next.outside _ _ (by omega)]
  · refine ⟨fun i within byte => ?_, fun address byte elsewhere => ?_⟩
    · rw [stored_append]
      rcases here i within byte with ⟨short, same⟩ | ⟨k, rfl, short, same⟩
      · rw [lays.inside i short, same]
      · rw [lays.outside _ _ (.inr (by omega)), same, ← next.inside k short byte]
        congr 1
        omega
    · rw [List.length_append] at elsewhere
      rw [stored_append, next.outside _ _ (by omega), lays.outside _ _ (by omega)]

end Parts

theorem contents_eq (writes : List (Int × List UInt8)) (len : Nat) :
    contents writes len = (List.range len).map fun i : Nat => stored writes i 0 := by
  simp only [contents, stored, bind_pure_comp, List.map_eq_map, List.map_map]
  rfl

@[simp] theorem length_contents (writes : List (Int × List UInt8)) (len : Nat) :
    (contents writes len).length = len := by
  rw [contents_eq, List.length_map, List.length_range]

theorem Lays.contents {writes : List (Int × List UInt8)} {bytes : List UInt8}
    (lays : Lays writes 0 bytes) : contents writes bytes.length = bytes := by
  rw [contents_eq]
  refine List.ext_getElem (by simp) fun i here there => ?_
  have stores := lays.inside i there 0
  rw [Int.zero_add] at stores
  rw [List.getElem_map, List.getElem_range, stores]

/-! ## Loads -/

/-- The bytes `start, …, start + len - 1` of the buffer. -/
def load (buffer : List UInt8) (start len : Nat) : Option (List UInt8) :=
  if start + len ≤ buffer.length then some ((buffer.drop start).take len) else none

theorem load_eq_some_iff {buffer bytes : List UInt8} {start len : Nat} :
    load buffer start len = some bytes ↔
      start + len ≤ buffer.length ∧ (buffer.drop start).take len = bytes := by
  rw [load]
  split
  · next inside => simp [inside]
  · next outside => simp [outside]

theorem length_of_load {buffer bytes : List UInt8} {start len : Nat}
    (loads : load buffer start len = some bytes) : bytes.length = len := by
  obtain ⟨inside, rfl⟩ := load_eq_some_iff.1 loads
  rw [List.length_take, List.length_drop]
  omega

theorem load_of_le {buffer : List UInt8} {start len : Nat} (inside : start + len ≤ buffer.length) :
    load buffer start len = some ((buffer.drop start).take len) := if_pos inside

/-- A load of a part of a buffer that is laid out in parts. -/
theorem load_append (before part after : List UInt8) :
    load (before ++ part ++ after) before.length part.length = some part := by
  rw [load_eq_some_iff]
  refine ⟨by simp only [List.length_append]; omega, ?_⟩
  rw [List.append_assoc, List.drop_left, List.take_left]

end Bytes
