/-
# Mysql.Fields -- the texts of a query, given to a plugin

`query_str`, `field_name` and `fetch_field` give a text in the array that the native returns,
or, for a plugin that hands over a buffer, in the buffer; then the first cell of the array is
to be the length of what is in it.  `set_amx_string` returns one more where it cuts the text
(`Native.length_iff`).
-/
import Refsapi.Misc.AmxText

namespace Refsapi.Mysql

set_option autoImplicit false

/-! ## What the natives read -/

/-- `enum_field_types`, as far as `fetch_field` tells them apart. -/
inductive FieldType where
  | tiny | short | int24 | long | longLong | bit | null
  | float | double | decimal | newDecimal
  | other
  deriving DecidableEq, Repr

structure Field where
  name : Text
  type : FieldType

/-- A result with fields, and the row that was fetched; a value may be a null. -/
structure Table where
  fCount : Nat
  fields : Fin fCount → Field
  row : Option (Fin fCount → Option Text)

/-- What is read of a `m_query_t`. -/
structure QueryTexts where
  isValidConn : Bool
  query : Text
  result : Option Table
  fNames : Text → Option Nat

/-- The modes of `fetch_field`; all others are as `FT_STR_BUFF`. -/
inductive FetchMode where
  | auto | int | flt | str | strBuff
  deriving DecidableEq, Repr

/-- The array that a native returns, and the buffer of the plugin. -/
structure Memory where
  ret : Cells
  buff : Cells

def rfMaxFieldSize : Nat := 256
def rfMaxFieldName : Nat := 64

/-! ## The natives -/

namespace Memory

/-- `*ret = value` -/
def give (m : Memory) (value : Cell) : Memory := { m with ret := Function.update m.ret 0 value }

/-- `*ret = set_amx_string(buff, text, buff_len + 1)` -/
def giveBuff (m : Memory) (text : Option Text) (buffLen : UInt32) : Memory :=
  let written := setAmxString m.buff text (buffLen + 1).toNat
  ({ m with buff := written.1 } : Memory).give (.ofNat 32 written.2)

/-- `set_amx_string(ret, text, size)` -/
def giveRet (m : Memory) (text : Option Text) (size : Nat) : Memory :=
  { m with ret := (setAmxString m.ret text size).1 }

/-- There is no text: an empty one. -/
def refuse (m : Memory) (buffLen : UInt32) : Memory :=
  ({ m with buff := if buffLen ≠ 0 then Function.update m.buff 0 0 else m.buff } : Memory).give 0

end Memory

namespace QueryTexts

variable (q : QueryTexts)

def hasRow : Bool :=
  match q.result with
  | none => false
  | some table => table.row.isSome

/-- The field and the value at an offset that the natives do not refuse. -/
def field (offset : Nat) : Option (Field × Option Text) :=
  if q.isValidConn then
    q.result.bind fun table => table.row.bind fun row =>
      if inside : offset < table.fCount then
        some (table.fields ⟨offset, inside⟩, row ⟨offset, inside⟩)
      else none
  else none

def queryStr (buffLen : UInt32) (m : Memory) : Memory :=
  if !q.isValidConn || q.query.isEmpty then m.refuse buffLen
  else if buffLen ≠ 0 then m.giveBuff (some q.query) buffLen
  else m.giveRet (some q.query) rfMaxFieldSize

def fieldName (offset : Nat) (buffLen : UInt32) (m : Memory) : Memory :=
  match q.field offset with
  | none => m.refuse buffLen
  | some (field, _) =>
      if buffLen ≠ 0 then m.giveBuff (some field.name) buffLen
      else m.giveRet (some field.name) rfMaxFieldName

/-- `f ? atoi(f) : 0` -/
def fieldInt : Option Text → Cell
  | none => 0
  | some f => .ofInt 32 (atoi f)

/-- `amx_ftoc(f ? (float)atof(f) : 0.0f)` -/
def fieldFloat : Option Text → Cell
  | none => (Fp.fin false 0).bits
  | some f =>
      match Strtod.strtod f with
      | none => (Fp.fin false 0).bits
      | some (value, _) => value.single.bits

def fetchField (offset : Nat) (mode : FetchMode) (buffLen : UInt32) (m : Memory) : Memory :=
  match q.field offset with
  | none => m.refuse buffLen
  | some (field, f) =>
      match mode with
      | .auto =>
          match field.type with
          | .tiny | .short | .int24 | .long | .longLong | .bit | .null => m.give (fieldInt f)
          | .float | .double | .decimal | .newDecimal => m.give (fieldFloat f)
          | .other => m.giveRet f rfMaxFieldSize
      | .int => m.give (fieldInt f)
      | .flt => m.give (fieldFloat f)
      | .str => m.giveRet f rfMaxFieldSize
      | .strBuff => if buffLen ≠ 0 then m.giveBuff f buffLen else m

/-- `fetch_field` of the field of that name. -/
def fetchNamed (name : Text) (mode : FetchMode) (buffLen : UInt32) (m : Memory) : Memory :=
  if q.isValidConn && q.hasRow then
    match q.fNames name with
    | none => m.refuse buffLen
    | some offset => q.fetchField offset mode buffLen m
  else m.refuse buffLen

theorem field_of_no_row (noRow : ¬(q.isValidConn && q.hasRow) = true) (offset : Nat) :
    q.field offset = none := by
  unfold field hasRow at *
  split
  · next valid =>
      rw [valid, Bool.true_and] at noRow
      cases isResult : q.result with
      | none => rfl
      | some table =>
          rw [isResult] at noRow
          simp only [Option.not_isSome_iff_eq_none] at noRow
          rw [Option.bind_some, noRow]
          rfl
  · rfl

end QueryTexts

/-- The natives that return the length of what they give. -/
inductive Native where
  | queryStr
  | fieldName (offset : Nat)
  | fetchField (offset : Nat)
  | fetchNamed (name : Text)

namespace Native

/-- The call, of a plugin that hands over a buffer. -/
def run (q : QueryTexts) : Native → UInt32 → Memory → Memory
  | queryStr => q.queryStr
  | fieldName offset => q.fieldName offset
  | fetchField offset => q.fetchField offset .strBuff
  | fetchNamed name => q.fetchNamed name .strBuff

/-- The text that is to be given, if the native does not refuse. -/
def text (q : QueryTexts) : Native → Option (Option Text)
  | queryStr => if !q.isValidConn || q.query.isEmpty then none else some (some q.query)
  | fieldName offset => (q.field offset).map fun found => some found.1.name
  | fetchField offset => (q.field offset).map fun found => found.2
  | fetchNamed name => ((q.fNames name).bind q.field).map fun found => found.2

theorem fetchField_buff (q : QueryTexts) (offset : Nat) {buffLen : UInt32}
    (buffered : buffLen ≠ 0) (m : Memory) :
    q.fetchField offset .strBuff buffLen m =
      match (q.field offset).map fun found => found.2 with
      | none => m.refuse buffLen
      | some text => m.giveBuff text buffLen := by
  rw [QueryTexts.fetchField]
  cases q.field offset with
  | none => rfl
  | some found => exact if_pos buffered

/-- All of them refuse, or give their text to the buffer. -/
theorem run_eq (q : QueryTexts) (native : Native) {buffLen : UInt32} (buffered : buffLen ≠ 0)
    (m : Memory) :
    native.run q buffLen m =
      match native.text q with
      | none => m.refuse buffLen
      | some text => m.giveBuff text buffLen := by
  cases native with
  | queryStr =>
      simp only [run, text, QueryTexts.queryStr]
      by_cases refused : (!q.isValidConn || q.query.isEmpty) = true
      · rw [if_pos refused, if_pos refused]
      · rw [if_neg refused, if_neg refused]
        exact if_pos buffered
  | fieldName offset =>
      simp only [run, text, QueryTexts.fieldName]
      cases q.field offset with
      | none => rfl
      | some found => exact if_pos buffered
  | fetchField offset => exact fetchField_buff q offset buffered m
  | fetchNamed name =>
      simp only [run, text, QueryTexts.fetchNamed]
      split
      · cases q.fNames name with
        | none => rfl
        | some offset => exact fetchField_buff q offset buffered m
      · next noRow =>
          cases q.fNames name with
          | none => rfl
          | some offset => rw [Option.bind_some, q.field_of_no_row noRow]; rfl

theorem toNat_succ {n : UInt32} (room : n ≠ 0xFFFFFFFF) : (n + 1).toNat = n.toNat + 1 := by
  have small := n.toNat_lt
  have different : n.toNat ≠ 0xFFFFFFFF := by
    intro same
    exact room (UInt32.toNat_inj.1 same)
  rw [UInt32.toNat_add]
  change (n.toNat + 1) % 2 ^ 32 = n.toNat + 1
  omega

/-- The text is not cut.  A `buff_len` of -1 leaves no room at all, and the buffer as it is. -/
def Fits (q : QueryTexts) (native : Native) (buffLen : UInt32) (m : Memory) : Prop :=
  ∀ text, native.text q = some text →
    if buffLen = 0xFFFFFFFF then m.buff 0 = 0 else (cText text).length ≤ buffLen.toNat

/-- **The length that is returned** is that of the string in the buffer, if the text fits. -/
theorem length_iff (q : QueryTexts) (native : Native) {buffLen : UInt32} (buffered : buffLen ≠ 0)
    (m : Memory) :
    FindsLength (native.run q buffLen m).buff ((native.run q buffLen m).ret 0).toNat ↔
      native.Fits q buffLen m := by
  rw [native.run_eq q buffered m, Fits]
  cases native.text q with
  | none =>
      have empty : FindsLength (Function.update m.buff 0 0) 0 :=
        findsLength_zero_iff.2 (Function.update_self ..)
      simpa [Memory.refuse, Memory.give, buffered] using empty
  | some text =>
      simp only [Memory.giveBuff, Memory.give, Function.update_self, Option.some.injEq,
        forall_eq']
      split
      · next wraps =>
          subst wraps
          have none : ((0xFFFFFFFF : UInt32) + 1).toNat = 0 := by decide
          rw [none, setAmxString, if_pos rfl]
          exact findsLength_zero_iff
      · next room =>
          have size : (buffLen + 1).toNat = buffLen.toNat + 1 := toNat_succ room
          have counted := setAmxString_count m.buff text (Nat.zero_lt_succ buffLen.toNat)
          have small : (setAmxString m.buff text (buffLen.toNat + 1)).2 < 2 ^ 32 := by
            rw [counted, Nat.succ_eq_add_one, ← size]
            exact Nat.lt_of_le_of_lt (Nat.min_le_right _ _) (buffLen + 1).toNat_lt
          rw [size, BitVec.toNat_ofNat, Nat.mod_eq_of_lt small,
            findsLength_setAmxString m.buff text (Nat.succ_pos buffLen.toNat)]
          exact Nat.lt_succ_iff

end Native

/-- **When the returned lengths are right.**  `set_amx_string` always writes what fits; that it
returns the length of this, and a native with it, is so if and only if the text is not cut. -/
theorem returned_length_iff (dest : Cells) (str : Option Text) (maxSize : Nat)
    (room : 0 < maxSize) (q : QueryTexts) (native : Native) (buffLen : UInt32)
    (buffered : buffLen ≠ 0) (m : Memory) :
    (setAmxString dest str maxSize).1 =
        written dest (((cText str).take (maxSize - 1)).map cellOf ++ [0]) ∧
      (Transfers dest str maxSize ↔ (cText str).length < maxSize) ∧
      (FindsLength (native.run q buffLen m).buff ((native.run q buffLen m).ret 0).toNat ↔
        native.Fits q buffLen m) :=
  ⟨setAmxString_writes dest str room, transfers_iff dest str room,
    native.length_iff q buffered m⟩

/-- A query that has been made, without a result. -/
def madeQuery (text : Text) : QueryTexts := ⟨true, text, none, fun _ => none⟩

/-- The text `ab` in a buffer for two characters. -/
theorem returned_length_whole :
    Transfers (fun _ => 7) (some [0x61, 0x62]) 3 ∧
      FindsLength (Native.queryStr.run (madeQuery [0x61, 0x62]) 2 ⟨fun _ => 7, fun _ => 7⟩).buff
        ((Native.queryStr.run (madeQuery [0x61, 0x62]) 2
          ⟨fun _ => 7, fun _ => 7⟩).ret 0).toNat := by
  obtain ⟨-, transfers, finds⟩ := returned_length_iff (fun _ => 7) (some [0x61, 0x62]) 3
    (by decide) (madeQuery [0x61, 0x62]) .queryStr 2 (by decide) ⟨fun _ => 7, fun _ => 7⟩
  refine ⟨transfers.2 (by decide), finds.2 ?_⟩
  intro text isText
  cases isText
  decide

/-- In a buffer for one character it is cut to `a`, and its length is said to be 2. -/
theorem cut_text_miscounted :
    ¬Transfers (fun _ => 7) (some [0x61, 0x62]) 2 ∧
      FindsLength (Native.queryStr.run (madeQuery [0x61, 0x62]) 1 ⟨fun _ => 7, fun _ => 7⟩).buff
        1 ∧
      (Native.queryStr.run (madeQuery [0x61, 0x62]) 1 ⟨fun _ => 7, fun _ => 7⟩).ret 0 = 2 := by
  refine ⟨?_, ?_, by decide⟩
  · intro transfers
    exact absurd transfers.counts (by decide)
  · refine ⟨by decide, ?_⟩
    intro i before
    obtain rfl : i = 0 := by omega
    decide

end Refsapi.Mysql
