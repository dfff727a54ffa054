/-
# Log.Lines -- what a record looks like in its file

`cc` writes the control characters of a record as a backslash and a code: a letter, or `x` and
two digits.  What comes out has no control character, so a record stays on the line that `write`
begins for it (`records_unforgeable`).  A surrogate has no encoding in the file: `write` has no
result for it, for its stream fails and takes no line any more.

With `with_slashes` the backslash has a code too.  Then the record can be read back (`uncc_cc`),
though `x1A` is in the table of codes and has the form of the others.
-/
import Refsapi.Lib.Decimal

namespace Refsapi.Log

set_option autoImplicit false

/-! ## Characters -/

/-- A `wchar_t` that is a code point of Unicode; unlike a `Char` it may be a surrogate. -/
abbrev CodePoint : Type := Fin 0x110000

abbrev CodePoints : Type := List CodePoint

def point (c : Char) : CodePoint := Fin.ofNat 0x110000 c.toNat

def points (s : List Char) : CodePoints := s.map point

def newline : CodePoint := point '\n'

/-- The code point is no surrogate. -/
def Scalar (c : CodePoint) : Prop := c.val < 0xD800 ∨ 0xDFFF < c.val

instance (c : CodePoint) : Decidable (Scalar c) := inferInstanceAs (Decidable (_ ∨ _))

def Printable (c : CodePoint) : Prop := 32 ≤ c.val ∧ c.val ≠ 127

instance (c : CodePoint) : Decidable (Printable c) := inferInstanceAs (Decidable (_ ∧ _))

/-! ## `cc` -/

/-- The default of the parameter `cc`; no caller gives another. -/
def escape : CodePoint := point '\\'

/-- `map` -/
def controls : List (CodePoint × CodePoints) :=
  [(0x00, points ['0']),
   (0x07, points ['a']),
   (0x08, points ['b']),
   (0x09, points ['t']),
   (0x0A, points ['n']),
   (0x0B, points ['v']),
   (0x0C, points ['f']),
   (0x0D, points ['r']),
   (0x1A, points ['x', '1', 'A']),
   (0x1B, points ['x', '1', 'B']),
   (point '\\', points ['\\'])]

def upperDigit (n : Nat) : CodePoint := point (n.digitChar.toUpper)

/-- `%02X` of a number below 256. -/
def hex02 (n : Nat) : CodePoints := [upperDigit (n / 16 % 16), upperDigit (n % 16)]

/-- One round of the loop of `cc`: what is appended to the result. -/
def ccChar (withSlashes : Bool) (c : CodePoint) : CodePoints :=
  if c ≠ point '\\' || withSlashes then
    match controls.lookup c with
    | some code => escape :: code
    | none =>
        if c.val < 32 || c.val = 127 then escape :: point 'x' :: hex02 c.val else [c]
  else [c]

def cc (str : CodePoints) (withSlashes : Bool) : CodePoints := str.flatMap (ccChar withSlashes)

/-! ## `write` -/

/-- The fields of `std::tm` that a format of the log uses; `month` counts from 1. -/
structure Tm where
  mday : Nat
  month : Nat
  year : Nat
  hour : Nat
  min : Nat
  sec : Nat

/-- `format_time` with its default format; `localtime` is that of the C library. -/
def formatTime (localtime : Int → Tm) (time : Int) : List Char :=
  let tm := localtime (time.tdiv 1000000000)
  lastDigits 2 tm.mday ++ '/' :: lastDigits 2 tm.month ++ '/' :: Nat.toDigits 10 tm.year ++
    " - ".toList ++ lastDigits 2 tm.hour ++ ':' :: lastDigits 2 tm.min ++
    ':' :: lastDigits 2 tm.sec

/-- A record: the time, in nanoseconds, and the text. -/
structure Line where
  time : Int
  str : CodePoints

/-- `std::setfill(L'0') << std::setw(3)` and a number. -/
def filled (n : Int) : List Char :=
  ((if n < 0 then ['-'] else []) ++ Nat.toDigits 10 n.natAbs).leftpad 3 '0'

/-- What `write` puts before the text of a record. -/
def linePrefix (localtime : Int → Tm) (prefixMode : UInt8) (line : Line) : List Char :=
  match prefixMode with
  | 1 => "L ".toList ++ formatTime localtime line.time ++ ": ".toList
  | 2 =>
      let ms := (line.time.tdiv 1000).tmod 1000000
      "L ".toList ++ formatTime localtime line.time ++ '.' :: filled (ms.tdiv 1000) ++ ": ".toList
  | _ => []

/-- The parts of a `file_t` that `write` reads, and the text that has been put into `s`. -/
structure Stream where
  prefixMode : UInt8
  isOpen : Bool
  text : CodePoints

/-- A record as `write` puts it into the file, without the newline. -/
def row (localtime : Int → Tm) (prefixMode : UInt8) (line : Line) : CodePoints :=
  points (linePrefix localtime prefixMode line) ++ cc line.str false

/-- What `write` puts into the file for a batch. -/
def rows (localtime : Int → Tm) (prefixMode : UInt8) (batch : List Line) : CodePoints :=
  batch.flatMap fun line => row localtime prefixMode line ++ [newline]

/-- `write`: the file and the batch after it; `none` where a character cannot be encoded. -/
def writeLines (localtime : Int → Tm) (file : Stream) (batch : List Line) :
    Option (Stream × List Line) :=
  if file.isOpen then
    let put := rows localtime file.prefixMode batch
    if put.all fun c => Scalar c then some ({ file with text := file.text ++ put }, []) else none
  else some (file, [])

/-! ## What it is for -/

/-- The lines of a text in which the last one ends too. -/
def lines (text : CodePoints) : List CodePoints := (text.splitOn newline).dropLast

/-- What the letter after a backslash stands for. -/
def ofLetter (letter : CodePoint) : CodePoint :=
  ((controls.find? fun entry => entry.2 == [letter]).map Prod.fst).getD letter

def ofUpperDigit (digit : CodePoint) : Nat :=
  if digit.val < 65 then digit.val - 48 else digit.val - 55

/-- Reads the codes of `cc` back. -/
def uncc : CodePoints → CodePoints
  | [] => []
  | c :: rest =>
      if c = escape then
        match rest with
        | [] => []
        | letter :: rest =>
            if letter = point 'x' then
              match rest with
              | high :: low :: rest =>
                  Fin.ofNat 0x110000 (ofUpperDigit high * 16 + ofUpperDigit low) :: uncc rest
              | _ => []
            else ofLetter letter :: uncc rest
      else c :: uncc rest

/-! ## No control character -/

theorem printable_upperDigit (n : Nat) : Printable (upperDigit (n % 16)) := by
  have below : n % 16 < 16 := Nat.mod_lt n (by decide)
  generalize n % 16 = digit at below
  revert digit
  decide

theorem printable_controls : ∀ entry ∈ controls, ∀ c ∈ entry.2, Printable c := by
  have all : (controls.all fun entry => entry.2.all fun c => decide (Printable c)) = true := by
    decide
  simpa only [List.all_eq_true, decide_eq_true_eq] using all

theorem mem_of_lookup {c : CodePoint} {code : CodePoints} (found : controls.lookup c = some code) :
    (c, code) ∈ controls := by
  obtain ⟨before, after, whole, -⟩ := List.lookup_eq_some_iff.1 found
  rw [whole]
  exact List.mem_append_right _ List.mem_cons_self

theorem printable_ccChar {withSlashes : Bool} {c d : CodePoint}
    (member : d ∈ ccChar withSlashes c) : Printable d := by
  have backslash : Printable (point '\\') := by decide
  rw [ccChar] at member
  split at member
  · split at member
    · next code found =>
        rcases List.mem_cons.1 member with rfl | inCode
        · exact backslash
        · exact printable_controls _ (mem_of_lookup found) d inCode
    · split at member
      · simp only [hex02, List.mem_cons, List.not_mem_nil, or_false] at member
        rcases member with rfl | rfl | rfl | rfl
        · exact backslash
        · decide
        · exact printable_upperDigit _
        · exact printable_upperDigit _
      · next plain =>
          obtain rfl := List.mem_singleton.1 member
          simpa [Printable] using plain
  · next notSlash =>
      obtain rfl := List.mem_singleton.1 member
      have isBackslash : d = point '\\' := by simp_all
      exact isBackslash ▸ backslash

theorem printable_cc {str : CodePoints} {withSlashes : Bool} {c : CodePoint}
    (member : c ∈ cc str withSlashes) : Printable c := by
  obtain ⟨source, -, inCode⟩ := List.mem_flatMap.1 member
  exact printable_ccChar inCode

/-! ## One line for a record -/

theorem val_point (c : Char) : (point c).val = c.toNat := by
  refine Nat.mod_eq_of_lt ?_
  rcases c.valid with low | high
  · exact Nat.lt_trans low (by decide)
  · exact high.2

theorem newline_not_mem_points {s : List Char} (noNewline : '\n' ∉ s) : newline ∉ points s := by
  intro member
  obtain ⟨c, inText, isNewline⟩ := List.mem_map.1 member
  have same := congrArg Fin.val isNewline
  rw [newline, val_point, val_point] at same
  exact noNewline (Char.toNat_inj.1 same ▸ inText)

theorem newline_not_mem_digits {s : List Char} (digits : ∀ c ∈ s, c.isDigit = true) :
    '\n' ∉ s := by
  intro member
  cases digits '\n' member

theorem newline_not_mem_lastDigits (n k : Nat) : '\n' ∉ lastDigits n k :=
  newline_not_mem_digits fun _ member => isDigit_of_mem_lastDigits member

theorem newline_not_mem_toDigits (k : Nat) : '\n' ∉ Nat.toDigits 10 k :=
  newline_not_mem_digits fun _ member =>
    Nat.isDigit_of_mem_toDigits (by decide) (by decide) member

theorem newline_not_mem_formatTime (localtime : Int → Tm) (time : Int) :
    '\n' ∉ formatTime localtime time := by
  have digits := newline_not_mem_lastDigits 2
  simp only [formatTime, List.mem_append, List.mem_cons, digits, newline_not_mem_toDigits]
  decide

theorem newline_not_mem_filled (n : Int) : '\n' ∉ filled n := by
  have digits := newline_not_mem_toDigits n.natAbs
  rw [filled, List.leftpad, List.mem_append, List.mem_append]
  rintro (fill | sign | digit)
  · exact absurd (List.eq_of_mem_replicate fill) (by decide)
  · split at sign
    · exact absurd sign (by decide)
    · cases sign
  · exact digits digit

theorem newline_not_mem_linePrefix (localtime : Int → Tm) (prefixMode : UInt8) (line : Line) :
    '\n' ∉ linePrefix localtime prefixMode line := by
  have time := newline_not_mem_formatTime localtime line.time
  have ms := newline_not_mem_filled
  unfold linePrefix
  split
  · simp only [List.mem_append, time]
    decide
  · simp only [List.mem_append, List.mem_cons, time, ms]
    decide
  · exact List.not_mem_nil

theorem newline_not_mem_row (localtime : Int → Tm) (prefixMode : UInt8) (line : Line) :
    newline ∉ row localtime prefixMode line := by
  intro member
  rcases List.mem_append.1 member with before | text
  · exact newline_not_mem_points (newline_not_mem_linePrefix localtime prefixMode line) before
  · exact absurd (printable_cc text) (by decide)

theorem lines_cons {first : CodePoints} (noNewline : newline ∉ first) (rest : CodePoints) :
    lines (first ++ [newline] ++ rest) = first :: lines rest := by
  rw [lines, List.append_assoc, List.singleton_append,
    List.splitOn_append_cons_self_of_not_mem noNewline,
    List.dropLast_cons_of_ne_nil (List.splitOn_ne_nil _ _)]
  rfl

theorem lines_rows {rows : List CodePoints} (noNewline : ∀ first ∈ rows, newline ∉ first) :
    lines (rows.flatMap fun first => first ++ [newline]) = rows := by
  induction rows with
  | nil => rfl
  | cons first rest ih =>
      obtain ⟨here, later⟩ := List.forall_mem_cons.1 noNewline
      rw [List.flatMap_cons, lines_cons here, ih later]

/-! ## Characters that have an encoding -/

theorem scalar_points {s : List Char} {c : CodePoint} (member : c ∈ points s) : Scalar c := by
  obtain ⟨char, -, rfl⟩ := List.mem_map.1 member
  rw [Scalar, val_point]
  rcases char.valid with low | high
  · exact .inl low
  · exact .inr high.1

theorem scalar_controls : ∀ entry ∈ controls, ∀ c ∈ entry.2, Scalar c := by
  have all : (controls.all fun entry => entry.2.all fun c => decide (Scalar c)) = true := by decide
  simpa only [List.all_eq_true, decide_eq_true_eq] using all

theorem scalar_upperDigit (n : Nat) : Scalar (upperDigit (n % 16)) := by
  have below : n % 16 < 16 := Nat.mod_lt n (by decide)
  generalize n % 16 = digit at below
  revert digit
  decide

/-- A surrogate comes out of `cc` as it is, and no other character becomes one. -/
theorem scalar_ccChar_iff {withSlashes : Bool} (c : CodePoint) :
    (∀ d ∈ ccChar withSlashes c, Scalar d) ↔ Scalar c := by
  have slash : Scalar escape := by decide
  rw [ccChar]
  split
  · split
    · next code found =>
        have inCode := scalar_controls _ (mem_of_lookup found)
        have table : ∀ entry ∈ controls, Scalar entry.1 := by decide
        refine iff_of_true ?_ (table _ (mem_of_lookup found))
        exact List.forall_mem_cons.2 ⟨slash, inCode⟩
    · split
      · next control =>
          refine iff_of_true ?_ (.inl ?_)
          · intro d member
            simp only [hex02, List.mem_cons, List.not_mem_nil, or_false] at member
            rcases member with rfl | rfl | rfl | rfl
            · exact slash
            · decide
            · exact scalar_upperDigit _
            · exact scalar_upperDigit _
          · simp only [Bool.or_eq_true, decide_eq_true_eq] at control
            omega
      · simp only [List.mem_singleton, forall_eq]
  · simp only [List.mem_singleton, forall_eq]

theorem scalar_cc_iff (str : CodePoints) (withSlashes : Bool) :
    (∀ c ∈ cc str withSlashes, Scalar c) ↔ ∀ c ∈ str, Scalar c := by
  simp only [cc, List.forall_mem_flatMap, scalar_ccChar_iff]

/-- What is put into the file can be encoded if the records can. -/
theorem scalar_rows_iff (localtime : Int → Tm) (prefixMode : UInt8) (batch : List Line) :
    (∀ c ∈ rows localtime prefixMode batch, Scalar c) ↔
      ∀ line ∈ batch, ∀ c ∈ line.str, Scalar c := by
  have ends : Scalar newline := by decide
  simp only [rows, row, List.forall_mem_flatMap, List.forall_mem_append, List.mem_singleton,
    forall_eq, ends, and_true, scalar_cc_iff]
  constructor
  · exact fun all line member => (all line member).2
  · exact fun all line member => ⟨fun c inPrefix => scalar_points inPrefix, all line member⟩

/-! ## Reading a record back -/

theorem ofUpperDigit_upperDigit (n : Nat) : ofUpperDigit (upperDigit (n % 16)) = n % 16 := by
  have below : n % 16 < 16 := Nat.mod_lt n (by decide)
  generalize n % 16 = digit at below ⊢
  revert digit
  decide

theorem uncc_letter {letter : CodePoint} (noHex : letter ≠ point 'x') (rest : CodePoints) :
    uncc (escape :: letter :: rest) = ofLetter letter :: uncc rest := by
  rw [uncc.eq_def]
  simp only [if_true, if_neg noHex]

theorem uncc_hex (high low : CodePoint) (rest : CodePoints) :
    uncc (escape :: point 'x' :: high :: low :: rest) =
      Fin.ofNat 0x110000 (ofUpperDigit high * 16 + ofUpperDigit low) :: uncc rest := by
  rw [uncc.eq_def]
  simp only [if_true]

theorem uncc_plain {c : CodePoint} (plain : c ≠ escape) (rest : CodePoints) :
    uncc (c :: rest) = c :: uncc rest := by
  rw [uncc.eq_def]
  simp only [if_neg plain]

/-- A code of the table is a letter of its own, or has the form of the others. -/
def Decodable (entry : CodePoint × CodePoints) : Bool :=
  match entry.2 with
  | [letter] => letter != point 'x' && ofLetter letter == entry.1
  | code => code == point 'x' :: hex02 entry.1.val && entry.1.val < 256

theorem decodable_controls : controls.all Decodable = true := by decide

theorem uncc_ccChar (c : CodePoint) (rest : CodePoints) :
    uncc (ccChar true c ++ rest) = c :: uncc rest := by
  have number (below : c.val < 256) :
      uncc (escape :: point 'x' :: hex02 c.val ++ rest) = c :: uncc rest := by
    change uncc (escape :: point 'x' :: upperDigit _ :: upperDigit _ :: rest) = _
    rw [uncc_hex, ofUpperDigit_upperDigit, ofUpperDigit_upperDigit]
    have whole : c.val / 16 % 16 * 16 + c.val % 16 = c.val := by omega
    rw [whole]
    exact congrArg (· :: uncc rest) (Fin.ofNat_val_eq_self c)
  rw [ccChar, if_pos (by simp)]
  split
  · next code found =>
      have decodable := List.all_eq_true.1 decodable_controls _ (mem_of_lookup found)
      unfold Decodable at decodable
      split at decodable
      · next letter isLetter =>
          obtain ⟨noHex, same⟩ := Bool.and_eq_true_iff.1 decodable
          rw [show code = [letter] from isLetter]
          exact (uncc_letter (bne_iff_ne.1 noHex) rest).trans
            (congrArg (· :: uncc rest) (eq_of_beq same))
      · obtain ⟨isHex, below⟩ := Bool.and_eq_true_iff.1 decodable
        rw [show code = _ from eq_of_beq isHex]
        exact number (of_decide_eq_true below)
  · next missing =>
      split
      · exact number (by simp_all; omega)
      · refine uncc_plain ?_ rest
        rintro rfl
        cases missing

/-- **A record with slashes can be read back.** -/
theorem uncc_cc (str : CodePoints) : uncc (cc str true) = str := by
  induction str with
  | nil => rfl
  | cons c rest ih => rw [cc, List.flatMap_cons, uncc_ccChar, ← cc, ih]

/-! ## Records -/

/-- **Records cannot be forged.**  What `cc` gives has no control character.  `write` has a result
if the file is closed or no record has a surrogate, and what it appends to an open file are the
lines of the batch, one for each record: the text that `cc` gives behind a prefix.  With slashes
two texts of which `cc` gives the same are the same, for it can be read back. -/
theorem records_unforgeable (localtime : Int → Tm) (file : Stream) (batch : List Line) :
    (∀ str withSlashes, ∀ c ∈ cc str withSlashes, 32 ≤ c.val ∧ c.val ≠ 127) ∧
      (writeLines localtime file batch = none ↔
        file.isOpen = true ∧ ∃ line ∈ batch, ∃ c ∈ line.str, ¬ Scalar c) ∧
      (∀ file' rest, writeLines localtime file batch = some (file', rest) → rest = [] ∧
        ∃ written, file'.text = file.text ++ written ∧ lines written =
          if file.isOpen then
            batch.map fun line =>
              points (linePrefix localtime file.prefixMode line) ++ cc line.str false
          else []) ∧
      (Function.Injective fun str => cc str true) ∧ ∀ str, uncc (cc str true) = str := by
  refine ⟨fun str slashes c member => printable_cc member, ?_, ?_,
    Function.LeftInverse.injective uncc_cc, uncc_cc⟩
  · have encodes : ((rows localtime file.prefixMode batch).all fun c => Scalar c) = true ↔
        ∀ line ∈ batch, ∀ c ∈ line.str, Scalar c := by
      rw [← scalar_rows_iff localtime file.prefixMode batch]
      simp only [List.all_eq_true, decide_eq_true_eq]
    have some : (∃ line ∈ batch, ∃ c ∈ line.str, ¬ Scalar c) ↔
        ¬ ∀ line ∈ batch, ∀ c ∈ line.str, Scalar c := by
      push Not
      exact Iff.rfl
    rw [some, ← encodes, writeLines]
    dsimp only
    by_cases isOpen : file.isOpen = true
    · rw [if_pos isOpen, ite_eq_right_iff]
      exact ⟨fun none => ⟨isOpen, fun put => Option.some_ne_none _ (none put)⟩,
        fun missing put => absurd put missing.2⟩
    · rw [if_neg isOpen]
      exact ⟨fun none => absurd none (Option.some_ne_none _),
        fun missing => absurd missing.1 isOpen⟩
  · intro file' rest writes
    rw [writeLines] at writes
    split at writes
    · next isOpen =>
        dsimp only at writes
        split at writes
        · cases writes
          refine ⟨rfl, _, rfl, ?_⟩
          have noNewline : ∀ first ∈ batch.map (row localtime file.prefixMode),
              newline ∉ first := by
            intro first member
            obtain ⟨line, -, rfl⟩ := List.mem_map.1 member
            exact newline_not_mem_row localtime file.prefixMode line
          have separate := lines_rows noNewline
          rw [List.flatMap_map] at separate
          rw [if_pos isOpen]
          exact separate
        · cases writes
    · next closed =>
        cases writes
        exact ⟨rfl, [], (List.append_nil _).symm, (if_neg closed).symm ▸ rfl⟩

end Refsapi.Log
