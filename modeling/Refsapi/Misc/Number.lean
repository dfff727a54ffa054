/-
# Misc.Number -- the conversions of `refsapi_misc` and `sdk_util`

What a text is as a number, as flags and as the cells of an AMX string.  A cell
is 32 bits wide; a conversion to `int` that does not fit gives the least one, as
the processor does it.
-/
import Refsapi.Lib.Strtod
import Refsapi.Misc.Wide
import Mathlib.Data.List.DropRight

namespace Refsapi

set_option autoImplicit false

abbrev Cell : Type := BitVec 32

/-! ## Texts -/

/-- `_TRIM_CHARS`. -/
def trimBytes : Text := [0x20, 0x0D, 0x09, 0x0A, 0x08, 0x07]

/-- `trim` of a `std::string`. -/
def trimText (s : Text) : Text := (s.rdropWhile trimBytes.contains).dropWhile trimBytes.contains

def isDigit (b : UInt8) : Bool := 0x30 ≤ b && b ≤ 0x39

/-- `DECIMAL_POINT`. -/
def decimalPoint : UInt8 := 0x2E

/-- The loop of `is_number`: whether it gets to the end. -/
def isNumberLoop (dpFound : Bool) : Text → Bool
  | [] => true
  | b :: rest =>
      if isDigit b then isNumberLoop dpFound rest
      else if !dpFound && b == decimalPoint && !rest.isEmpty then isNumberLoop true rest
      else false

/-- `is_number` of a text that it has trimmed. -/
def isNumber (s : Text) : Bool :=
  match s with
  | [] => false
  | b :: rest =>
      if b == 0x2B || b == 0x2D then !rest.isEmpty && isNumberLoop false rest
      else isNumberLoop false s

/-- `safe_stod`. -/
def safeStod (str : Text) : Option Fp :=
  match Strtod.strtod str with
  | none => none
  | some (result, erange, tail) =>
      if !(tail.dropWhile Strtod.isSpace).isEmpty || erange then none else some result

/-- `set_amx_string`: the cells that it writes. -/
def amxString (str : Text) (maxSize : Nat) : List Cell :=
  if maxSize = 0 then []
  else (str.take (maxSize - 1)).map (fun b => b.toBitVec.signExtend 32) ++ [0]

/-- `atoi`, which takes what no `long` of 32 bits holds for the nearest that one does. -/
def atoi (text : Text) : Int :=
  let signed := Strtod.sign (text.dropWhile Strtod.isSpace)
  let n : Int := Strtod.ofDigits 10 (Strtod.digits 10 signed.2).1
  max (-2 ^ 31) (min (if signed.1 then -n else n) (2 ^ 31 - 1))

/-- `UTIL_ReadFlags`; a shift takes the low five bits of its count. -/
def readFlags (c : Text) : Cell :=
  c.foldl (fun flags b => flags ||| (1#32 <<< ((b.toNat + 0x100 - 0x61) % 32))) 0

/-- `UTIL_GetFlags`. -/
def getFlags (a : Cell) : Text :=
  (List.range 26).filterMap fun i => if a.getLsbD i then some (.ofNat (0x61 + i)) else none

/-! ## What a number is read as -/

theorem isNumberLoop_cons {dpFound : Bool} {b : UInt8} {rest : Text}
    (loops : isNumberLoop dpFound (b :: rest) = true) : isDigit b = true ∨ b = decimalPoint := by
  rw [isNumberLoop] at loops
  split at loops
  · next digit => exact .inl digit
  · split at loops
    · next point =>
        simp only [Bool.and_eq_true, beq_iff_eq] at point
        exact .inr point.1.2
    · cases loops

/-- A digit, as `strtod` has them. -/
theorem digit_isSome (b : UInt8) : (Strtod.digit 10 b).isSome = isDigit b := by
  unfold Strtod.digit isDigit
  simp only
  split
  · next between =>
    have high : b.toNat ≤ 0x39 := between.2
    rw [if_pos (by omega)]
    simp [between]
  · next outside =>
    rw [if_neg]
    · simp only [Option.isSome_none]
      by_contra inside
      exact outside (by simpa using Ne.symm inside)
    · split
      · omega
      split <;> omega

/-- What stands around a number: blanks that `trim` takes away. -/
def Blank (text : Text) : Prop := ∀ b ∈ text, b ∈ trimBytes

/-- The characters of a number, and the blanks around it. -/
def Neutral (b : UInt8) : Prop := isDigit b = true ∨ b = decimalPoint ∨ b ∈ trimBytes

/-- None of them is a letter that `strtod` looks for. -/
theorem isLetter_neutral {letter b : UInt8} (neutral : Neutral b)
    (isLetter : letter ∈ [0x65, 0x69, 0x6E, 0x78]) : Strtod.isLetter letter b = false := by
  by_contra is
  have is := Bool.of_not_eq_false is
  simp only [Strtod.isLetter, Bool.or_eq_true, beq_iff_eq, List.mem_cons, List.not_mem_nil,
    or_false] at is isLetter
  unfold Neutral at neutral
  rcases isLetter with rfl | rfl | rfl | rfl <;> rcases is with rfl | rfl <;>
    revert neutral <;> decide

/-- Digits before a character that is none. -/
theorem digits_append {ds rest : Text} (digits : ∀ b ∈ ds, isDigit b = true)
    (stops : ∀ b ∈ rest.head?, isDigit b = false) :
    Strtod.digits 10 (ds ++ rest) = (ds.filterMap (Strtod.digit 10), rest) := by
  induction ds with
  | nil =>
      cases rest with
      | nil => rfl
      | cons b rest =>
          have none : Strtod.digit 10 b = none := by
            rw [← Option.isNone_iff_eq_none, ← Option.not_isSome, digit_isSome, stops b rfl]
            rfl
          simp [Strtod.digits, none]
  | cons b ds ih =>
      obtain ⟨d, isD⟩ := Option.isSome_iff_exists.1
        ((digit_isSome b).trans (digits b List.mem_cons_self))
      have others := ih fun c member => digits c (List.mem_cons_of_mem _ member)
      simp [Strtod.digits, isD, others]

theorem filterMap_digit_ne_nil {ds : Text} (digits : ∀ b ∈ ds, isDigit b = true) (some : ds ≠ []) :
    (ds.filterMap (Strtod.digit 10)).isEmpty = false := by
  cases ds with
  | nil => exact absurd rfl some
  | cons b rest =>
      obtain ⟨d, isD⟩ := Option.isSome_iff_exists.1
        ((digit_isSome b).trans (digits b List.mem_cons_self))
      simp [isD]

/-- The loop of `is_number` after the point. -/
theorem digits_of_loop {text : Text} (loops : isNumberLoop true text = true) :
    ∀ b ∈ text, isDigit b = true := by
  induction text with
  | nil => exact fun b member => by cases member
  | cons b rest ih =>
      simp only [isNumberLoop, Bool.not_true, Bool.false_and, Bool.false_eq_true, if_false] at loops
      split at loops
      · next digit =>
          intro c member
          rcases List.mem_cons.1 member with rfl | later
          · exact digit
          · exact ih loops c later
      · cases loops

/-- What `is_number` accepts after the sign: digits, with a point before one of them or not. -/
theorem split_of_loop {text : Text} (loops : isNumberLoop false text = true) :
    ∃ ds more, (∀ b ∈ ds, isDigit b = true) ∧ (∀ b ∈ more, isDigit b = true) ∧
      (text = ds ∨ more ≠ [] ∧ text = ds ++ decimalPoint :: more) := by
  induction text with
  | nil => exact ⟨[], [], by simp, by simp, .inl rfl⟩
  | cons b rest ih =>
      simp only [isNumberLoop, Bool.not_false, Bool.true_and] at loops
      split at loops
      · next digit =>
          obtain ⟨ds, more, digits, part, shape⟩ := ih loops
          refine ⟨b :: ds, more, List.forall_mem_cons.2 ⟨digit, digits⟩, part, ?_⟩
          rcases shape with rfl | ⟨some, rfl⟩
          · exact .inl rfl
          · exact .inr ⟨some, rfl⟩
      · split at loops
        · next point =>
            simp only [Bool.and_eq_true, beq_iff_eq, Bool.not_eq_eq_eq_not, Bool.not_true,
              List.isEmpty_eq_false_iff] at point
            obtain ⟨rfl, some⟩ := point
            exact ⟨[], rest, by simp, digits_of_loop loops, .inr ⟨some, rfl⟩⟩
        · cases loops

/-- A blank is no digit. -/
theorem isDigit_blank {text : Text} (blank : Blank text) :
    ∀ b ∈ text.head?, isDigit b = false ∧ b ≠ decimalPoint := by
  intro b first
  have member := blank b (List.mem_of_mem_head? first)
  simp only [trimBytes, List.mem_cons, List.not_mem_nil, or_false] at member
  rcases member with rfl | rfl | rfl | rfl | rfl | rfl <;> decide

/-- The value of digits, with a point before the second ones. -/
def magnitude (ds more : Text) : ℚ :=
  (Strtod.ofDigits 10 ((ds ++ more).map fun b => b.toNat - 0x30) : ℚ) / (10 ^ more.length : Nat)

theorem filterMap_digit {ds : Text} (digits : ∀ b ∈ ds, isDigit b = true) :
    ds.filterMap (Strtod.digit 10) = ds.map fun b => b.toNat - 0x30 := by
  rw [← List.filterMap_eq_map]
  refine List.filterMap_congr fun b member => ?_
  have digit := digits b member
  simp only [isDigit, Bool.and_eq_true, decide_eq_true_eq] at digit
  have high : b.toNat ≤ 0x39 := digit.2
  rw [Strtod.digit, if_pos digit, if_pos (by omega), Function.comp_apply]

/-- Digits without a point are read up to their end. -/
theorem mantissa_whole {ds : Text} (digits : ∀ b ∈ ds, isDigit b = true) (some : ds ≠ [])
    {post : Text} (blank : Blank post) :
    Strtod.mantissa 10 (ds ++ post) = .some (magnitude ds [], post) := by
  have ends := isDigit_blank blank
  unfold Strtod.mantissa
  rw [digits_append digits fun b first => (ends b first).1]
  simp only
  split
  · next more => exact absurd rfl (ends _ rfl).2
  · rw [filterMap_digit_ne_nil digits some, filterMap_digit digits]
    simp [magnitude]

/-- So are digits behind a point. -/
theorem mantissa_point {ds more : Text} (digits : ∀ b ∈ ds, isDigit b = true)
    (part : ∀ b ∈ more, isDigit b = true) (some : more ≠ []) {post : Text} (blank : Blank post) :
    Strtod.mantissa 10 (ds ++ decimalPoint :: more ++ post) =
      .some (magnitude ds more, post) := by
  have ends := isDigit_blank blank
  unfold Strtod.mantissa
  rw [List.append_assoc, List.cons_append, digits_append digits]
  · simp only [decimalPoint]
    rw [digits_append part fun b first => (ends b first).1, filterMap_digit_ne_nil part some,
      filterMap_digit digits, filterMap_digit part]
    simp [magnitude]
  · intro b first
    cases first
    decide

/-- The digits of a number are read up to its end. -/
theorem mantissa_of_loop {text : Text} (loops : isNumberLoop false text = true)
    (some : text ≠ []) : ∃ q : ℚ, 0 ≤ q ∧ ∀ post, Blank post →
      Strtod.mantissa 10 (text ++ post) = .some (q, post) := by
  have nonneg (ds more : Text) : 0 ≤ magnitude ds more := by
    unfold magnitude
    positivity
  obtain ⟨ds, more, digits, part, rfl | ⟨nonempty, rfl⟩⟩ := split_of_loop loops
  · exact ⟨_, nonneg text [], fun post blank => mantissa_whole digits some blank⟩
  · exact ⟨_, nonneg ds more, fun post blank => mantissa_point digits part nonempty blank⟩

/-- Its characters are neutral. -/
theorem neutral_of_loop {text : Text} (loops : isNumberLoop false text = true) :
    ∀ b ∈ text, Neutral b := by
  obtain ⟨ds, more, digits, part, rfl | ⟨-, rfl⟩⟩ := split_of_loop loops
  · exact fun b member => .inl (digits b member)
  · intro b member
    rcases List.mem_append.1 member with before | after
    · exact .inl (digits b before)
    rcases List.mem_cons.1 after with rfl | behind
    · exact .inr (.inl rfl)
    · exact .inl (part b behind)

/-- A number after its sign, as `strtod` finds it. -/
theorem scan_of_mantissa {text post : Text} {q : ℚ} (some : text ≠ [])
    (neutral : ∀ b ∈ text, Neutral b) (blank : Blank post)
    (reads : Strtod.mantissa 10 (text ++ post) = .some (q, post)) {signed : Text} {negative : Bool}
    (begins : Strtod.sign (signed.dropWhile Strtod.isSpace) = (negative, text ++ post)) :
    Strtod.scan signed = .some (.fin negative q, post) := by
  have neutral : ∀ b ∈ text ++ post, Neutral b := by
    intro b member
    rcases List.mem_append.1 member with inText | inPost
    · exact neutral b inText
    · exact .inr (.inr (blank b inPost))
  have noHex : Strtod.hexadecimal (text ++ post) = none := by
    unfold Strtod.hexadecimal
    split
    · next x rest same =>
        have isX := neutral x (by rw [same]; simp)
        rw [isLetter_neutral isX (by decide)]
        rfl
    · rfl
  have noPower : Strtod.power 0x65 post = (0, post) := by
    cases post with
    | nil => rfl
    | cons b rest =>
        have isB : Neutral b := .inr (.inr (blank b List.mem_cons_self))
        simp [Strtod.power, isLetter_neutral isB]
  have isDecimal : Strtod.decimal (text ++ post) = .some (q, post) := by
    simp [Strtod.decimal, reads, noPower, Strtod.shift]
  obtain ⟨b, rest, head⟩ := List.exists_cons_of_ne_nil some
  have isB : Neutral b := neutral b (by rw [head]; simp)
  have noInf : Strtod.after Strtod.inf (text ++ post) = none := by
    rw [head, List.cons_append, Strtod.inf, Strtod.after, isLetter_neutral isB (by decide)]
    rfl
  have noNan : Strtod.after Strtod.nan (text ++ post) = none := by
    rw [head, List.cons_append, Strtod.nan, Strtod.after, isLetter_neutral isB (by decide)]
    rfl
  simp [Strtod.scan, begins, noInf, noNan, noHex, isDecimal]

theorem scan_of_loop {text : Text} (loops : isNumberLoop false text = true) (some : text ≠ []) :
    ∃ q : ℚ, 0 ≤ q ∧ ∀ (signed : Text) (negative : Bool) (post : Text), Blank post →
      Strtod.sign (signed.dropWhile Strtod.isSpace) = (negative, text ++ post) →
        Strtod.scan signed = .some (.fin negative q, post) := by
  obtain ⟨q, nonneg, reads⟩ := mantissa_of_loop loops some
  refine ⟨q, nonneg, fun signed negative post blank begins => ?_⟩
  exact scan_of_mantissa some (neutral_of_loop loops) blank (reads post blank) begins

/-- A number without a sign is not one behind blanks. -/
theorem sign_unsigned {b : UInt8} {rest : Text} (first : isDigit b = true ∨ b = decimalPoint) :
    Strtod.sign ((b :: rest).dropWhile Strtod.isSpace) = (false, b :: rest) := by
  have between : 0x2E ≤ b.toNat ∧ b.toNat ≤ 0x39 := by
    rcases first with digit | rfl
    · simp only [isDigit, Bool.and_eq_true, decide_eq_true_eq, UInt8.le_iff_toNat_le] at digit
      have low : 0x30 ≤ b.toNat := digit.1
      have high : b.toNat ≤ 0x39 := digit.2
      omega
    · decide
  have solid : Strtod.isSpace b = false := by
    by_contra space
    have space := Bool.of_not_eq_false space
    simp only [Strtod.isSpace, Bool.or_eq_true, beq_iff_eq, Bool.and_eq_true,
      decide_eq_true_eq, UInt8.le_iff_toNat_le] at space
    rcases space with rfl | ⟨-, high⟩
    · exact absurd between.1 (by decide)
    · have high : b.toNat ≤ 0x0D := high
      omega
  rw [List.dropWhile_cons_of_neg (by simp [solid])]
  unfold Strtod.sign
  split
  · next same =>
      cases same
      exact absurd between.1 (by decide)
  · next same =>
      cases same
      exact absurd between.1 (by decide)
  · rfl

/-- **A number, as it is read.**  What `is_number` accepts is read to its end, and is finite. -/
theorem scan_number {s : Text} (number : isNumber s = true) :
    ∃ (negative : Bool) (q : ℚ), 0 ≤ q ∧ ∀ post, Blank post →
      Strtod.scan (s ++ post) = some (.fin negative q, post) := by
  cases s with
  | nil => cases number
  | cons b rest =>
      simp only [isNumber] at number
      split at number
      · next signed =>
          obtain ⟨more, loops⟩ := Bool.and_eq_true_iff.1 number
          obtain ⟨q, nonneg, reads⟩ := scan_of_loop loops (by
            rintro rfl
            cases more)
          simp only [Bool.or_eq_true, beq_iff_eq] at signed
          rcases signed with rfl | rfl
          · exact ⟨false, q, nonneg, fun post blank => reads _ _ post blank rfl⟩
          · exact ⟨true, q, nonneg, fun post blank => reads _ _ post blank rfl⟩
      · next unsigned =>
          obtain ⟨q, nonneg, reads⟩ := scan_of_loop number (List.cons_ne_nil _ _)
          refine ⟨false, q, nonneg, fun post blank => reads _ _ post blank ?_⟩
          exact sign_unsigned (isNumberLoop_cons number)

/-- What stands before a number and is no space to `strtod` hides it. -/
theorem scan_hidden {text rest : Text} {b : UInt8}
    (begins : text.dropWhile Strtod.isSpace = b :: rest)
    (blank : b ∈ trimBytes) : Strtod.scan text = none := by
  have solid : Strtod.isSpace b = false := by
    have := List.head?_dropWhile_not Strtod.isSpace text
    rw [begins] at this
    simpa using this
  simp only [trimBytes, List.mem_cons, List.not_mem_nil, or_false] at blank
  rcases blank with rfl | rfl | rfl | rfl | rfl | rfl
  iterate 4 exact absurd solid (by decide)
  · simp [Strtod.scan, begins, Strtod.sign, Strtod.inf, Strtod.nan, Strtod.after, Strtod.isLetter,
      Strtod.hexadecimal, Strtod.decimal, Strtod.mantissa, Strtod.digits, Strtod.digit]
  · simp [Strtod.scan, begins, Strtod.sign, Strtod.inf, Strtod.nan, Strtod.after, Strtod.isLetter,
      Strtod.hexadecimal, Strtod.decimal, Strtod.mantissa, Strtod.digits, Strtod.digit]

/-- What `trim` takes away. -/
theorem exists_trim (s : Text) : ∃ front post, Blank front ∧ Blank post ∧
    s = front ++ (trimText s ++ post) := by
  refine ⟨(s.rdropWhile trimBytes.contains).takeWhile trimBytes.contains,
    s.rtakeWhile trimBytes.contains, fun b member => ?_, fun b member => ?_, ?_⟩
  · exact List.contains_iff_mem.1 (List.mem_takeWhile_imp member)
  · exact List.contains_iff_mem.1 (List.mem_rtakeWhile_imp member)
  · rw [← List.append_assoc, trimText, List.takeWhile_append_dropWhile, List.rdropWhile,
      List.rtakeWhile, ← List.reverse_append, List.takeWhile_append_dropWhile, List.reverse_reverse]

/-- `strtod` reads a number with blanks around it, unless one of them hides it. -/
theorem scan_trim {s : Text} (number : isNumber (trimText s) = true) :
    Strtod.scan s = none ∨ ∃ (negative : Bool) (q : ℚ) (post : Text), 0 ≤ q ∧
      Strtod.scan s = some (.fin negative q, post) ∧
        Strtod.scan (trimText s) = some (.fin negative q, []) := by
  obtain ⟨front, post, blankFront, blankPost, whole⟩ := exists_trim s
  obtain ⟨negative, q, nonneg, reads⟩ := scan_number number
  by_cases spaces : ∀ b ∈ front, Strtod.isSpace b = true
  · refine .inr ⟨negative, q, post, nonneg, ?_, ?_⟩
    · rw [← reads post blankPost]
      conv_lhs => rw [whole]
      unfold Strtod.scan
      rw [List.dropWhile_append_of_pos spaces]
    · have alone := reads [] fun b member => by cases member
      rwa [List.append_nil] at alone
  · refine .inl ?_
    obtain ⟨b, more, begins⟩ : ∃ b more, front.dropWhile Strtod.isSpace = b :: more := by
      refine List.exists_cons_of_ne_nil fun none => spaces ?_
      simpa using List.dropWhile_eq_nil_iff.1 none
    have inFront : b ∈ front := (List.dropWhile_suffix _).subset (by rw [begins]; simp)
    have hides : s.dropWhile Strtod.isSpace = b :: (more ++ (trimText s ++ post)) := by
      conv_lhs => rw [whole]
      rw [List.dropWhile_append, begins]
      rfl
    exact scan_hidden hides (blankFront b inFront)

/-- What `safe_stod` reads of a number is finite. -/
theorem safeStod_fin {s : Text} {x : Fp} (number : isNumber s = true)
    (found : safeStod s = some x) : ∃ a q, 0 ≤ q ∧ x = .fin a q := by
  obtain ⟨negative, q, nonneg, reads⟩ := scan_number number
  have isRead := reads [] fun b member => by cases member
  rw [List.append_nil] at isRead
  simp only [safeStod, Strtod.strtod, isRead, Option.map_some] at found
  split at found
  · cases found
  · next ok =>
      simp only [Bool.or_eq_true, not_or, Bool.not_eq_true] at ok
      obtain ⟨rounded, above, isRounded⟩ := Strtod.round_fin nonneg ok.2 negative
      rw [isRounded] at found
      exact ⟨negative, rounded, above, (Option.some.inj found).symm⟩

/-- With blanks around it a number is read as it is without them, or not at all. -/
theorem safeStod_trim {s : Text} (number : isNumber (trimText s) = true) :
    safeStod s = none ∨ safeStod s = safeStod (trimText s) := by
  rcases scan_trim number with hidden | ⟨negative, q, post, -, reads, alone⟩
  · exact .inl (by simp [safeStod, Strtod.strtod, hidden])
  · simp only [safeStod, Strtod.strtod, reads, alone, Option.map_some]
    cases ends : (post.dropWhile Strtod.isSpace).isEmpty with
    | false => exact .inl (by simp)
    | true => exact .inr (by simp)

end Refsapi
