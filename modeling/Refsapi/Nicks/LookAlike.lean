/-
# Nicks.LookAlike -- when a look-alike does not change the normal form

Past the repeats each character is replaced by itself (`form`), so what a character does to the
normal form depends on its neighbours alone: `remove_duplicates` compares it with them before it
is replaced.  A look-alike beside the letter it stands for makes a repeat that stays, and a look-
alike that is a Russian letter never comes to the table of look-alikes (`lookAlike_iff`).
-/
import Refsapi.Nicks.Score

namespace Refsapi.Nicks

set_option autoImplicit false

/-! ## Repeats and neighbours -/

section

variable {α β : Type} [DecidableEq α]

theorem skipDuplicates_eq (taken : α) (s : List α) :
    skipDuplicates taken s =
      (if s.head? = some taken then [] else s.head?.toList) ++ (removeDuplicates s).tail := by
  cases s with
  | nil => simp [skipDuplicates, removeDuplicates]
  | cons c rest =>
      rw [skipDuplicates, removeDuplicates]
      by_cases same : c = taken
      · simp [same]
      · simp [same]

theorem skipDuplicates_append (taken : α) (before : List α) (c : α) (after : List α) :
    skipDuplicates taken (before ++ c :: after) =
      skipDuplicates taken before ++
        (if (taken :: before).getLast? = some c then [] else [c]) ++ skipDuplicates c after := by
  induction before generalizing taken with
  | nil =>
      rw [List.nil_append, skipDuplicates]
      by_cases same : c = taken
      · simp [same, skipDuplicates]
      · simp [same, Ne.symm same, skipDuplicates]
  | cons b before ih =>
      rw [List.cons_append, skipDuplicates, skipDuplicates, List.getLast?_cons_cons]
      by_cases same : b = taken
      · rw [if_pos same, if_pos same, ih, same]
      · rw [if_neg same, if_neg same, ih]
        rfl

/-- What is left of a character and of the one behind it. -/
theorem removeDuplicates_append (before : List α) (c : α) (after : List α) :
    removeDuplicates (before ++ c :: after) =
      removeDuplicates before ++
        ((if before.getLast? = some c then [] else [c]) ++
          (if after.head? = some c then [] else after.head?.toList)) ++
        (removeDuplicates after).tail := by
  cases before with
  | nil =>
      rw [List.nil_append]
      change c :: skipDuplicates c after = _
      rw [skipDuplicates_eq]
      rfl
  | cons b before =>
      rw [List.cons_append, removeDuplicates, skipDuplicates_append, skipDuplicates_eq c after]
      simp [removeDuplicates]

/-- What a character and the one behind it become. -/
def middle (form : α → List β) (left right : Option α) (c : α) : List β :=
  (if left = some c then [] else form c) ++
    (if right = some c then [] else right.toList.flatMap form)

theorem flatMap_removeDuplicates (form : α → List β) (before : List α) (c : α) (after : List α) :
    (removeDuplicates (before ++ c :: after)).flatMap form =
      (removeDuplicates before).flatMap form ++ middle form before.getLast? after.head? c ++
        (removeDuplicates after).tail.flatMap form := by
  rw [removeDuplicates_append, List.flatMap_append, List.flatMap_append, List.flatMap_append,
    middle]
  congr 3
  · split <;> simp
  · split <;> rfl

/-- When a character that replaces `c` leaves the middle as it is. -/
def Blends (form : α → List β) (left right : Option α) (c x : α) : Prop :=
  x = c ∨ (left = some c ∧ right = some x) ∨ (left = some x ∧ right = some c) ∨
    (form x = form c ∧ left ≠ some c ∧ left ≠ some x ∧ right ≠ some c ∧ right ≠ some x) ∨
    (form x = [] ∧ ((left = some c ∧ right ≠ some c ∧ right ≠ some x) ∨
      (right = some c ∧ left ≠ some c ∧ left ≠ some x)))

/-- The five cases, for a character that becomes something of its own. -/
theorem middle_eq_iff {form : α → List β} {left right : Option α} {c x : α} {b : β}
    (own : form c = [b]) :
    middle form left right x = middle form left right c ↔ Blends form left right c x := by
  unfold Blends
  by_cases same : x = c
  · simp [same]
  have different : c ≠ x := Ne.symm same
  simp only [middle, own, same, false_or]
  by_cases leftC : left = some c
  · subst leftC
    by_cases rightC : right = some c
    · subst rightC
      simp [different, own]
    · by_cases rightX : right = some x
      · subst rightX
        simp [same, different]
      · simp [different, rightC, rightX]
  · by_cases leftX : left = some x
    · subst leftX
      by_cases rightC : right = some c
      · subst rightC
        simp [same, different, own]
      · by_cases rightX : right = some x
        · subst rightX
          simp [same]
        · simp [same, rightC, rightX]
    · by_cases rightC : right = some c
      · subst rightC
        simp [different, leftC, leftX, own]
      · by_cases rightX : right = some x
        · subst rightX
          simp [same, leftC, leftX]
        · simp only [leftC, leftX, rightC, rightX, if_false, List.singleton_append]
          rw [← List.singleton_append, List.append_left_inj]
          simp [leftC, leftX, rightC, rightX]

end

/-! ## The form of a character -/

/-- What a small character becomes, past the repeats. -/
def form (P : Platform) (c : Char) : Wide :=
  (replaceSimilar P (transliterateRuToLat [c])).filter P.isAlnum

/-- `x` is in `SIMILAR_CHARS_MAP` under `c`, and under no other letter. -/
def ListedUnder (c x : Char) : Prop :=
  (∃ entry ∈ similarCharsMap, entry.1 = c ∧ x ∈ entry.2) ∧
    ∀ entry ∈ similarCharsMap, x ∈ entry.2 → entry.1 = c

instance (c x : Char) : Decidable (ListedUnder c x) := inferInstanceAs (Decidable (_ ∧ _))

variable {P : Platform}

theorem normalForm_eq (s : Wide) :
    normalForm P s = (removeDuplicates (s.map P.toLower)).flatMap (form P) := by
  have dropped (c : Char) (trims : isTrimChar c = true) : P.isAlnum c = false := by
    rw [P.isAlnum_ascii c (le_of_isTrimChar trims)]
    have all : (trimChars.all fun c => !c.isAlphanum) = true := by decide
    simpa using List.all_eq_true.1 all c (List.contains_iff_mem.1 trims)
  rw [normalForm, classified, filter_trim dropped]
  simp only [replaceSimilar, transliterateRuToLat, List.map_flatMap, List.filter_flatMap]
  refine congrArg (List.flatMap · _) (funext fun c => ?_)
  simp only [form, replaceSimilar, transliterateRuToLat, List.flatMap_singleton]

theorem similar_not_letter : ∀ entry ∈ similarCharsMap, ∀ c ∈ entry.2, c.isLower = false := by
  have all : (similarCharsMap.all fun entry => entry.2.all fun c => !c.isLower) = true := by
    decide +kernel
  simpa only [List.all_eq_true, Bool.not_eq_true'] using all

theorem ruToLat_not_letter : ∀ entry ∈ ruToLatMap, entry.1.isLower = false := by
  have all : (ruToLatMap.all fun entry => !entry.1.isLower) = true := by decide +kernel
  simpa only [List.all_eq_true, Bool.not_eq_true'] using all

theorem isLower_iff (c : Char) : c.isLower = true ↔ 'a'.val ≤ c.val ∧ c.val ≤ 'z'.val := by
  change (decide ('a'.val ≤ c.val) && decide (c.val ≤ 'z'.val)) = true ↔ _
  rw [Bool.and_eq_true, decide_eq_true_eq, decide_eq_true_eq]

theorem toNat_lt_of_isLower {c : Char} (letter : c.isLower = true) : c.toNat < 128 :=
  Nat.lt_of_le_of_lt (UInt32.le_iff_toNat_le.1 ((isLower_iff c).1 letter).2) (by decide)

theorem toLower_letter {c : Char} (letter : c.isLower = true) : P.toLower c = c := by
  rw [P.toLower_ascii c (toNat_lt_of_isLower letter)]
  have small : ¬ ('A'.val ≤ c.val ∧ c.val ≤ 'Z'.val) := fun capital =>
    absurd (UInt32.le_trans ((isLower_iff c).1 letter).1 capital.2) (by decide)
  exact dif_neg small

/-- A letter is in neither table, and stays. -/
theorem form_letter {c : Char} (letter : c.isLower = true) : form P c = [c] := by
  have noRussian : ruToLatMap.lookup c = none := by
    rw [List.lookup_eq_none_iff]
    intro entry member
    have other := ruToLat_not_letter entry member
    exact bne_iff_ne.2 fun same => by simp [← same, letter] at other
  have unlisted : findReplacement P c = none := by
    rw [findReplacement_eq_none_iff]
    intro entry member listed
    simp [similar_not_letter entry member c listed] at letter
  have kept : P.isAlnum c = true := by
    rw [P.isAlnum_ascii c (toNat_lt_of_isLower letter)]
    change (c.isUpper || c.isLower || c.isDigit) = true
    rw [letter, Bool.or_true, Bool.true_or]
  simp [form, transliterateRuToLat, replaceSimilar, noRussian, unlisted, kept]

/-! ## Look-alikes -/

/-- A small letter comes to a narrow character. -/
theorem folds_letter {c : Char} (letter : c.isLower = true) : Folds P c := by
  have small := toNat_lt_of_isLower letter
  exact .inl (by rw [toLower_letter letter]; omega)

/-- The normal form of a name with a character in the place of another. -/
theorem normalForm_replaced (before after : Wide) (y : Char) :
    normalForm P (before ++ y :: after) =
      (removeDuplicates (before.map P.toLower)).flatMap (form P) ++
        middle (form P) (before.getLast?.map P.toLower) (after.head?.map P.toLower)
          (P.toLower y) ++
        (removeDuplicates (after.map P.toLower)).tail.flatMap (form P) := by
  rw [normalForm_eq, List.map_append, List.map_cons, flatMap_removeDuplicates,
    List.getLast?_map, List.head?_map]

theorem normalForm_replaced_iff {before after : Wide} {c x : Char} (letter : c.isLower = true) :
    normalForm P (before ++ x :: after) = normalForm P (before ++ c :: after) ↔
      Blends (form P) (before.getLast?.map P.toLower) (after.head?.map P.toLower) c
        (P.toLower x) := by
  rw [← middle_eq_iff (form_letter letter), normalForm_replaced, normalForm_replaced,
    List.append_left_inj, List.append_right_inj, toLower_letter letter]

/-- **Look-alikes.**  A character that replaces a small letter leaves the normal form as it is,
and then has the score 1 with it, where the other characters of the name and it come to narrow
ones, in five cases of what it becomes and of its neighbours: it is that letter in capitals; it
is between the letter and one like itself; it becomes the letter, and neither is beside it; or it
becomes nothing, and the letter is on one side of it. -/
theorem lookAlike_iff {F : Type} (A : Arith F) (P : Platform) (tuning : Tuning F) (cache : Cache)
    (before after : Wide) (c x : Char) (letter : c.isLower = true) :
    (∃ n, normalizationStr P (before ++ c :: after) = some n ∧
      normalizationStr P (before ++ x :: after) = some n ∧
      (2 ≤ n.length →
        similarityScore A P tuning (before ++ c :: after) (before ++ x :: after) cache =
          some (A.narrow (A.double.ofInt 1), cache))) ↔
      AllFold P (before ++ x :: after) ∧
        Blends (form P) (before.getLast?.map P.toLower) (after.head?.map P.toLower) c
          (P.toLower x) := by
  constructor
  · rintro ⟨n, isLetter, isOther, -⟩
    rw [normalizationStr_eq_some_iff] at isLetter isOther
    exact ⟨isOther.1, (normalForm_replaced_iff letter).1 (isOther.2.trans isLetter.2.symm)⟩
  · rintro ⟨folds, blends⟩
    have same := (normalForm_replaced_iff letter).2 blends
    have folds' : AllFold P (before ++ c :: after) := by
      intro y member
      rcases List.mem_append.1 member with inBefore | later
      · exact folds y (List.mem_append_left _ inBefore)
      · rcases List.mem_cons.1 later with rfl | inAfter
        · exact folds_letter letter
        · exact folds y (List.mem_append_right _ (List.mem_cons_of_mem _ inAfter))
    refine ⟨normalForm P (before ++ c :: after), normalizationStr_eq_some_iff.2 ⟨folds', rfl⟩,
      normalizationStr_eq_some_iff.2 ⟨folds, same⟩, fun two => ?_⟩
    rw [similarityScore_eq, if_pos ⟨folds', folds⟩, same, normalScore, if_neg ?_, if_pos rfl]
    simp only [Bool.or_eq_true, decide_eq_true_eq]
    omega

/-- A look-alike between other characters. -/
theorem lookAlike_between : ∃ n, normalizationStr Platform.plain "player".toList = some n ∧
    normalizationStr Platform.plain "pl@yer".toList = some n := by
  obtain ⟨n, isLetter, isOther, -⟩ :=
    (lookAlike_iff (Arith.exact ℚ) Platform.plain (Arith.exact ℚ).defaults Cache.empty
      "pl".toList "yer".toList 'a' '@' (by decide)).2
      ⟨by decide +kernel, .inr (.inr (.inr (.inl (by decide +kernel))))⟩
  exact ⟨n, isLetter, isOther⟩

/-- Behind the letter that it stands for a look-alike makes a repeat; and a Russian letter comes
to another table first. -/
theorem not_always_blends :
    ListedUnder 'a' '@' ∧
      normalizationStr Platform.plain "aa".toList = some "a".toList ∧
      normalizationStr Platform.plain "a@".toList = some "aa".toList ∧
      ListedUnder 'i' 'й' ∧
      normalizationStr Platform.plain "bit".toList = some "bit".toList ∧
      normalizationStr Platform.plain "bйt".toList = some "bjt".toList := by
  refine ⟨?_, ?_, ?_, ?_, ?_, ?_⟩
  all_goals decide +kernel

end Refsapi.Nicks
