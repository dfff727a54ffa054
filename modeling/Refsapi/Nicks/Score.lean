/-
# Nicks.Score -- `similarity_score`

How alike two names are: nothing when their normal forms are short or of different lengths, one
when they are the same, the share of the longest common substring when that is large, and else
the weighted mean of an edit distance, of the pairs of characters they share and of that share.

The arithmetic is a parameter (`Arith`): the code has `float` and `double`, and over a field
both are exact.  There the score is `meanScore` or one of the exits (`similarityScore_eq`), which
is symmetric, between 0 and 1, and 1 for no two different forms.

The pairs of a name are kept in `g_cache_ngrams`, which has the right ones at all times
(`Reached.good`).
-/
import Mathlib.Algebra.Order.Field.Basic
import Mathlib.Algebra.Order.Ring.Rat
import Mathlib.Data.Finset.Card
import Mathlib.Tactic.Linarith
import Mathlib.Tactic.NormNum
import Refsapi.Nicks.Distance
import Refsapi.Nicks.Normalize
import Refsapi.Nicks.Substring

namespace Refsapi.Nicks

set_option autoImplicit false

/-! ## Arithmetic -/

/-- The operations of a floating type; a division may have no result. -/
structure Ops (F : Type) where
  ofInt : Int → F
  add : F → F → F
  sub : F → F → F
  mul : F → F → F
  div : F → F → Option F

/-- `float`, `double` and what the code does with both; `narrow` makes a `float` of a
`double`, and `literal` is one of the code's numbers. -/
structure Arith (F : Type) where
  single : Ops F
  double : Ops F
  narrow : F → F
  literal : ℚ → F
  lt : F → F → Bool
  le : F → F → Bool

/-- The tuning parameters. -/
structure Tuning (F : Type) where
  lcsThreshold : F
  kLev : F
  kTan : F
  kLcs : F

/-- The defaults of `similarity_score`. -/
def Arith.defaults {F : Type} (A : Arith F) : Tuning F where
  lcsThreshold := A.literal (7 / 10)
  kLev := A.literal (6 / 10)
  kTan := A.literal (3 / 10)
  kLcs := A.literal (1 / 10)

/-! ## Pairs of characters -/

/-- `g_cache_ngrams` -/
abbrev Cache : Type := Wide → Option (Finset Wide)

def Cache.empty : Cache := fun _ => none

/-- The substrings of a length, as the loop of `get_cached_ngrams` collects them. -/
def ngrams (s : Wide) (n : Nat) : Finset Wide :=
  ((List.range (s.length - n + 1)).map fun i => (s.drop i).take n).toFinset

def getCachedNgrams (s : Wide) (n : Nat) (cache : Cache) : Finset Wide × Cache :=
  if s.length < n then (∅, cache)
  else
    match cache s with
    | some grams => (grams, cache)
    | none => (ngrams s n, Function.update cache s (some (ngrams s n)))

/-! ## `similarity_score` -/

section

variable {F : Type} (A : Arith F) (P : Platform)

/-- The end of `similarity_score`, behind its exits. -/
def weightedScore (tuning : Tuning F) (n1 n2 : Wide) (lcsLen : Nat) (cache : Cache) :
    Option (F × Cache) := do
  let longest := max n1.length n2.length
  let levDist ← fastLevenshtein n1 n2
  let levShare ← A.single.div (A.single.ofInt levDist) (A.single.ofInt longest)
  let levScore := A.single.sub (A.single.ofInt 1) levShare
  let (ngrams1, cache) := getCachedNgrams n1 2 cache
  let (ngrams2, cache) := getCachedNgrams n2 2 cache
  let intersection := (ngrams1.filter fun item => item ∈ ngrams2).card
  let tanScore ← A.single.div (A.single.ofInt intersection)
    (A.single.ofInt (ngrams1.card + ngrams2.card - intersection : Nat))
  let lcsShare ← A.double.div (A.double.ofInt lcsLen) (A.double.ofInt longest)
  return (A.narrow (A.double.add
    (A.single.add (A.single.mul tuning.kLev levScore) (A.single.mul tuning.kTan tanScore))
    (A.double.mul tuning.kLcs lcsShare)), cache)

/-- `similarity_score` of two normal forms. -/
def normalScore (tuning : Tuning F) (n1 n2 : Wide) (cache : Cache) : Option (F × Cache) :=
  if n1.length < 2 || n2.length < 2 || ((n1.length : Int) - n2.length).natAbs > 5 then
    some (A.narrow (A.double.ofInt 0), cache)
  else if n1 = n2 then some (A.narrow (A.double.ofInt 1), cache)
  else
    let lcsLen := longestCommonSubstring n1 n2
    if 3 ≤ lcsLen then do
      let lcsScore ← A.single.div (A.single.ofInt lcsLen)
        (A.single.ofInt (max n1.length n2.length : Nat))
      if A.lt tuning.lcsThreshold lcsScore then return (lcsScore, cache)
      else weightedScore A tuning n1 n2 lcsLen cache
    else weightedScore A tuning n1 n2 0 cache

def similarityScore (tuning : Tuning F) (nick1 nick2 : Wide) (cache : Cache) :
    Option (F × Cache) := do
  let n1 ← normalizationStr P nick1
  let n2 ← normalizationStr P nick2
  normalScore A tuning n1 n2 cache

/-! ## The cache -/

/-- What is kept for a name are its pairs. -/
def Good (cache : Cache) : Prop := ∀ s grams, cache s = some grams → grams = ngrams s 2

/-- The caches that calls of `similarity_score` make of the empty one. -/
inductive Reached : Cache → Prop
  | empty : Reached Cache.empty
  | score {cache later : Cache} {value : F} (tuning : Tuning F) (nick1 nick2 : Wide)
      (before : Reached cache)
      (scores : similarityScore A P tuning nick1 nick2 cache = some (value, later)) :
      Reached later

end

theorem good_empty : Good Cache.empty := fun _ _ absent => by cases absent

theorem getCachedNgrams_good {cache : Cache} (good : Good cache) {s : Wide} (two : 2 ≤ s.length) :
    (getCachedNgrams s 2 cache).1 = ngrams s 2 ∧ Good (getCachedNgrams s 2 cache).2 := by
  rw [getCachedNgrams, if_neg (Nat.not_lt.2 two)]
  cases kept : cache s with
  | some grams => exact ⟨good s grams kept, good⟩
  | none =>
      refine ⟨rfl, fun t grams isKept => ?_⟩
      change Function.update cache s (some (ngrams s 2)) t = some grams at isKept
      by_cases same : t = s
      · subst same
        rw [Function.update_self] at isKept
        exact (Option.some.inj isKept).symm
      · rw [Function.update_of_ne same] at isKept
        exact good t grams isKept

section

variable {F : Type} {A : Arith F} {P : Platform} {cache later : Cache} {value : F}

theorem weightedScore_good {tuning : Tuning F} {n1 n2 : Wide} {lcsLen : Nat} (good : Good cache)
    (two1 : 2 ≤ n1.length) (two2 : 2 ≤ n2.length)
    (scores : weightedScore A tuning n1 n2 lcsLen cache = some (value, later)) : Good later := by
  simp only [weightedScore, Option.bind_eq_bind, Option.bind_eq_some_iff] at scores
  obtain ⟨levDist, -, levShare, -, tanScore, -, lcsShare, -, result⟩ := scores
  obtain ⟨-, rfl⟩ := Prod.mk.inj (Option.some.inj result)
  exact (getCachedNgrams_good (getCachedNgrams_good good two1).2 two2).2

theorem normalScore_good {tuning : Tuning F} {n1 n2 : Wide} (good : Good cache)
    (scores : normalScore A tuning n1 n2 cache = some (value, later)) : Good later := by
  unfold normalScore at scores
  split at scores
  · obtain ⟨-, rfl⟩ := Prod.mk.inj (Option.some.inj scores)
    exact good
  · next long =>
      simp only [Bool.or_eq_true, decide_eq_true_eq, not_or, Nat.not_lt] at long
      split at scores
      · obtain ⟨-, rfl⟩ := Prod.mk.inj (Option.some.inj scores)
        exact good
      · simp only at scores
        split at scores
        · simp only [Option.bind_eq_bind, Option.bind_eq_some_iff] at scores
          obtain ⟨lcsScore, -, scores⟩ := scores
          split at scores
          · obtain ⟨-, rfl⟩ := Prod.mk.inj (Option.some.inj scores)
            exact good
          · exact weightedScore_good good long.1.1 long.1.2 scores
        · exact weightedScore_good good long.1.1 long.1.2 scores

/-- **The score of two names** is that of their normal forms, where both have one. -/
theorem similarityScore_eq (tuning : Tuning F) (nick1 nick2 : Wide) (cache : Cache) :
    similarityScore A P tuning nick1 nick2 cache =
      if AllFold P nick1 ∧ AllFold P nick2 then
        normalScore A tuning (normalForm P nick1) (normalForm P nick2) cache
      else none := by
  simp only [similarityScore, normalizationStr_eq, Option.bind_eq_bind]
  by_cases first : AllFold P nick1
  · by_cases second : AllFold P nick2
    · simp only [if_pos first, if_pos second, if_pos (And.intro first second), Option.bind_some]
    · rw [if_pos first, if_neg second, if_neg (mt And.right second)]
      rfl
  · rw [if_neg first, if_neg (mt And.left first)]
    rfl

theorem Reached.good (reached : Reached A P cache) : Good cache := by
  induction reached with
  | empty => exact good_empty
  | score tuning nick1 nick2 _ scores ih =>
      rw [similarityScore_eq, Option.ite_none_right_eq_some] at scores
      exact normalScore_good ih scores.2

end

/-! ## Exact arithmetic -/

/-- The operations of a field; there is no division by zero. -/
def Ops.exact (K : Type) [Field K] [DecidableEq K] : Ops K where
  ofInt n := n
  add := (· + ·)
  sub := (· - ·)
  mul := (· * ·)
  div x y := if y = 0 then none else some (x / y)

def Arith.exact (K : Type) [Field K] [LinearOrder K] : Arith K where
  single := Ops.exact K
  double := Ops.exact K
  narrow x := x
  literal q := q
  lt x y := x < y
  le x y := x ≤ y

section

variable {K : Type} [Field K] [LinearOrder K] [IsStrictOrderedRing K]

/-- The number that `fast_levenshtein` gives. -/
def levDist (n1 n2 : Wide) : Nat :=
  if (n1.length ≤ 255 ∧ n2.length ≤ 255) ∨ n1 = [] ∨ n2 = [] then editDistance n1 n2
  else max n1.length n2.length

def sharedPairs (n1 n2 : Wide) : Nat := ((ngrams n1 2).filter fun item => item ∈ ngrams n2 2).card

def allPairs (n1 n2 : Wide) : Nat :=
  (ngrams n1 2).card + (ngrams n2 2).card - sharedPairs n1 n2

/-- A part of the longer name. -/
def share (part : Nat) (n1 n2 : Wide) : K := (part : K) / (max n1.length n2.length : Nat)

/-- The weighted mean. -/
def meanScore (tuning : Tuning K) (n1 n2 : Wide) (lcsLen : Nat) : K :=
  tuning.kLev * (1 - share (levDist n1 n2) n1 n2) +
      tuning.kTan * ((sharedPairs n1 n2 : K) / (allPairs n1 n2 : K)) +
    tuning.kLcs * share lcsLen n1 n2

/-- `similarity_score` of two normal forms, without its arithmetic and its cache. -/
def exactScore (tuning : Tuning K) (n1 n2 : Wide) : K :=
  if n1.length < 2 ∨ n2.length < 2 ∨ ((n1.length : Int) - n2.length).natAbs > 5 then 0
  else if n1 = n2 then 1
  else
    let lcsLen := longestCommonSubstring n1 n2
    if 3 ≤ lcsLen ∧ tuning.lcsThreshold < share lcsLen n1 n2 then share lcsLen n1 n2
    else meanScore tuning n1 n2 (if 3 ≤ lcsLen then lcsLen else 0)

/-! ## The three parts -/

variable {n1 n2 : Wide}

theorem share_mem {part : Nat} (le : part ≤ max n1.length n2.length) :
    (0 : K) ≤ share part n1 n2 ∧ share part n1 n2 ≤ (1 : K) :=
  ⟨div_nonneg (Nat.cast_nonneg _) (Nat.cast_nonneg _),
    div_le_one_of_le₀ (Nat.cast_le.2 le) (Nat.cast_nonneg _)⟩

omit [LinearOrder K] [IsStrictOrderedRing K] in
theorem share_comm (part : Nat) (n1 n2 : Wide) : share part n1 n2 = (share part n2 n1 : K) := by
  rw [share, share, Nat.max_comm]

theorem longest_ne_zero (two : 2 ≤ n1.length) :
    ((max n1.length n2.length : Nat) : K) ≠ 0 := by
  rw [Nat.cast_ne_zero]
  omega

theorem share_eq_one_iff {part : Nat} (two : 2 ≤ n1.length) :
    share part n1 n2 = (1 : K) ↔ part = max n1.length n2.length := by
  rw [share, div_eq_one_iff_eq (longest_ne_zero two), Nat.cast_inj]

theorem levDist_comm (n1 n2 : Wide) : levDist n1 n2 = levDist n2 n1 := by
  rw [levDist, levDist, editDistance_comm, Nat.max_comm]
  simp only [and_comm, or_comm]

theorem levDist_le_max (n1 n2 : Wide) : levDist n1 n2 ≤ max n1.length n2.length := by
  unfold levDist
  split
  · exact editDistance_le_max n1 n2
  · exact Nat.le_refl _

theorem levDist_pos (two : 2 ≤ n1.length) (different : n1 ≠ n2) : 0 < levDist n1 n2 := by
  unfold levDist
  split
  · exact Nat.pos_of_ne_zero (mt editDistance_eq_zero_iff.1 different)
  · omega

theorem fastLevenshtein_eq_levDist (n1 n2 : Wide) :
    fastLevenshtein n1 n2 = some (levDist n1 n2 : Int) := by
  rw [fastLevenshtein_value, levDist]
  split <;> rfl

theorem sharedPairs_comm (n1 n2 : Wide) : sharedPairs n1 n2 = sharedPairs n2 n1 := by
  rw [sharedPairs, sharedPairs, Finset.filter_mem_eq_inter, Finset.filter_mem_eq_inter,
    Finset.inter_comm]

theorem sharedPairs_le (n1 n2 : Wide) : sharedPairs n1 n2 ≤ (ngrams n1 2).card :=
  Finset.card_filter_le _ _

theorem allPairs_comm (n1 n2 : Wide) : allPairs n1 n2 = allPairs n2 n1 := by
  rw [allPairs, allPairs, sharedPairs_comm, Nat.add_comm]

theorem ngrams_card_pos (s : Wide) (n : Nat) : 0 < (ngrams s n).card := by
  refine Finset.card_pos.2 ⟨(s.drop 0).take n, List.mem_toFinset.2 (List.mem_map.2 ⟨0, ?_, rfl⟩)⟩
  exact List.mem_range.2 (Nat.succ_pos _)

theorem sharedPairs_le_allPairs (n1 n2 : Wide) : sharedPairs n1 n2 ≤ allPairs n1 n2 := by
  have first := sharedPairs_le n1 n2
  have second := sharedPairs_comm n1 n2 ▸ sharedPairs_le n2 n1
  rw [allPairs]
  omega

theorem allPairs_pos (n1 n2 : Wide) : 0 < allPairs n1 n2 := by
  have positive := ngrams_card_pos n1 2
  have second := sharedPairs_comm n1 n2 ▸ sharedPairs_le n2 n1
  rw [allPairs]
  omega

theorem tanimoto_mem (n1 n2 : Wide) :
    (0 : K) ≤ (sharedPairs n1 n2 : K) / allPairs n1 n2 ∧
      (sharedPairs n1 n2 : K) / allPairs n1 n2 ≤ 1 :=
  ⟨div_nonneg (Nat.cast_nonneg _) (Nat.cast_nonneg _),
    div_le_one_of_le₀ (Nat.cast_le.2 (sharedPairs_le_allPairs n1 n2)) (Nat.cast_nonneg _)⟩

/-! ## The score -/

omit [LinearOrder K] [IsStrictOrderedRing K] in
/-- A division by a number that is not zero. -/
theorem exact_div [DecidableEq K] (m : Nat) {n : Nat} (positive : (n : K) ≠ 0) :
    (Ops.exact K).div ((Ops.exact K).ofInt m) ((Ops.exact K).ofInt n) = some ((m : K) / n) := by
  simp only [Ops.exact, Int.cast_natCast, if_neg positive]

theorem weightedScore_eq (tuning : Tuning K) {cache : Cache} (good : Good cache)
    (two1 : 2 ≤ n1.length) (two2 : 2 ≤ n2.length) (lcsLen : Nat) :
    ∃ later, weightedScore (Arith.exact K) tuning n1 n2 lcsLen cache =
      some (meanScore tuning n1 n2 lcsLen, later) := by
  obtain ⟨pairs1, good1⟩ := getCachedNgrams_good good two1
  obtain ⟨pairs2, -⟩ := getCachedNgrams_good good1 two2
  have pairs : ((allPairs n1 n2 : Nat) : K) ≠ 0 := Nat.cast_ne_zero.2 (allPairs_pos n1 n2).ne'
  refine ⟨(getCachedNgrams n2 2 (getCachedNgrams n1 2 cache).2).2, ?_⟩
  simp only [weightedScore, fastLevenshtein_eq_levDist, pairs1, pairs2, Option.bind_eq_bind,
    Option.bind_some]
  rw [Arith.exact, exact_div _ (longest_ne_zero two1)]
  simp only [Option.bind_some]
  change ((Ops.exact K).div ((Ops.exact K).ofInt (sharedPairs n1 n2))
    ((Ops.exact K).ofInt (allPairs n1 n2))).bind _ = _
  rw [exact_div _ pairs]
  simp only [Option.bind_some]
  rw [exact_div _ (longest_ne_zero two1)]
  simp only [Ops.exact, Int.cast_one, Option.bind_some, meanScore, share]
  rfl

omit [IsStrictOrderedRing K] in
theorem exact_lt {x y : K} : (Arith.exact K).lt x y = true ↔ x < y := decide_eq_true_iff

/-- Over a field `similarity_score` is the score, and divides by no zero. -/
theorem normalScore_eq (tuning : Tuning K) {cache : Cache} (good : Good cache) (n1 n2 : Wide) :
    ∃ later, normalScore (Arith.exact K) tuning n1 n2 cache =
      some (exactScore tuning n1 n2, later) := by
  unfold normalScore exactScore
  simp only [Bool.or_eq_true, decide_eq_true_eq, or_assoc]
  split
  · exact ⟨cache, by simp [Arith.exact, Ops.exact]⟩
  · next long =>
      simp only [not_or, Nat.not_lt] at long
      obtain ⟨two1, two2, -⟩ := long
      split
      · exact ⟨cache, by simp [Arith.exact, Ops.exact]⟩
      · by_cases three : 3 ≤ longestCommonSubstring n1 n2
        · simp only [three, if_true, true_and]
          rw [show (Arith.exact K).single = Ops.exact K from rfl,
            exact_div _ (longest_ne_zero two1)]
          simp only [Option.bind_eq_bind, Option.bind_some, exact_lt]
          change ∃ later, (if tuning.lcsThreshold < share (longestCommonSubstring n1 n2) n1 n2
            then _ else _) = _
          split
          · exact ⟨cache, rfl⟩
          · exact weightedScore_eq tuning good two1 two2 _
        · simp only [three, if_false, false_and]
          exact weightedScore_eq tuning good two1 two2 0

/-! ## What the score says -/

variable {tuning : Tuning K}

omit [IsStrictOrderedRing K] in
theorem exactScore_comm (n1 n2 : Wide) : exactScore tuning n1 n2 = exactScore tuning n2 n1 := by
  unfold exactScore meanScore
  have lengths :
      ((n1.length : Int) - n2.length).natAbs = ((n2.length : Int) - n1.length).natAbs := by
    omega
  simp only [longestCommonSubstring_comm n1 n2, share_comm _ n1 n2, levDist_comm n1 n2,
    sharedPairs_comm n1 n2, allPairs_comm n1 n2, lengths, eq_comm (a := n1), or_left_comm]

/-- Weights that are not negative, and together not more than 1. -/
structure Tuning.Weights (tuning : Tuning K) : Prop where
  lev : 0 ≤ tuning.kLev
  tan : 0 ≤ tuning.kTan
  lcs : 0 ≤ tuning.kLcs
  total : tuning.kLev + tuning.kTan + tuning.kLcs ≤ 1

theorem meanScore_nonneg (weights : tuning.Weights) {lcsLen : Nat}
    (le : lcsLen ≤ max n1.length n2.length) : 0 ≤ meanScore tuning n1 n2 lcsLen := by
  have lev := (share_mem (K := K) (levDist_le_max n1 n2)).2
  exact add_nonneg (add_nonneg (mul_nonneg weights.lev (sub_nonneg.2 lev))
    (mul_nonneg weights.tan (tanimoto_mem n1 n2).1)) (mul_nonneg weights.lcs (share_mem le).1)

/-- The mean is no more than what the edit distance leaves of the weights. -/
theorem meanScore_le (weights : tuning.Weights) {lcsLen : Nat}
    (le : lcsLen ≤ max n1.length n2.length) :
    meanScore tuning n1 n2 lcsLen ≤ 1 - tuning.kLev * share (levDist n1 n2) n1 n2 := by
  have tan := mul_le_of_le_one_right weights.tan (tanimoto_mem (K := K) n1 n2).2
  have lcs := mul_le_of_le_one_right weights.lcs (share_mem (K := K) le).2
  have total := weights.total
  rw [meanScore, mul_sub, mul_one]
  linarith

theorem longestCommonSubstring_le (n1 n2 : Wide) :
    longestCommonSubstring n1 n2 ≤ max n1.length n2.length :=
  Nat.le_trans (longestCommonSubstring_longest n1 n2).le_left (Nat.le_max_left _ _)

theorem exactScore_mem (weights : tuning.Weights) (n1 n2 : Wide) :
    0 ≤ exactScore tuning n1 n2 ∧ exactScore tuning n1 n2 ≤ 1 := by
  have substring := longestCommonSubstring_le n1 n2
  unfold exactScore
  split
  · exact ⟨le_refl 0, zero_le_one⟩
  · split
    · exact ⟨zero_le_one, le_refl 1⟩
    · have kept : (if 3 ≤ longestCommonSubstring n1 n2 then longestCommonSubstring n1 n2 else 0) ≤
          max n1.length n2.length := by
        split
        · exact substring
        · exact Nat.zero_le _
      have lev := mul_nonneg weights.lev (share_mem (K := K) (levDist_le_max n1 n2)).1
      simp only
      split
      · exact share_mem substring
      · exact ⟨meanScore_nonneg weights kept, (meanScore_le weights kept).trans (sub_le_self 1 lev)⟩

/-- Only the same forms have the score 1. -/
theorem exactScore_eq_one_iff (weights : tuning.Weights) (lev : 0 < tuning.kLev)
    (two1 : 2 ≤ n1.length) (two2 : 2 ≤ n2.length) : exactScore tuning n1 n2 = 1 ↔ n1 = n2 := by
  have substring := longestCommonSubstring_le n1 n2
  unfold exactScore
  split
  · next short =>
      refine iff_of_false zero_ne_one ?_
      rintro rfl
      omega
  · split
    · next same => exact iff_of_true rfl same
    · next different =>
        refine iff_of_false ?_ different
        simp only
        split
        · intro one
          have length := (share_eq_one_iff two1).1 one
          exact different ((longestCommonSubstring_longest n1 n2).eq_of_max_le length.ge)
        · refine (lt_of_le_of_lt (meanScore_le weights ?_) (sub_lt_self 1 (mul_pos lev ?_))).ne
          · split
            · exact substring
            · exact Nat.zero_le _
          · exact div_pos (Nat.cast_pos.2 (levDist_pos two1 different))
              (Nat.cast_pos.2 (by omega))

/-- **A proper score.**  In exact arithmetic, with weights that are together not more than 1,
`similarity_score` divides by no zero, does not depend on the order of the names or on what is in
the cache, and is between 0 and 1; where the edit distance has a weight it is 1 only for names
with one normal form.  It is defined for names all of whose characters come to narrow ones. -/
theorem similarityScore_proper_iff (P : Platform) (tuning : Tuning K) (lev : 0 ≤ tuning.kLev)
    (tan : 0 ≤ tuning.kTan) (lcs : 0 ≤ tuning.kLcs)
    (total : tuning.kLev + tuning.kTan + tuning.kLcs ≤ 1) (a b : Wide) {cache cache' : Cache}
    (reached : Reached (Arith.exact K) P cache) (reached' : Reached (Arith.exact K) P cache') :
    (∃ n1 n2 value later later',
      normalizationStr P a = some n1 ∧ normalizationStr P b = some n2 ∧
      similarityScore (Arith.exact K) P tuning a b cache = some (value, later) ∧
      similarityScore (Arith.exact K) P tuning b a cache' = some (value, later') ∧
      0 ≤ value ∧ value ≤ 1 ∧
      (0 < tuning.kLev → 2 ≤ n1.length → 2 ≤ n2.length → (value = 1 ↔ n1 = n2))) ↔
    AllFold P a ∧ AllFold P b := by
  have weights : tuning.Weights := ⟨lev, tan, lcs, total⟩
  constructor
  · rintro ⟨n1, n2, value, later, later', isFirst, isSecond, -⟩
    exact ⟨(normalizationStr_eq_some_iff.1 isFirst).1, (normalizationStr_eq_some_iff.1 isSecond).1⟩
  · rintro ⟨first, second⟩
    obtain ⟨later, scores⟩ :=
      normalScore_eq tuning reached.good (normalForm P a) (normalForm P b)
    obtain ⟨later', scores'⟩ :=
      normalScore_eq tuning reached'.good (normalForm P b) (normalForm P a)
    rw [exactScore_comm] at scores'
    obtain ⟨nonneg, le⟩ := exactScore_mem weights (normalForm P a) (normalForm P b)
    refine ⟨normalForm P a, normalForm P b, _, later, later',
      normalizationStr_eq_some_iff.2 ⟨first, rfl⟩, normalizationStr_eq_some_iff.2 ⟨second, rfl⟩,
      ?_, ?_, nonneg, le, exactScore_eq_one_iff weights⟩
    · rw [similarityScore_eq, if_pos ⟨first, second⟩, scores]
    · rw [similarityScore_eq, if_pos ⟨second, first⟩, scores']

end

/-- Two names that are not the same, with an empty cache. -/
theorem similarityScore_proper_default :
    ∃ value later later',
      similarityScore (Arith.exact ℚ) Platform.plain (Arith.exact ℚ).defaults "nick".toList
        "mike".toList Cache.empty = some (value, later) ∧
      similarityScore (Arith.exact ℚ) Platform.plain (Arith.exact ℚ).defaults "mike".toList
        "nick".toList Cache.empty = some (value, later') ∧
      0 ≤ value ∧ value ≤ 1 ∧ value ≠ 1 := by
  have nick : normalizationStr Platform.plain "nick".toList = some "nick".toList := by
    decide +kernel
  have mike : normalizationStr Platform.plain "mike".toList = some "mike".toList := by
    decide +kernel
  obtain ⟨n1, n2, value, later, later', isFirst, isSecond, scores, scores', nonneg, le, one⟩ :=
    (similarityScore_proper_iff Platform.plain (Arith.exact ℚ).defaults
      (by norm_num [Arith.defaults, Arith.exact]) (by norm_num [Arith.defaults, Arith.exact])
      (by norm_num [Arith.defaults, Arith.exact]) (by norm_num [Arith.defaults, Arith.exact])
      "nick".toList "mike".toList .empty .empty).2 ⟨by decide +kernel, by decide +kernel⟩
  obtain rfl := Option.some.inj (nick.symm.trans isFirst)
  obtain rfl := Option.some.inj (mike.symm.trans isSecond)
  refine ⟨value, later, later', scores, scores', nonneg, le, mt (one ?_ ?_ ?_).1 ?_⟩
  · norm_num [Arith.defaults, Arith.exact]
  · decide +kernel
  · decide +kernel
  · decide +kernel

/-- A name of a Chinese character has no score. -/
theorem not_always_scored : ¬ ∀ a b : Wide, ∃ value later,
    similarityScore (Arith.exact ℚ) Platform.plain (Arith.exact ℚ).defaults a b Cache.empty =
      some (value, later) := by
  intro always
  obtain ⟨value, later, scores⟩ := always ['中'] "nick".toList
  have none : normalizationStr Platform.plain ['中'] = none := by decide +kernel
  rw [similarityScore, none] at scores
  cases scores

end Refsapi.Nicks
