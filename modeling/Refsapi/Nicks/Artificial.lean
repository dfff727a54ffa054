/-
# Nicks.Artificial -- `artificiality_score`

How made up a name looks: how far its entropy is from the largest one, how long its longest
repeat and its longest run of one character are, and how far it is from half digits and half
letters.  All three are about the name without its separators, since `remove_chars` changes
the string it is given.

The arithmetic is that of `Score`, with a logarithm.  In exact arithmetic the three parts are
between 0 and 1 and say what they look for (`sameness_eq_zero_iff`, `sameness_eq_one_iff`,
`maxConsecutive_longest`), so that the bounds at the end of the function change nothing.
-/
import Mathlib
import Refsapi.Lib.Entropy
import Refsapi.Nicks.Repeats
import Refsapi.Nicks.Score

namespace Refsapi.Nicks

set_option autoImplicit false

/-! ## Longest runs -/

section Words

variable {α : Type}

/-- The length of the longest run of one character. -/
structure LongestRun (s : List α) (n : Nat) : Prop where
  reached : ∃ c, List.replicate n c <:+: s
  most : ∀ c k, List.replicate k c <:+: s → k ≤ n

/-- The length of the run of a character that the text ends with. -/
structure EndingRun (s : List α) (c : α) (n : Nat) : Prop where
  reached : List.replicate n c <:+ s
  most : ∀ k, List.replicate k c <:+ s → k ≤ n

variable {s : List α} {a b c : α} {n : Nat}

theorem replicate_succ_suffix_concat_iff :
    List.replicate (n + 1) c <:+ s ++ [b] ↔ c = b ∧ List.replicate n c <:+ s := by
  rw [List.replicate_succ', List.suffix_concat_iff]
  constructor
  · rintro (none | ⟨t, equal, ends⟩)
    · exact absurd none (List.append_ne_nil_of_right_ne_nil _ (List.cons_ne_nil _ _))
    · obtain ⟨rfl, last⟩ := List.append_inj' equal rfl
      exact ⟨List.cons.inj last |>.1, ends⟩
  · rintro ⟨rfl, ends⟩
    exact .inr ⟨_, rfl, ends⟩

/-- One more of the last character. -/
theorem EndingRun.again (run : EndingRun s c n) : EndingRun (s ++ [c]) c (n + 1) where
  reached := replicate_succ_suffix_concat_iff.2 ⟨rfl, run.reached⟩
  most k ends := by
    cases k with
    | zero => exact Nat.zero_le _
    | succ k => exact Nat.succ_le_succ (run.most k (replicate_succ_suffix_concat_iff.1 ends).2)

/-- Another character. -/
theorem EndingRun.other (different : b ≠ a) : EndingRun (s ++ [a] ++ [b]) b 1 where
  reached := replicate_succ_suffix_concat_iff.2 ⟨rfl, List.nil_suffix⟩
  most k ends := by
    rcases k with - | - | k
    · exact Nat.zero_le _
    · exact Nat.le_refl _
    · have before := (replicate_succ_suffix_concat_iff.1 ends).2
      exact absurd (replicate_succ_suffix_concat_iff.1 before).1 different

/-- The run at the end is the only new one. -/
theorem LongestRun.concat {current : Nat} (run : LongestRun s n)
    (ending : EndingRun (s ++ [c]) c current) : LongestRun (s ++ [c]) (max n current) where
  reached := by
    rcases Nat.le_total n current with less | more
    · rw [Nat.max_eq_right less]
      exact ⟨c, ending.reached.isInfix⟩
    · rw [Nat.max_eq_left more]
      obtain ⟨d, inside⟩ := run.reached
      exact ⟨d, List.infix_concat_iff.2 (.inr inside)⟩
  most d k inside := by
    rcases List.infix_concat_iff.1 inside with ends | before
    · cases k with
      | zero => exact Nat.zero_le _
      | succ k =>
          obtain ⟨rfl, -⟩ := replicate_succ_suffix_concat_iff.1 ends
          exact Nat.le_trans (ending.most _ ends) (Nat.le_max_right _ _)
    · exact Nat.le_trans (run.most d k before) (Nat.le_max_left _ _)

theorem LongestRun.le_length (run : LongestRun s n) : n ≤ s.length := by
  obtain ⟨c, inside⟩ := run.reached
  have short := inside.length_le
  rwa [List.length_replicate] at short

theorem LongestRun.pos (run : LongestRun s n) (some : s ≠ []) : 0 < n := by
  obtain ⟨c, rest, rfl⟩ := List.exists_cons_of_ne_nil some
  exact run.most c 1 (List.prefix_append [c] rest).isInfix

end Words

/-! ## Tables of frequencies -/

section Words

variable {α : Type} [DecidableEq α]

/-- `freq[c]++` -/
def tally (c : α) : List (α × Nat) → List (α × Nat)
  | [] => [(c, 1)]
  | (key, count) :: table =>
      if key = c then (key, count + 1) :: table else (key, count) :: tally c table

def frequencies (s : List α) : List (α × Nat) := s.foldl (fun freq c => tally c freq) []

/-- The table has the characters of a text, each once, with their numbers. -/
structure Counts (s : List α) (table : List (α × Nat)) : Prop where
  once : (table.map Prod.fst).Nodup
  keys : ∀ c, c ∈ table.map Prod.fst ↔ c ∈ s
  exact : ∀ c count, (c, count) ∈ table → count = s.count c

theorem mem_keys_tally {c d : α} {table : List (α × Nat)} :
    d ∈ (tally c table).map Prod.fst ↔ d ∈ table.map Prod.fst ∨ d = c := by
  fun_induction tally c table with
  | case1 => simp
  | case2 count table => simp only [List.map_cons, List.mem_cons]; tauto
  | case3 key count table different ih =>
      rw [List.map_cons, List.mem_cons, ih, List.map_cons, List.mem_cons, or_assoc]

theorem nodup_keys_tally {c : α} {table : List (α × Nat)} (once : (table.map Prod.fst).Nodup) :
    ((tally c table).map Prod.fst).Nodup := by
  fun_induction tally c table with
  | case1 => exact List.nodup_singleton c
  | case2 count table => exact once
  | case3 key count table different ih =>
      obtain ⟨absent, rest⟩ := List.nodup_cons.1 once
      refine List.nodup_cons.2 ⟨fun present => ?_, ih rest⟩
      rcases mem_keys_tally.1 present with before | same
      · exact absent before
      · exact different same

/-- An entry is counted up, new, or as it was. -/
theorem mem_tally {c d : α} {count : Nat} {table : List (α × Nat)}
    (once : (table.map Prod.fst).Nodup) (member : (d, count) ∈ tally c table) :
    d = c ∧ (∃ before, (c, before) ∈ table ∧ count = before + 1 ∨
        c ∉ table.map Prod.fst ∧ count = 1) ∨
      d ≠ c ∧ (d, count) ∈ table := by
  fun_induction tally c table with
  | case1 =>
      obtain ⟨rfl, rfl⟩ := Prod.mk.inj (List.mem_singleton.1 member)
      exact .inl ⟨rfl, 0, .inr ⟨List.not_mem_nil, rfl⟩⟩
  | case2 before table =>
      rcases List.mem_cons.1 member with first | later
      · obtain ⟨rfl, rfl⟩ := Prod.mk.inj first
        exact .inl ⟨rfl, before, .inl ⟨List.mem_cons_self, rfl⟩⟩
      · refine .inr ⟨?_, List.mem_cons_of_mem _ later⟩
        rintro rfl
        exact (List.nodup_cons.1 once).1 (List.mem_map.2 ⟨_, later, rfl⟩)
  | case3 key before table different ih =>
      rcases List.mem_cons.1 member with first | later
      · obtain ⟨rfl, rfl⟩ := Prod.mk.inj first
        exact .inr ⟨different, List.mem_cons_self⟩
      · rcases ih (List.nodup_cons.1 once).2 later with ⟨same, old, up | new⟩ | ⟨other, kept⟩
        · exact .inl ⟨same, old, .inl ⟨List.mem_cons_of_mem _ up.1, up.2⟩⟩
        · refine .inl ⟨same, old, .inr ⟨?_, new.2⟩⟩
          rw [List.map_cons, List.mem_cons, not_or]
          exact ⟨Ne.symm different, new.1⟩
        · exact .inr ⟨other, List.mem_cons_of_mem _ kept⟩

theorem Counts.concat {s : List α} {table : List (α × Nat)} (counts : Counts s table) (c : α) :
    Counts (s ++ [c]) (tally c table) where
  once := nodup_keys_tally counts.once
  keys d := by
    rw [mem_keys_tally, counts.keys, List.mem_append, List.mem_singleton]
  exact d count member := by
    rw [List.count_append]
    rcases mem_tally counts.once member with ⟨rfl, before, up | new⟩ | ⟨other, kept⟩
    · rw [up.2, counts.exact d before up.1, List.count_singleton_self]
    · have absent := List.count_eq_zero_of_not_mem (mt (counts.keys d).2 new.1)
      rw [new.2, absent, List.count_singleton_self]
    · rw [counts.exact d count kept, List.count_singleton, if_neg]
      · rfl
      · simpa using Ne.symm other

theorem frequencies_counts (s : List α) : Counts s (frequencies s) := by
  have loop (rest seen : List α) (table : List (α × Nat)) (counts : Counts seen table) :
      Counts (seen ++ rest) (rest.foldl (fun freq c => tally c freq) table) := by
    induction rest generalizing seen table with
    | nil => rwa [List.append_nil]
    | cons c rest ih =>
        rw [List.append_cons]
        exact ih (seen ++ [c]) (tally c table) (counts.concat c)
  exact loop s [] [] ⟨List.nodup_nil, fun _ => Iff.rfl, fun _ _ absent => by cases absent⟩

namespace Counts

variable {s : List α} {table : List (α × Nat)} (counts : Counts s table)

include counts

theorem perm {other : List (α × Nat)} (same : other.Perm table) : Counts s other where
  once := (same.map Prod.fst).nodup_iff.2 counts.once
  keys c := (same.map Prod.fst).mem_iff.trans (counts.keys c)
  exact c count member := counts.exact c count (same.mem_iff.1 member)

/-- A count of the table is that of a character of the text, and conversely. -/
theorem mem_counts {count : Nat} :
    count ∈ table.map Prod.snd ↔ ∃ c ∈ s, count = s.count c := by
  constructor
  · intro member
    obtain ⟨⟨c, k⟩, entry, rfl⟩ := List.mem_map.1 member
    exact ⟨c, (counts.keys c).1 (List.mem_map_of_mem entry), counts.exact c k entry⟩
  · rintro ⟨c, inText, rfl⟩
    obtain ⟨⟨d, k⟩, entry, rfl⟩ := List.mem_map.1 ((counts.keys c).2 inText)
    exact counts.exact d k entry ▸ List.mem_map_of_mem entry

theorem positive : ∀ count ∈ table.map Prod.snd, 0 < count := by
  intro count member
  obtain ⟨c, inText, rfl⟩ := counts.mem_counts.1 member
  exact List.count_pos_iff.2 inText

/-- All the characters are counted. -/
theorem sum_eq_length : (table.map Prod.snd).sum = s.length := by
  have sameKeys : (table.map Prod.fst).Perm s.dedup :=
    (List.perm_ext_iff_of_nodup counts.once s.nodup_dedup).2 fun c =>
      (counts.keys c).trans List.mem_dedup.symm
  have byKey : table.map Prod.snd = (table.map Prod.fst).map fun c => s.count c := by
    rw [List.map_map]
    exact List.map_congr_left fun entry member => counts.exact entry.1 entry.2 member
  rw [byKey, (sameKeys.map _).sum_eq]
  exact List.sum_map_count_dedup_eq_length s

theorem all_one_iff : (∀ count ∈ table.map Prod.snd, count = 1) ↔ s.Nodup := by
  rw [List.nodup_iff_count_eq_one]
  constructor
  · intro all c inText
    exact all _ (counts.mem_counts.2 ⟨c, inText, rfl⟩)
  · intro once count member
    obtain ⟨c, inText, rfl⟩ := counts.mem_counts.1 member
    exact once c inText

theorem all_length_iff :
    (∀ count ∈ table.map Prod.snd, count = s.length) ↔ ∀ c ∈ s, ∀ d ∈ s, c = d := by
  constructor
  · intro all c inText d another
    have full := all _ (counts.mem_counts.2 ⟨c, inText, rfl⟩)
    exact List.count_eq_length.1 full d another
  · intro same count member
    obtain ⟨c, inText, rfl⟩ := counts.mem_counts.1 member
    exact List.count_eq_length.2 fun d another => same c inText d another

end Counts

end Words

/-! ## `artificiality_score` -/

/-- What the library gives: `log2`, the classes of characters, and the order in which a loop
goes over an `std::unordered_map`. -/
structure CharLibrary (F : Type) where
  log2 : F → F
  isdigit : UInt8 → Bool
  isalpha : UInt8 → Bool
  arrange : List (UInt8 × Nat) → List (UInt8 × Nat)

/-- The characters of `"_- \r\t\n\b\a"`. -/
def separators : Text := [0x5f, 0x2d, 0x20, 0x0d, 0x09, 0x0a, 0x08, 0x07]

/-- `remove_chars`; the string that it is given has the result too. -/
def cleaned (s : StdString) : StdString where
  text := s.text.filter fun c => !separators.contains c
  fits := Nat.lt_of_le_of_lt (List.length_filter_le _ _) s.fits

/-- The loop over `i` of `pattern_analysis`, behind `s[i - 1]`. -/
def consecutiveLoop (before : UInt8) : Text → Nat → Nat → Nat
  | [], _, maxConsecutive => maxConsecutive
  | c :: rest, currentConsecutive, maxConsecutive =>
      if c = before then
        let current := currentConsecutive + 1
        consecutiveLoop c rest current
          (if maxConsecutive < current then current else maxConsecutive)
      else consecutiveLoop c rest 1 maxConsecutive

def maxConsecutive : Text → Nat
  | [] => 1
  | c :: rest => consecutiveLoop c rest 1 1

section

variable {F : Type} (A : Arith F) (C : CharLibrary F)

def calculateEntropy (s : Text) : Option F :=
  if s = [] then some (A.double.ofInt 0)
  else
    (C.arrange (frequencies s)).foldlM
      (fun entropy pair => do
        let p ← A.double.div (A.double.ofInt pair.2) (A.double.ofInt s.length)
        return A.double.sub entropy (A.double.mul p (C.log2 p)))
      (A.double.ofInt 0)

def patternAnalysis (s : StdString) : Option (F × F) :=
  if s.text = [] then some (A.double.ofInt 1, A.double.ofInt 1)
  else do
    let longest ← (maxRepLen s).toOption
    let repeatScore ← A.double.div (A.double.ofInt longest) (A.double.ofInt s.text.length)
    let consecutiveScore ←
      A.double.div (A.double.ofInt (maxConsecutive s.text)) (A.double.ofInt s.text.length)
    return (repeatScore, consecutiveScore)

/-- `std::abs` -/
def Arith.abs (x : F) : F :=
  if A.lt x (A.double.ofInt 0) then A.double.sub (A.double.ofInt 0) x else x

/-- Digits, and letters that are no digits. -/
def tallied (s : Text) : Nat × Nat :=
  s.foldl
    (fun (digits, letters) c =>
      if C.isdigit c then (digits + 1, letters)
      else if C.isalpha c then (digits, letters + 1)
      else (digits, letters))
    (0, 0)

def distributionAnalysis (s : Text) : Option F :=
  if s = [] then some (A.double.ofInt 1)
  else do
    let (digits, letters) := tallied C s
    let digitRatio ← A.double.div (A.double.ofInt digits) (A.double.ofInt s.length)
    let letterRatio ← A.double.div (A.double.ofInt letters) (A.double.ofInt s.length)
    let half := A.literal (1 / 2)
    return A.double.add (A.abs (A.double.sub digitRatio half))
      (A.abs (A.double.sub letterRatio half))

/-- `std::max(0.0, std::min(1.0, x))` -/
def Arith.limited (x : F) : F :=
  let least := if A.lt x (A.double.ofInt 1) then x else A.double.ofInt 1
  if A.lt (A.double.ofInt 0) least then least else A.double.ofInt 0

/-- The weights of the three parts. -/
structure Shares (F : Type) where
  k1 : F
  k2 : F
  k3 : F

/-- The defaults of `artificiality_score`. -/
def Arith.shares : Shares F where
  k1 := A.literal (4 / 10)
  k2 := A.literal (3 / 10)
  k3 := A.literal (3 / 10)

/-- The score of the entropy. -/
def entropyBasedScore (s : Text) : Option F := do
  let entropy ← calculateEntropy A C s
  let maxEntropy := C.log2 (A.double.ofInt s.length)
  if A.lt (A.double.ofInt 0) maxEntropy then
    let ratio ← A.double.div entropy maxEntropy
    return A.double.sub (A.double.ofInt 1) ratio
  else return A.double.ofInt 1

def artificialityScore (s : StdString) (k : Shares F) : Option F :=
  let clean := cleaned s
  if clean.text = [] then some (A.narrow (A.double.ofInt 1))
  else do
    let entropyScore ← entropyBasedScore A C clean.text
    let patterns ← patternAnalysis A clean
    let patternScore ← A.double.div (A.double.add patterns.1 patterns.2) (A.double.ofInt 2)
    let distScore ← distributionAnalysis A C clean.text
    let finalScore := A.double.add
      (A.double.add (A.double.mul entropyScore k.k1) (A.double.mul patternScore k.k2))
      (A.double.mul distScore k.k3)
    return A.narrow (A.limited finalScore)

end

/-! ## The loops -/

theorem consecutiveLoop_longest {before : UInt8} {seen rest : Text} {current longest : Nat}
    (ending : EndingRun (seen ++ [before]) before current)
    (run : LongestRun (seen ++ [before]) longest) :
    LongestRun (seen ++ before :: rest) (consecutiveLoop before rest current longest) := by
  induction rest generalizing before seen current longest with
  | nil => exact run
  | cons c rest ih =>
      rw [List.append_cons, consecutiveLoop]
      split
      · next same =>
          subst same
          have greater : (if longest < current + 1 then current + 1 else longest) =
              max longest (current + 1) := by split <;> omega
          show LongestRun _ (consecutiveLoop c rest (current + 1) _)
          rw [greater]
          exact ih ending.again (run.concat ending.again)
      · next different =>
          have alone := EndingRun.other (s := seen) different
          have next := run.concat alone
          have some := run.pos (List.append_ne_nil_of_right_ne_nil _ (List.cons_ne_nil _ _))
          rw [Nat.max_eq_left some] at next
          exact ih alone next

theorem maxConsecutive_longest {s : Text} (some : s ≠ []) : LongestRun s (maxConsecutive s) := by
  obtain ⟨c, rest, rfl⟩ := List.exists_cons_of_ne_nil some
  have single : EndingRun ([] ++ [c]) c 1 := by
    refine ⟨List.suffix_rfl, fun k ends => ?_⟩
    have short := ends.length_le
    rwa [List.length_replicate] at short
  refine @consecutiveLoop_longest c [] rest 1 1 single ⟨⟨c, List.infix_rfl⟩, fun d k inside => ?_⟩
  have short := inside.length_le
  rwa [List.length_replicate] at short

/-- Letters that are no digits. -/
def CharLibrary.isLetter {F : Type} (C : CharLibrary F) (c : UInt8) : Bool :=
  !C.isdigit c && C.isalpha c

theorem tallied_eq {F : Type} (C : CharLibrary F) (s : Text) :
    tallied C s = (s.countP C.isdigit, s.countP C.isLetter) := by
  have loop (rest : Text) (digits letters : Nat) : rest.foldl
      (fun (x : Nat × Nat) c =>
        if C.isdigit c then (x.1 + 1, x.2)
        else if C.isalpha c then (x.1, x.2 + 1)
        else (x.1, x.2)) (digits, letters) =
      (digits + rest.countP C.isdigit, letters + rest.countP C.isLetter) := by
    induction rest generalizing digits letters with
    | nil => rfl
    | cons c rest ih =>
        rw [List.foldl_cons, List.countP_cons, List.countP_cons, CharLibrary.isLetter]
        by_cases digit : C.isdigit c = true
        · simp only [digit, if_true, ih, Bool.not_true, Bool.false_and, if_false,
            Bool.false_eq_true]
          rw [Nat.add_assoc, Nat.add_comm 1]
          rfl
        · by_cases letter : C.isalpha c = true
          · simp only [digit, letter, if_true, if_false, ih, Bool.not_false, Bool.true_and,
              Bool.false_eq_true]
            rw [Nat.add_assoc letters, Nat.add_comm 1]
            rfl
          · simp only [digit, letter, if_false, ih, Bool.not_false, Bool.true_and,
              Bool.false_eq_true]
            rfl
  have start := loop s 0 0
  rwa [Nat.zero_add, Nat.zero_add] at start

/-! ## Exact arithmetic -/

section

variable {K : Type} [Field K] [LinearOrder K] [IsStrictOrderedRing K]

/-- The logarithm is exact, and the loop over the table misses and repeats no entry. -/
structure CharLibrary.Exact (C : CharLibrary K) (L : Logarithm K) : Prop where
  log2 : C.log2 = L.log
  arrange : ∀ table, (C.arrange table).Perm table

variable {C : CharLibrary K} {L : Logarithm K} {s : Text}

theorem calculateEntropy_eq (exact : C.Exact L) (some : s ≠ []) :
    calculateEntropy (Arith.exact K) C s =
      .some (L.entropy ((C.arrange (frequencies s)).map Prod.snd) s.length) := by
  have total : (s.length : K) ≠ 0 := Nat.cast_ne_zero.2 (List.length_pos_iff.2 some).ne'
  have loop (table : List (UInt8 × Nat)) (start : K) : table.foldlM
      (fun (entropy : K) (pair : UInt8 × Nat) => do
        let p ← (Arith.exact K).double.div ((Arith.exact K).double.ofInt pair.2)
          ((Arith.exact K).double.ofInt s.length)
        return (Arith.exact K).double.sub entropy ((Arith.exact K).double.mul p (C.log2 p))) start =
      .some ((table.map Prod.snd).foldl
        (fun (entropy : K) (k : Nat) =>
          entropy - (k : K) / s.length * L.log ((k : K) / s.length)) start) := by
    induction table generalizing start with
    | nil => rfl
    | cons entry table ih =>
        rw [List.foldlM_cons, List.map_cons, List.foldl_cons, ← ih, ← exact.log2]
        exact congrArg (· >>= _) (congrArg (· >>= _) (exact_div entry.2 total))
  have zero : (Arith.exact K).double.ofInt 0 = 0 := Int.cast_zero
  rw [calculateEntropy, if_neg some, zero]
  exact loop _ 0

/-- **What the entropy tells.**  Its score is 0 just for the names of two characters or more
with no character twice, and 1 just for those of one character over and over. -/
structure Sameness (s : Text) (e : K) : Prop where
  mem : 0 ≤ e ∧ e ≤ 1
  zero_iff : e = 0 ↔ 2 ≤ s.length ∧ s.Nodup
  one_iff : e = 1 ↔ ∀ c ∈ s, ∀ d ∈ s, c = d

theorem sameness_single {c : UInt8} : Sameness [c] (1 : K) where
  mem := ⟨zero_le_one, le_refl 1⟩
  zero_iff := iff_of_false one_ne_zero fun long => absurd long.1 (Nat.lt_irrefl 1)
  one_iff := iff_of_true rfl fun _ first _ second =>
    (List.mem_singleton.1 first).trans (List.mem_singleton.1 second).symm

theorem sameness_entropy {table : List (UInt8 × Nat)} (counts : Counts s table)
    (long : 2 ≤ s.length) :
    Sameness s (1 - L.entropy (table.map Prod.snd) s.length / L.log s.length) := by
  have some : 0 < s.length := Nat.lt_of_lt_of_le Nat.zero_lt_two long
  have largest : 0 < L.log (s.length : K) := L.log_natCast_pos long
  have total := counts.sum_eq_length
  have nonneg := L.entropy_nonneg counts.positive total some
  have le := L.entropy_le_log counts.positive total some
  refine ⟨⟨?_, ?_⟩, ?_, ?_⟩
  · exact sub_nonneg.2 ((div_le_one largest).2 le)
  · exact sub_le_self 1 (div_nonneg nonneg largest.le)
  · rw [sub_eq_zero, eq_comm, div_eq_one_iff_eq largest.ne',
      L.entropy_eq_log_iff counts.positive total some, counts.all_one_iff]
    exact (and_iff_right long).symm
  · rw [sub_eq_self, div_eq_zero_iff, or_iff_left largest.ne',
      L.entropy_eq_zero_iff counts.positive total some, counts.all_length_iff]

theorem entropyBasedScore_sameness (exact : C.Exact L) (some : s ≠ []) :
    ∃ e, entropyBasedScore (Arith.exact K) C s = .some e ∧ Sameness s e := by
  have counts := (frequencies_counts s).perm (exact.arrange (frequencies s))
  rw [entropyBasedScore, calculateEntropy_eq exact some, exact.log2]
  by_cases long : 2 ≤ s.length
  · have largest : 0 < L.log (s.length : K) := L.log_natCast_pos long
    refine ⟨_, ?_, sameness_entropy (L := L) counts long⟩
    simp [Arith.exact, Ops.exact, largest, largest.ne']
  · rcases s with - | ⟨c, - | ⟨d, rest⟩⟩
    · exact absurd rfl some
    · refine ⟨1, ?_, sameness_single⟩
      simp [Arith.exact, Ops.exact]
    · exact absurd (Nat.le_add_left 2 rest.length) long

/-- **What the patterns tell.** -/
structure Patterned (s : Text) (p : K) : Prop where
  eq : ∃ longest run, LongestRepeat s longest ∧ LongestRun s run ∧
    p = ((longest : K) / s.length + run / s.length) / 2
  mem : 0 < p ∧ p < 1

theorem LongestRepeat.lt_length {longest : Nat} (repeats : LongestRepeat s longest)
    (some : s ≠ []) : longest < s.length := by
  rcases repeats.reached with twice | none
  · obtain ⟨t, i, j, ordered, -, ⟨inside, second⟩, rfl⟩ := twice.ordered
    have short := second.length_le
    rw [List.length_drop] at short
    have long := List.length_pos_iff.2 some
    omega
  · exact absurd none.1 some

theorem patterned_of {longest run : Nat} (repeats : LongestRepeat s longest)
    (runs : LongestRun s run) (some : s ≠ []) :
    Patterned s (((longest : K) / s.length + run / s.length) / 2) where
  eq := ⟨longest, run, repeats, runs, rfl⟩
  mem := by
    have total : (0 : K) < s.length := Nat.cast_pos.2 (List.length_pos_iff.2 some)
    have short : (longest : K) / s.length < 1 :=
      (div_lt_one total).2 (Nat.cast_lt.2 (repeats.lt_length some))
    have nonneg : 0 ≤ (longest : K) / s.length := div_nonneg (Nat.cast_nonneg _) total.le
    have le : (run : K) / s.length ≤ 1 := (div_le_one total).2 (Nat.cast_le.2 runs.le_length)
    have positive : 0 < (run : K) / s.length := div_pos (Nat.cast_pos.2 (runs.pos some)) total
    constructor <;> linarith

theorem patternAnalysis_patterned {s : StdString} (some : s.text ≠ []) :
    ∃ first second p, patternAnalysis (Arith.exact K) s = .some (first, second) ∧
      p = (first + second) / 2 ∧ Patterned s.text p := by
  obtain ⟨longest, loops, repeats⟩ := maxRepLen_longest s
  have runs := maxConsecutive_longest some
  have total : (s.text.length : K) ≠ 0 := Nat.cast_ne_zero.2 (List.length_pos_iff.2 some).ne'
  refine ⟨_, _, _, ?_, rfl, patterned_of repeats runs some⟩
  rw [patternAnalysis, if_neg some, loops]
  simp [Except.toOption, Arith.exact, Ops.exact, total]

/-- **What the characters tell.**  Their score is 0 just for names that are half digits, half
letters, and 1 just for those with one of digits, letters and others only. -/
structure Distributed (s : Text) (digits letters : Nat) (d : K) : Prop where
  mem : 0 ≤ d ∧ d ≤ 1
  zero_iff : d = 0 ↔ 2 * digits = s.length ∧ 2 * letters = s.length
  one_iff : d = 1 ↔ digits = s.length ∨ letters = s.length ∨ digits = 0 ∧ letters = 0

theorem countP_add_le {F : Type} (C : CharLibrary F) (s : Text) :
    s.countP C.isdigit + s.countP C.isLetter ≤ s.length := by
  induction s with
  | nil => exact Nat.le_refl 0
  | cons c s ih =>
      rw [List.countP_cons, List.countP_cons, List.length_cons, CharLibrary.isLetter]
      cases C.isdigit c
      · cases C.isalpha c <;> simp <;> omega
      · simp
        omega

/-- How far two shares are from a half each. -/
theorem away_from_half {x y : K} (x0 : 0 ≤ x) (y0 : 0 ≤ y) (sum : x + y ≤ 1) :
    |x - 1 / 2| + |y - 1 / 2| ≤ 1 ∧
      (|x - 1 / 2| + |y - 1 / 2| = 1 ↔ x = 1 ∨ y = 1 ∨ x = 0 ∧ y = 0) := by
  rcases le_total (1 / 2) x with xs | xs <;> rcases le_total (1 / 2) y with ys | ys
  · have zero : |x - 1 / 2| + |y - 1 / 2| = 0 := by
      rw [abs_of_nonneg (sub_nonneg.2 xs), abs_of_nonneg (sub_nonneg.2 ys)]
      linarith
    rw [zero]
    refine ⟨zero_le_one, iff_of_false zero_ne_one ?_⟩
    rintro (one | one | ⟨none, -⟩) <;> linarith
  · rw [abs_of_nonneg (sub_nonneg.2 xs), abs_of_nonpos (sub_nonpos.2 ys)]
    refine ⟨by linarith, fun one => .inl (by linarith), ?_⟩
    rintro (one | one | ⟨none, -⟩) <;> linarith
  · rw [abs_of_nonpos (sub_nonpos.2 xs), abs_of_nonneg (sub_nonneg.2 ys)]
    refine ⟨by linarith, fun one => .inr (.inl (by linarith)), ?_⟩
    rintro (one | one | ⟨-, none⟩) <;> linarith
  · rw [abs_of_nonpos (sub_nonpos.2 xs), abs_of_nonpos (sub_nonpos.2 ys)]
    refine ⟨by linarith, fun one => .inr (.inr ⟨by linarith, by linarith⟩), ?_⟩
    rintro (one | one | ⟨none, none'⟩) <;> linarith

theorem distributed_of {digits letters : Nat} (some : s ≠ []) (le : digits + letters ≤ s.length) :
    Distributed s digits letters
      (|(digits : K) / s.length - 1 / 2| + |(letters : K) / s.length - 1 / 2|) := by
  have total : (0 : K) < s.length := Nat.cast_pos.2 (List.length_pos_iff.2 some)
  have x0 : 0 ≤ (digits : K) / s.length := div_nonneg (Nat.cast_nonneg _) total.le
  have y0 : 0 ≤ (letters : K) / s.length := div_nonneg (Nat.cast_nonneg _) total.le
  have sum : (digits : K) / s.length + (letters : K) / s.length ≤ 1 := by
    rw [← add_div, div_le_one total]
    exact_mod_cast le
  have half (k : Nat) : (k : K) / s.length = 1 / 2 ↔ 2 * k = s.length := by
    rw [div_eq_div_iff total.ne' two_ne_zero, one_mul, mul_comm]
    exact_mod_cast Iff.rfl
  have whole (k : Nat) : (k : K) / s.length = 1 ↔ k = s.length := by
    rw [div_eq_one_iff_eq total.ne', Nat.cast_inj]
  have none (k : Nat) : (k : K) / s.length = 0 ↔ k = 0 := by
    rw [div_eq_zero_iff, or_iff_left total.ne', Nat.cast_eq_zero]
  obtain ⟨le_one, one_iff⟩ := away_from_half x0 y0 sum
  refine ⟨⟨add_nonneg (abs_nonneg _) (abs_nonneg _), le_one⟩, ?_, ?_⟩
  · rw [add_eq_zero_iff_of_nonneg (abs_nonneg _) (abs_nonneg _), abs_eq_zero, abs_eq_zero,
      sub_eq_zero, sub_eq_zero, half, half]
  · rw [one_iff, whole, whole, none, none]

theorem Arith.exact_abs (x : K) : (Arith.exact K).abs x = |x| := by
  simp only [Arith.abs, Arith.exact, Ops.exact, Int.cast_zero, decide_eq_true_eq, zero_sub]
  split
  · next negative => exact (abs_of_neg negative).symm
  · next nonneg => exact (abs_of_nonneg (not_lt.1 nonneg)).symm

theorem distributionAnalysis_distributed (C : CharLibrary K) (some : s ≠ []) :
    ∃ d, distributionAnalysis (Arith.exact K) C s = .some d ∧
      Distributed s (s.countP C.isdigit) (s.countP C.isLetter) d := by
  have total : (s.length : K) ≠ 0 := Nat.cast_ne_zero.2 (List.length_pos_iff.2 some).ne'
  refine ⟨_, ?_, distributed_of some (countP_add_le C s)⟩
  rw [distributionAnalysis, if_neg some, tallied_eq]
  simp only [Arith.exact_abs]
  simp [Arith.exact, Ops.exact, total]

/-! ## The score -/

omit [IsStrictOrderedRing K] in
theorem Arith.exact_limited (x : K) : (Arith.exact K).limited x = max 0 (min 1 x) := by
  simp only [Arith.limited, Arith.exact, Ops.exact, Int.cast_zero, Int.cast_one,
    decide_eq_true_eq]
  rw [min_comm, min_def_lt, max_def_lt]

/-- What `artificiality_score` adds up for a name. -/
structure Judged (C : CharLibrary K) (s : Text) (e p d : K) : Prop where
  sameness : Sameness s e
  patterned : Patterned s p
  distributed : Distributed s (s.countP C.isdigit) (s.countP C.isLetter) d

/-- The weights are together not more than 1. -/
structure Shares.Weights (k : Shares K) : Prop where
  k1 : 0 ≤ k.k1
  k2 : 0 ≤ k.k2
  k3 : 0 ≤ k.k3
  total : k.k1 + k.k2 + k.k3 ≤ 1

def Shares.total (k : Shares K) (e p d : K) : K := e * k.k1 + p * k.k2 + d * k.k3

namespace Judged

variable {e p d : K} {k : Shares K} (judged : Judged C s e p d) (weights : k.Weights)

include judged weights

theorem total_nonneg : 0 ≤ k.total e p d := by
  have first := mul_nonneg judged.sameness.mem.1 weights.k1
  have second := mul_nonneg judged.patterned.mem.1.le weights.k2
  have third := mul_nonneg judged.distributed.mem.1 weights.k3
  rw [Shares.total]
  linarith

theorem total_le : k.total e p d ≤ 1 - (1 - p) * k.k2 := by
  have first := mul_le_mul_of_nonneg_right judged.sameness.mem.2 weights.k1
  have third := mul_le_mul_of_nonneg_right judged.distributed.mem.2 weights.k3
  have all := weights.total
  rw [Shares.total]
  linarith

theorem total_le_one : k.total e p d ≤ 1 := by
  have missing := mul_nonneg (sub_nonneg.2 judged.patterned.mem.2.le) weights.k2
  have le := judged.total_le weights
  linarith

/-- The bounds change nothing. -/
theorem limited_total : max 0 (min 1 (k.total e p d)) = k.total e p d := by
  rw [min_eq_right (judged.total_le_one weights), max_eq_right (judged.total_nonneg weights)]

theorem total_pos (patterns : 0 < k.k2) : 0 < k.total e p d := by
  have first := mul_nonneg judged.sameness.mem.1 weights.k1
  have second := mul_pos judged.patterned.mem.1 patterns
  have third := mul_nonneg judged.distributed.mem.1 weights.k3
  rw [Shares.total]
  linarith

theorem total_lt_one (patterns : 0 < k.k2) : k.total e p d < 1 := by
  have missing := mul_pos (sub_pos.2 judged.patterned.mem.2) patterns
  have le := judged.total_le weights
  linarith

end Judged

omit [IsStrictOrderedRing K] in
theorem artificialityScore_empty (k : Shares K) {s : StdString} (none : (cleaned s).text = []) :
    artificialityScore (Arith.exact K) C s k = some 1 := by
  rw [artificialityScore]
  simp [none, Arith.exact, Ops.exact]

theorem artificialityScore_eq (exact : C.Exact L) (k : Shares K) {s : StdString}
    (some : (cleaned s).text ≠ []) :
    ∃ e p d, Judged C (cleaned s).text e p d ∧
      artificialityScore (Arith.exact K) C s k = .some (max 0 (min 1 (k.total e p d))) := by
  obtain ⟨e, entropy, sameness⟩ := entropyBasedScore_sameness exact some
  obtain ⟨first, second, p, patterns, mean, patterned⟩ := patternAnalysis_patterned (K := K) some
  obtain ⟨d, distribution, distributed⟩ := distributionAnalysis_distributed C some
  refine ⟨e, p, d, ⟨sameness, patterned, distributed⟩, ?_⟩
  have half : (Arith.exact K).double.div (first + second) ((Arith.exact K).double.ofInt 2) =
      .some p := by
    simp [Arith.exact, Ops.exact, mean]
  rw [artificialityScore, if_neg some, entropy, patterns, distribution]
  show ((Arith.exact K).double.div (first + second) _ >>= _) = _
  rw [half]
  exact congrArg Option.some (Arith.exact_limited _)

/-- **A made up name.**  In exact arithmetic `artificiality_score` reads no character that is
not there and divides by no zero, and it is 1 for a name of separators only and else the
weighted mean of three scores that are between 0 and 1 and say what they look for.  With
weights that are together not more than 1 the bounds at the end are never met, and where the
patterns have a weight every other name is strictly between 0 and 1. -/
theorem artificialityScore_judged (exact : C.Exact L) (k : Shares K) (s : StdString) :
    ∃ value, artificialityScore (Arith.exact K) C s k = some value ∧
      0 ≤ value ∧ value ≤ 1 ∧
      ((cleaned s).text = [] → value = 1) ∧
      ((cleaned s).text ≠ [] →
        ∃ e p d, Judged C (cleaned s).text e p d ∧ value = max 0 (min 1 (k.total e p d)) ∧
          (k.Weights → value = k.total e p d)) ∧
      (k.Weights → 0 < k.k2 → 0 < value ∧ (value = 1 ↔ (cleaned s).text = [])) := by
  by_cases none : (cleaned s).text = []
  · refine ⟨1, artificialityScore_empty k none, zero_le_one, le_refl 1, fun _ => rfl,
      fun some => absurd none some, fun _ _ => ⟨one_pos, iff_of_true rfl none⟩⟩
  · obtain ⟨e, p, d, judged, scores⟩ := artificialityScore_eq exact k none
    refine ⟨_, scores, le_max_left _ _, max_le zero_le_one (min_le_left _ _),
      fun absent => absurd absent none, fun _ => ?_, fun weights patterns => ?_⟩
    · exact ⟨e, p, d, judged, rfl, fun weights => judged.limited_total weights⟩
    · rw [judged.limited_total weights]
      exact ⟨judged.total_pos weights patterns,
        iff_of_false (judged.total_lt_one weights patterns).ne none⟩

end

/-! ## The real logarithm -/

noncomputable def binaryLogarithm : Logarithm ℝ where
  log := Real.logb (2 : ℕ)
  mul hx hy := Real.logb_mul hx.ne' hy.ne'
  pos := fun above => Real.logb_pos (Nat.one_lt_cast.2 Nat.one_lt_two) above

/-- The characters of ASCII. -/
noncomputable def CharLibrary.ascii : CharLibrary ℝ where
  log2 := Real.logb (2 : ℕ)
  isdigit c := 0x30 ≤ c && c ≤ 0x39
  isalpha c := 0x41 ≤ c && c ≤ 0x5a || 0x61 ≤ c && c ≤ 0x7a
  arrange table := table.reverse

/-- A name with a separator, and the default weights. -/
theorem artificialityScore_judged_ascii :
    ∃ value, artificialityScore (Arith.exact ℝ) CharLibrary.ascii
        ⟨[0x61, 0x5f, 0x31], by decide⟩ (Arith.exact ℝ).shares = some value ∧
      0 < value ∧ value < 1 := by
  have weights : (Arith.exact ℝ).shares.Weights := by
    constructor <;> norm_num [Arith.shares, Arith.exact]
  have patterns : 0 < (Arith.exact ℝ).shares.k2 := by norm_num [Arith.shares, Arith.exact]
  have exact : CharLibrary.ascii.Exact binaryLogarithm := ⟨rfl, fun table => table.reverse_perm⟩
  obtain ⟨value, scores, -, le, -, -, strict⟩ :=
    artificialityScore_judged exact (Arith.exact ℝ).shares ⟨[0x61, 0x5f, 0x31], by decide⟩
  obtain ⟨positive, one⟩ := strict weights patterns
  exact ⟨value, scores, positive, lt_of_le_of_ne le (mt one.1 (by decide))⟩

end Refsapi.Nicks
