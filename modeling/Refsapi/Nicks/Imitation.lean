/-
# Nicks.Imitation -- `check_nick_imitation` and the native over it

The function goes over the slots from the last one down, and answers with the first one whose
name is like that of `id`.  It passes the names to `similarity_score` and nothing else: the
tuning parameters of the plugin are dropped, and the defaults decide (`checkSlots_spec`).

The native gives the bits of the slot as a cell.  A plugin to which the native is one of a
`Float` reads another number, unless the answer is 0.
-/
import Refsapi.Lib.Binary
import Refsapi.Misc.Edict
import Refsapi.Nicks.Score

namespace Refsapi.Nicks

set_option autoImplicit false

/-! ## The code -/

/-- A client: `IsConnected` and `GetName`. -/
structure Client where
  connected : Bool
  name : Text

/-- The slots; there are at most `MAX_PLAYERS`. -/
structure Server where
  maxClients : Nat
  client : Nat → Client
  atMost : maxClients ≤ 32

/-- The cells that a plugin passes to the native. -/
structure Params where
  id : BitVec 32
  threshold : BitVec 32
  lcsThreshold : BitVec 32
  kLev : BitVec 32
  kTan : BitVec 32
  kLcs : BitVec 32

section

variable {F : Type} (A : Arith F) (P : Platform) (server : Server)

/-- The loop of `check_nick_imitation`, from a slot down. -/
def checkSlots (id : Nat) (name : Wide) (threshold : F) : Nat → Cache → Option (Nat × Cache)
  | 0, cache => some (0, cache)
  | i + 1, cache =>
      if i + 1 = id then checkSlots id name threshold i cache
      else if !(server.client (i + 1)).connected then checkSlots id name threshold i cache
      else do
        let (score, cache) ← similarityScore A P A.defaults name
          (stows (server.client (i + 1)).name) cache
        if A.le threshold score then return (i + 1, cache)
        else checkSlots id name threshold i cache

/-- `check_nick_imitation`; the tuning is not passed on. -/
def checkNickImitation (id : Nat) (threshold : F) (_tuning : Tuning F) (cache : Cache) :
    Option (Nat × Cache) :=
  if isValidIndex server.maxClients id then
    checkSlots A P server id (stows (server.client id).name) threshold server.maxClients cache
  else some (0, cache)

/-- The tuning that a plugin gives; `ofCell` is `amx_ctof`. -/
def Params.tuning (ofCell : BitVec 32 → F) (params : Params) : Tuning F where
  lcsThreshold := ofCell params.lcsThreshold
  kLev := ofCell params.kLev
  kTan := ofCell params.kTan
  kLcs := ofCell params.kLcs

/-- `amx_ftoc` of a `size_t` has its bits. -/
def rfCheckNickImitation (ofCell : BitVec 32 → F) (params : Params) (cache : Cache) :
    Option (BitVec 32 × Cache) := do
  let (result, cache) ← checkNickImitation A P server params.id.toNat (ofCell params.threshold)
    (params.tuning ofCell) cache
  return (BitVec.ofNat 32 result, cache)

/-! ## What it is for -/

/-- The score of two names. -/
def scoreOf (tuning : Tuning F) (nick1 nick2 : Wide) : Option F :=
  (similarityScore A P tuning nick1 nick2 Cache.empty).map Prod.fst

/-- Another client has a name whose score reaches the threshold. -/
def Imitates (tuning : Tuning F) (id : Nat) (threshold : F) (i : Nat) : Prop :=
  isValidIndex server.maxClients i = true ∧ i ≠ id ∧ (server.client i).connected = true ∧
    ∃ score ∈ scoreOf A P tuning (stows (server.client id).name) (stows (server.client i).name),
      A.le threshold score = true

instance (tuning : Tuning F) (id : Nat) (threshold : F) (i : Nat) :
    Decidable (Imitates A P server tuning id threshold i) := inferInstanceAs (Decidable (_ ∧ _))

/-- A client whose name is compared with that of `id` has one that can be, and so has `id`. -/
def Scored (id i : Nat) : Prop :=
  isValidIndex server.maxClients i = true → i ≠ id → (server.client i).connected = true →
    AllFold P (stows (server.client id).name) ∧ AllFold P (stows (server.client i).name)

instance (id i : Nat) : Decidable (Scored P server id i) :=
  inferInstanceAs (Decidable (_ → _ → _ → _ ∧ _))

/-- The answer is a client that imitates `id`, or 0 if there is none. -/
def Answers (tuning : Tuning F) (id : Nat) (threshold : F) (result : Nat) : Prop :=
  (result ≠ 0 ∧ Imitates A P server tuning id threshold result) ∨
    (result = 0 ∧ ∀ i, ¬ Imitates A P server tuning id threshold i)

/-- A floating-point division has a result. -/
structure Arith.Divides : Prop where
  single : ∀ x y, (A.single.div x y).isSome
  double : ∀ x y, (A.double.div x y).isSome

end

section

variable {F : Type} {A : Arith F} {P : Platform} {server : Server} {tuning : Tuning F}

/-! ## A score does not depend on the cache -/

theorem weightedScore_value (divides : A.Divides) (tuning : Tuning F) {n1 n2 : Wide}
    (two1 : 2 ≤ n1.length) (two2 : 2 ≤ n2.length) (lcsLen : Nat) :
    ∃ value, ∀ cache, Good cache →
      ∃ later, weightedScore A tuning n1 n2 lcsLen cache = some (value, later) := by
  obtain ⟨levShare, isLev⟩ := Option.isSome_iff_exists.1 (divides.single
    (A.single.ofInt (levDist n1 n2)) (A.single.ofInt (max n1.length n2.length : Nat)))
  obtain ⟨tanScore, isTan⟩ := Option.isSome_iff_exists.1 (divides.single
    (A.single.ofInt (sharedPairs n1 n2)) (A.single.ofInt (allPairs n1 n2)))
  obtain ⟨lcsShare, isLcs⟩ := Option.isSome_iff_exists.1 (divides.double
    (A.double.ofInt lcsLen) (A.double.ofInt (max n1.length n2.length : Nat)))
  refine ⟨A.narrow (A.double.add (A.single.add
    (A.single.mul tuning.kLev (A.single.sub (A.single.ofInt 1) levShare))
    (A.single.mul tuning.kTan tanScore)) (A.double.mul tuning.kLcs lcsShare)), ?_⟩
  intro cache good
  obtain ⟨pairs1, good1⟩ := getCachedNgrams_good good two1
  obtain ⟨pairs2, -⟩ := getCachedNgrams_good good1 two2
  refine ⟨(getCachedNgrams n2 2 (getCachedNgrams n1 2 cache).2).2, ?_⟩
  simp only [weightedScore, fastLevenshtein_eq_levDist, pairs1, pairs2, isLev, isLcs,
    Option.bind_eq_bind, Option.bind_some]
  change (A.single.div (A.single.ofInt (sharedPairs n1 n2))
    (A.single.ofInt (allPairs n1 n2))).bind _ = _
  rw [isTan]
  rfl

theorem normalScore_value (divides : A.Divides) (tuning : Tuning F) (n1 n2 : Wide) :
    ∃ value, ∀ cache, Good cache →
      ∃ later, normalScore A tuning n1 n2 cache = some (value, later) := by
  unfold normalScore
  split
  · exact ⟨_, fun cache _ => ⟨cache, rfl⟩⟩
  · next long =>
      simp only [Bool.or_eq_true, decide_eq_true_eq, not_or, Nat.not_lt] at long
      split
      · exact ⟨_, fun cache _ => ⟨cache, rfl⟩⟩
      · simp only
        split
        · obtain ⟨lcsScore, isLcs⟩ := Option.isSome_iff_exists.1 (divides.single
            (A.single.ofInt (longestCommonSubstring n1 n2))
            (A.single.ofInt (max n1.length n2.length : Nat)))
          simp only [isLcs, Option.bind_eq_bind, Option.bind_some]
          split
          · exact ⟨_, fun cache _ => ⟨cache, rfl⟩⟩
          · exact weightedScore_value divides tuning long.1.1 long.1.2 _
        · exact weightedScore_value divides tuning long.1.1 long.1.2 _

/-- With any cache that calls have made, `similarity_score` gives the score of the names. -/
theorem similarityScore_value (divides : A.Divides) (tuning : Tuning F) {nick1 nick2 : Wide}
    (folds : AllFold P nick1 ∧ AllFold P nick2) {cache : Cache}
    (good : Good cache) :
    ∃ value later, similarityScore A P tuning nick1 nick2 cache = some (value, later) ∧
      scoreOf A P tuning nick1 nick2 = some value ∧ Good later := by
  obtain ⟨value, all⟩ :=
    normalScore_value divides tuning (normalForm P nick1) (normalForm P nick2)
  obtain ⟨later, scores⟩ := all cache good
  obtain ⟨first, scores'⟩ := all Cache.empty good_empty
  refine ⟨value, later, ?_, ?_, normalScore_good good scores⟩
  · rw [similarityScore_eq, if_pos folds, scores]
  · rw [scoreOf, similarityScore_eq, if_pos folds, scores', Option.map_some]

theorem Imitates.folds {id : Nat} {threshold : F} {i : Nat}
    (imitates : Imitates A P server tuning id threshold i) :
    AllFold P (stows (server.client id).name) ∧ AllFold P (stows (server.client i).name) := by
  obtain ⟨-, -, -, score, isScore, -⟩ := imitates
  obtain ⟨scored, scores, -⟩ := Option.map_eq_some_iff.1 isScore
  rw [similarityScore_eq, Option.ite_none_right_eq_some] at scores
  exact scores.1

/-! ## The loop -/

/-- The answer from a slot down: the last slot that imitates `id` with the default tuning, or 0,
when no name that is compared before it has no score. -/
structure Found (A : Arith F) (P : Platform) (server : Server) (id : Nat) (threshold : F)
    (i result : Nat) : Prop where
  le : result ≤ i
  imitates : result ≠ 0 → Imitates A P server A.defaults id threshold result
  passed : ∀ j, result < j → j ≤ i →
    Scored P server id j ∧ ¬ Imitates A P server A.defaults id threshold j

variable {id i result : Nat} {threshold : F}

theorem found_of_passed (scored : Scored P server id (i + 1))
    (other : ¬ Imitates A P server A.defaults id threshold (i + 1)) :
    Found A P server id threshold (i + 1) result ↔ Found A P server id threshold i result := by
  constructor
  · rintro ⟨le, imitates, passed⟩
    refine ⟨Nat.le_of_lt_succ (Nat.lt_of_le_of_ne le ?_), imitates,
      fun j less le => passed j less (Nat.le_succ_of_le le)⟩
    rintro rfl
    exact other (imitates (Nat.succ_ne_zero i))
  · rintro ⟨le, imitates, passed⟩
    refine ⟨Nat.le_succ_of_le le, imitates, fun j less le => ?_⟩
    rcases Nat.le_succ_iff.1 le with before | rfl
    · exact passed j less before
    · exact ⟨scored, other⟩

theorem found_of_imitates
    (imitates : Imitates A P server A.defaults id threshold (i + 1)) :
    Found A P server id threshold (i + 1) result ↔ result = i + 1 := by
  constructor
  · intro found
    by_contra before
    exact (found.passed (i + 1) (Nat.lt_of_le_of_ne found.le before) (Nat.le_refl _)).2 imitates
  · rintro rfl
    exact ⟨Nat.le_refl _, fun _ => imitates, fun j less le => by omega⟩

theorem not_found (valid : isValidIndex server.maxClients (i + 1) = true) (other : i + 1 ≠ id)
    (present : (server.client (i + 1)).connected = true)
    (undefined : ¬ (AllFold P (stows (server.client id).name) ∧
      AllFold P (stows (server.client (i + 1)).name))) :
    ¬ Found A P server id threshold (i + 1) result := by
  intro found
  by_cases here : result = i + 1
  · exact undefined (here ▸ found.imitates (by omega)).folds
  · have passed := found.passed (i + 1) (Nat.lt_of_le_of_ne found.le here) (Nat.le_refl _)
    exact undefined (passed.1 valid other present)

/-- **The loop answers** what it is to find, and has an answer only then. -/
theorem checkSlots_iff (divides : A.Divides) (inside : i ≤ server.maxClients) {cache : Cache}
    (good : Good cache) :
    (∃ later, checkSlots A P server id (stows (server.client id).name) threshold i cache =
      some (result, later)) ↔ Found A P server id threshold i result := by
  induction i generalizing cache with
  | zero =>
      simp only [checkSlots, Option.some.injEq, Prod.mk.injEq]
      constructor
      · rintro ⟨later, rfl, -⟩
        exact ⟨Nat.le_refl 0, fun none => absurd rfl none, fun j less le => by omega⟩
      · intro found
        exact ⟨cache, (Nat.le_zero.1 found.le).symm, rfl⟩
  | succ i ih =>
      have valid : isValidIndex server.maxClients (i + 1) = true := by simpa using inside
      rw [checkSlots]
      split
      · next same =>
          rw [ih (by omega) good, found_of_passed (fun _ other => absurd same other)
            fun imitates => imitates.2.1 same]
      next other =>
      split
      · next absent =>
          have absent : (server.client (i + 1)).connected = false := by simpa using absent
          rw [ih (by omega) good, found_of_passed
            (fun _ _ present => absurd present (by simp [absent]))
            fun imitates => absurd imitates.2.2.1 (by simp [absent])]
      next present =>
      have present : (server.client (i + 1)).connected = true := by simpa using present
      by_cases folds : AllFold P (stows (server.client id).name) ∧
        AllFold P (stows (server.client (i + 1)).name)
      · obtain ⟨value, later, scores, isScore, goodLater⟩ :=
          similarityScore_value (P := P) divides A.defaults folds good
        simp only [scores, Option.bind_eq_bind, Option.bind_some]
        split
        · next reaches =>
            rw [found_of_imitates ⟨valid, other, present, value, isScore, reaches⟩]
            simp only [Option.pure_def, Option.some.injEq, Prod.mk.injEq, exists_and_left,
              exists_eq', and_true, eq_comm]
        · next misses =>
            rw [ih (by omega) goodLater, found_of_passed fun _ _ _ => folds]
            rintro ⟨-, -, -, score, isScore', reaches⟩
            obtain rfl := Option.some.inj (isScore.symm.trans isScore')
            exact misses reaches
      · rw [similarityScore_eq, if_neg folds]
        refine iff_of_false ?_ (not_found valid other present folds)
        rintro ⟨later, run⟩
        cases run

/-! ## The cell -/

/-- The number that a plugin reads in a small cell. -/
theorem ofBits_small {n : Nat} (small : n < 2 ^ 23) :
    Fp.ofBits (BitVec.ofNat 32 n) = .fin false ((n : ℚ) * twoPow (-149)) := by
  have word : (BitVec.ofNat 32 n).toNat = n := by
    rw [BitVec.toNat_ofNat]
    exact Nat.mod_eq_of_lt (by omega)
  have positive : (BitVec.ofNat 32 n).msb = false := by
    rw [BitVec.msb_eq_decide, word]
    exact decide_eq_false (by omega)
  have exponent : n / 2 ^ 23 % 2 ^ 8 = 0 := by omega
  rw [Fp.ofBits, word, positive, exponent, Nat.mod_eq_of_lt small]
  rfl

theorem ofBits_eq_ofInt_iff {n : Nat} (small : n < 2 ^ 23) :
    Fp.ofBits (BitVec.ofNat 32 n) = Fp.ofInt n ↔ n = 0 := by
  have number : Fp.ofInt n = .fin false (n : ℚ) := by simp [Fp.ofInt]
  rw [ofBits_small small, number, Fp.fin.injEq, and_iff_right rfl]
  constructor
  · intro same
    by_contra some
    have unit := mul_left_cancel₀ (Nat.cast_ne_zero.2 some) (same.trans (mul_one _).symm)
    revert unit
    decide +kernel
  · rintro rfl
    simp

/-! ## Whether the parameters are honoured -/

/-- **The impersonation check.**  There is an answer that honours the given tuning, and that the
plugin reads, exactly when the names to compare have a score and no other client reaches the
threshold, with the given tuning or with the defaults.  The answer alone honours it also when the
last client that reaches the threshold with the defaults reaches it with the given tuning too,
and the names behind it have a score. -/
theorem checkNickImitation_iff (divides : A.Divides) (P : Platform) (server : Server)
    (ofCell : BitVec 32 → F) (params : Params)
    (valid : isValidIndex server.maxClients params.id.toNat = true) {cache : Cache}
    (reached : Reached A P cache) :
    let given := Imitates A P server (params.tuning ofCell) params.id.toNat
      (ofCell params.threshold)
    let default := Imitates A P server A.defaults params.id.toNat (ofCell params.threshold)
    let scored := Scored P server params.id.toNat
    ((∃ result cell later,
      checkNickImitation A P server params.id.toNat (ofCell params.threshold)
        (params.tuning ofCell) cache = some (result, later) ∧
      rfCheckNickImitation A P server ofCell params cache = some (cell, later) ∧
      Answers A P server (params.tuning ofCell) params.id.toNat (ofCell params.threshold) result ∧
      Fp.ofBits cell = Fp.ofInt result) ↔ ∀ i, scored i ∧ ¬ default i ∧ ¬ given i) ∧
    ((∃ result later,
      checkNickImitation A P server params.id.toNat (ofCell params.threshold)
        (params.tuning ofCell) cache = some (result, later) ∧
      Answers A P server (params.tuning ofCell) params.id.toNat (ofCell params.threshold) result) ↔
      (∀ i, scored i ∧ ¬ default i ∧ ¬ given i) ∨
        ∃ i, default i ∧ given i ∧ ∀ j, i < j → scored j ∧ ¬ default j) := by
  intro given default scored
  have answer (result : Nat) : (∃ later, checkNickImitation A P server params.id.toNat
      (ofCell params.threshold) (params.tuning ofCell) cache = some (result, later)) ↔
      (result ≠ 0 → default result) ∧ ∀ j, result < j → scored j ∧ ¬ default j := by
    rw [checkNickImitation, if_pos valid, checkSlots_iff divides (Nat.le_refl _) reached.good]
    have beyond (j : Nat) (outside : server.maxClients < j) : scored j ∧ ¬ default j := by
      have isOutside : ¬ isValidIndex server.maxClients j = true := fun inside =>
        absurd ((isValidIndex_iff _ _).1 inside).2 (Nat.not_le.2 outside)
      exact ⟨fun inside => absurd inside isOutside, fun imitates => isOutside imitates.1⟩
    constructor
    · rintro ⟨-, imitates, passed⟩
      exact ⟨imitates, fun j less => (Nat.lt_or_ge server.maxClients j).elim (beyond j)
        (passed j less)⟩
    · rintro ⟨imitates, passed⟩
      refine ⟨?_, imitates, fun j less _ => passed j less⟩
      by_contra outside
      have some : result ≠ 0 := by omega
      exact (beyond result (Nat.lt_of_not_le outside)).2 (imitates some)
  have notZero : ¬ default 0 ∧ ¬ given 0 := by
    have invalid : ¬ isValidIndex server.maxClients 0 = true := fun inside =>
      absurd ((isValidIndex_iff _ _).1 inside).1 (by decide)
    exact ⟨fun imitates => invalid imitates.1, fun imitates => invalid imitates.1⟩
  have scoredZero : scored 0 := fun inside =>
    absurd ((isValidIndex_iff _ _).1 inside).1 (by decide)
  -- the answer is 0, and nobody imitates `id`
  have nobody_iff : (∀ i, scored i ∧ ¬ default i ∧ ¬ given i) ↔
      (∃ later, checkNickImitation A P server params.id.toNat (ofCell params.threshold)
        (params.tuning ofCell) cache = some (0, later)) ∧ ∀ i, ¬ given i := by
    rw [answer]
    constructor
    · intro nobody
      exact ⟨⟨fun some => absurd rfl some, fun j _ => ⟨(nobody j).1, (nobody j).2.1⟩⟩,
        fun i => (nobody i).2.2⟩
    · rintro ⟨⟨-, passed⟩, none⟩ i
      rcases Nat.eq_zero_or_pos i with rfl | positive
      · exact ⟨scoredZero, notZero⟩
      · exact ⟨(passed i positive).1, (passed i positive).2, none i⟩
  constructor
  · rw [nobody_iff]
    constructor
    · rintro ⟨result, cell, later, checked, called, answers, reads⟩
      have isCell : cell = BitVec.ofNat 32 result := by
        rw [rfCheckNickImitation, checked] at called
        exact (congrArg Prod.fst (Option.some.inj called)).symm
      have small : result < 2 ^ 23 := by
        have atMost := server.atMost
        have inside : result ≤ server.maxClients := by
          by_contra outside
          have isDefault := ((answer result).1 ⟨later, checked⟩).1 (by omega)
          exact outside ((isValidIndex_iff _ _).1 isDefault.1).2
        omega
      rw [isCell, ofBits_eq_ofInt_iff small] at reads
      subst reads
      exact ⟨⟨later, checked⟩, (answers.resolve_left fun some => some.1 rfl).2⟩
    · rintro ⟨⟨later, checked⟩, none⟩
      refine ⟨0, 0, later, checked, ?_, .inr ⟨rfl, none⟩, (ofBits_eq_ofInt_iff (by decide)).2 rfl⟩
      rw [rfCheckNickImitation, checked]
      rfl
  · constructor
    · rintro ⟨result, later, checked, answers⟩
      rcases answers with ⟨some, isGiven⟩ | ⟨rfl, none⟩
      · obtain ⟨isDefault, passed⟩ := (answer result).1 ⟨later, checked⟩
        exact .inr ⟨result, isDefault some, isGiven, passed⟩
      · exact .inl (nobody_iff.2 ⟨⟨later, checked⟩, none⟩)
    · rintro (nobody | ⟨i, isDefault, isGiven, passed⟩)
      · obtain ⟨⟨later, checked⟩, none⟩ := nobody_iff.1 nobody
        exact ⟨0, later, checked, .inr ⟨rfl, none⟩⟩
      · obtain ⟨later, checked⟩ := (answer i).2 ⟨fun _ => isDefault, passed⟩
        exact ⟨i, later, checked, .inl ⟨fun isZero => notZero.1 (isZero ▸ isDefault), isGiven⟩⟩

end

/-! ## A server -/

/-- The operations of a binary format. -/
def Ops.binary (format : Format) : Ops Fp where
  ofInt n := Fp.ofRat format n
  add := Fp.add format
  sub := Fp.sub format
  mul := Fp.mul format
  div x y := some (Fp.div format x y)

def Arith.binary : Arith Fp where
  single := Ops.binary binary32
  double := Ops.binary binary64
  narrow := Fp.single
  literal := Fp.ofRat binary32
  lt := Fp.lt
  le := Fp.le

theorem Arith.binary_divides : Arith.binary.Divides := ⟨fun _ _ => rfl, fun _ _ => rfl⟩

/-- Two clients, `abcd` and `abxy`. -/
def twoClients : Server where
  maxClients := 2
  client
    | 1 => ⟨true, [97, 98, 99, 100]⟩
    | _ => ⟨true, [97, 98, 120, 121]⟩
  atMost := by decide

/-- A threshold, and a tuning that is the edit distance alone. -/
def distanceAlone (threshold : BitVec 32) : Params where
  id := 1
  threshold := threshold
  lcsThreshold := 0x3F333333
  kLev := 0x3F800000
  kTan := 0
  kLcs := 0

/-- Names that are half alike do not reach 0.9. -/
theorem checkNickImitation_apart :
    ∃ result cell later,
      checkNickImitation Arith.binary Platform.plain twoClients 1 (Fp.ofBits 0x3F666666)
        ((distanceAlone 0x3F666666).tuning Fp.ofBits) Cache.empty = some (result, later) ∧
      rfCheckNickImitation Arith.binary Platform.plain twoClients Fp.ofBits
        (distanceAlone 0x3F666666) Cache.empty = some (cell, later) ∧
      Fp.ofBits cell = Fp.ofInt result := by
  have nobody (i : Nat) : Scored Platform.plain twoClients 1 i ∧
      ¬ Imitates Arith.binary Platform.plain twoClients Arith.binary.defaults 1
        (Fp.ofBits 0x3F666666) i ∧
      ¬ Imitates Arith.binary Platform.plain twoClients
        ((distanceAlone 0x3F666666).tuning Fp.ofBits) 1 (Fp.ofBits 0x3F666666) i := by
    by_cases isSecond : i = 2
    · subst isSecond
      exact ⟨by decide +kernel, by decide +kernel, by decide +kernel⟩
    have other (inside : isValidIndex twoClients.maxClients i = true) : i = 1 := by
      obtain ⟨positive, atMost⟩ := (isValidIndex_iff _ _).1 inside
      have atMost : i ≤ 2 := atMost
      omega
    exact ⟨fun inside apart => absurd (other inside) apart,
      fun imitates => imitates.2.1 (other imitates.1),
      fun imitates => imitates.2.1 (other imitates.1)⟩
  obtain ⟨result, cell, later, checked, called, -, reads⟩ := (checkNickImitation_iff
    Arith.binary_divides Platform.plain twoClients Fp.ofBits (distanceAlone 0x3F666666)
    (by decide) .empty).1.2 nobody
  exact ⟨result, cell, later, checked, called, reads⟩

/-- Half alike by the edit distance, but less by the defaults: the threshold 0.45 is reached and
the answer is 0.  At 0.3 it is 2, and the plugin reads another number. -/
theorem not_always_tuned :
    Imitates Arith.binary Platform.plain twoClients
        ((distanceAlone 0x3EE66666).tuning Fp.ofBits) 1 (Fp.ofBits 0x3EE66666) 2 ∧
      (rfCheckNickImitation Arith.binary Platform.plain twoClients Fp.ofBits
        (distanceAlone 0x3EE66666) Cache.empty).map Prod.fst = some 0 ∧
      (rfCheckNickImitation Arith.binary Platform.plain twoClients Fp.ofBits
        (distanceAlone 0x3E99999A) Cache.empty).map Prod.fst = some 2 ∧
      Fp.ofBits 2 ≠ Fp.ofInt 2 := by
  refine ⟨?_, ?_, ?_, ?_⟩
  all_goals decide +kernel

end Refsapi.Nicks
