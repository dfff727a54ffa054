/-
# Revoice.Seeking -- `SoundSeek` and `SoundTell`

A receiver is sought to a time, and told where it is.  With exact arithmetic the seek goes to the
sample of that time; but `SoundTell` divides the position by the length as two integers, and tells
the beginning of the wave for every sample before its end (`soundTell_sought`).

So what is told is what was sought at the two ends of the wave, and nowhere between them
(`tells_sought_iff`); and an empty wave has no length to divide by.
-/
import Mathlib.Algebra.Order.Floor.Semiring
import Mathlib.Data.Rat.Floor
import Mathlib.Tactic.Positivity
import Refsapi.Revoice.Positions

namespace Refsapi.Revoice

set_option autoImplicit false

section Exact

variable {K : Type} [Field K] [LinearOrder K] [FloorSemiring K]

variable (K) in
/-- Exact numbers, that do not divide by 0. -/
def Floats.exact : Floats K where
  ofSize n := n
  mul x y := x * y
  div x y := if y = 0 then none else some (x / y)
  lt x y := decide (x < y)
  toSize x := ⌊x⌋₊
  minusOne := -1

namespace Wave

/-- Something is in the wave, and it has a sample rate and a channel. -/
structure HasLength (wave : Wave) : Prop where
  frames : wave.numFrames ≠ 0
  rate : wave.sampleRate ≠ 0
  channels : wave.channels ≠ 0

variable (K) in
/-- The duration of the wave. -/
def seconds (wave : Wave) : K := (wave.numFrames : K) / wave.sampleRate / wave.channels

variable (K) in
/-- The duration of one sample. -/
def sampleSeconds (wave : Wave) : K := 1 / wave.sampleRate / wave.channels

end Wave

end Exact

section Exact

variable {K : Type} [Field K] [LinearOrder K] [IsStrictOrderedRing K] [FloorSemiring K]

namespace Wave

variable {wave : Wave}

omit [IsStrictOrderedRing K] in
theorem length_exact (wave : Wave) : wave.length (Floats.exact K) =
    if wave.sampleRate = 0 ∨ wave.channels = 0 then none else some (wave.seconds K) := by
  simp only [length, Floats.exact, Option.bind_eq_bind, Nat.cast_eq_zero]
  by_cases rate : wave.sampleRate = 0
  · simp [rate]
  · by_cases channels : wave.channels = 0
    · simp [rate, channels]
    · simp [rate, channels, seconds]

omit [FloorSemiring K] in
theorem HasLength.seconds_pos (has : wave.HasLength) : 0 < wave.seconds K := by
  have frames : (0 : K) < wave.numFrames := Nat.cast_pos.2 (Nat.pos_of_ne_zero has.frames)
  have rate : (0 : K) < wave.sampleRate := Nat.cast_pos.2 (Nat.pos_of_ne_zero has.rate)
  have channels : (0 : K) < wave.channels := Nat.cast_pos.2 (Nat.pos_of_ne_zero has.channels)
  unfold seconds
  positivity

/-- The sample that a time of the wave is in. -/
theorem HasLength.seekPos_exact (has : wave.HasLength) (t : K) :
    wave.seekPos (Floats.exact K) t =
      some ⌊(wave.numFrames : K) * (if wave.seconds K < t then wave.seconds K else t) /
        wave.seconds K⌋₊ := by
  have some : wave.length (Floats.exact K) = some (wave.seconds K) := by
    rw [length_exact, if_neg (by simp [has.rate, has.channels])]
  rw [seekPos, some]
  simp only [Option.bind_eq_bind, Option.bind_some, Floats.min, Floats.exact, decide_eq_true_eq,
    if_neg (ne_of_gt has.seconds_pos)]

omit [IsStrictOrderedRing K] in
/-- A wave without a length has no place to seek. -/
theorem seekPos_none (wave : Wave) (t : K) (not : ¬wave.HasLength) :
    wave.seekPos (Floats.exact K) t = none := by
  rw [seekPos, length_exact]
  split
  · rfl
  · next known =>
      obtain ⟨rate, channels⟩ := not_or.1 known
      have empty : wave.numFrames = 0 := by
        by_contra frames
        exact not ⟨frames, rate, channels⟩
      have zero : wave.seconds K = 0 := by
        rw [seconds, empty]
        simp
      simp only [Option.bind_eq_bind, Option.bind_some, Floats.exact, zero, if_true,
        Option.bind_none]

/-- A time before the end is in a sample before the end. -/
theorem HasLength.seekPos_before (has : wave.HasLength) {t : K} (after : 0 ≤ t)
    (before : t < wave.seconds K) :
    ∃ pos < wave.numFrames, wave.seekPos (Floats.exact K) t = some pos := by
  have positive := has.seconds_pos (K := K)
  have frames : (0 : K) < wave.numFrames := Nat.cast_pos.2 (Nat.pos_of_ne_zero has.frames)
  refine ⟨_, ?_, has.seekPos_exact t⟩
  rw [if_neg (not_lt_of_gt before), Nat.floor_lt (by positivity), div_lt_iff₀ positive]
  exact mul_lt_mul_of_pos_left before frames

/-- A time behind the end is at the end. -/
theorem HasLength.seekPos_behind (has : wave.HasLength) {t : K} (behind : wave.seconds K ≤ t) :
    wave.seekPos (Floats.exact K) t = some wave.numFrames := by
  have positive := has.seconds_pos (K := K)
  have cut : (if wave.seconds K < t then wave.seconds K else t) = wave.seconds K := by
    split
    · rfl
    · next not => exact le_antisymm (not_lt.1 not) behind
  rw [has.seekPos_exact, cut, mul_div_cancel_right₀ _ (ne_of_gt positive), Nat.floor_natCast]

end Wave

end Exact

/-! ## The calls, one after the other -/

theorem heard_update {waves : Waves} {r : UInt8} {id : Nat} {sound : Sound} {receiver : Receiver}
    (isHeard : waves.heard r id = some (sound, receiver)) (change : Receiver → Receiver) :
    (waves.update id (Sound.changeReceiver (r - 1).toNat change)).heard r id =
      some (sound.setReceiver (r - 1).toNat (change receiver), change receiver) := by
  obtain ⟨found, isReceiver⟩ := heard_eq_some_iff.1 isHeard
  refine heard_eq_some_iff.2 ⟨?_, if_pos rfl⟩
  rw [Waves.find_update, found, Option.map_some, if_pos rfl, Sound.changeReceiver, isReceiver]

section Exact

variable {K : Type} [Field K] [LinearOrder K] [IsStrictOrderedRing K] [FloorSemiring K]
variable {players : Players} {waves : Waves} {r : UInt8} {id : Nat} {sound : Sound}
  {receiver : Receiver}

omit [IsStrictOrderedRing K] in
/-- What is told of a receiver that is heard: the length, or nothing. -/
theorem soundTell_exact (known : Waves.isPlayer players r = true)
    (present : players.present (r - 1).toNat = true)
    (isHeard : waves.heard r id = some (sound, receiver))
    (has : (sound.waveOf (players.speex (r - 1).toNat)).HasLength) :
    waves.soundTell (Floats.exact K) players r id =
      some (if receiver.currentPos < (sound.waveOf (players.speex (r - 1).toNat)).numFrames then 0
        else (sound.waveOf (players.speex (r - 1).toNat)).seconds K) := by
  rw [Waves.soundTell, isHeard]
  simp only [known, present, if_true, Bool.not_true, Bool.false_eq_true, if_false,
    if_neg has.frames, Wave.length_exact, has.rate, has.channels, or_self, Option.bind_eq_bind,
    Option.bind_some, Option.some.injEq]
  simp only [Floats.exact]
  split
  · next before =>
      rw [Nat.min_eq_left (Nat.le_of_lt before), Nat.div_eq_of_lt before, Nat.cast_zero, zero_mul]
  · next behind =>
      rw [Nat.min_eq_right (Nat.le_of_not_lt behind),
        Nat.div_self (Nat.pos_of_ne_zero has.frames), Nat.cast_one, one_mul]

/-- A seek from the head and what is told then. -/
def seekTell {F : Type} (floats : Floats F) (players : Players) (r : UInt8) (id : Nat) (t : F)
    (waves : Waves) : Option F := do
  let waves ← waves.soundSeek floats players r id t .head
  waves.soundTell floats players r id

omit [IsStrictOrderedRing K] in
/-- A seek to a position is told by what is behind it. -/
theorem seekTell_of_seekPos (known : Waves.isPlayer players r = true)
    (present : players.present (r - 1).toNat = true)
    (isHeard : waves.heard r id = some (sound, receiver)) {wave : Wave}
    (isWave : sound.waveOf (players.speex (r - 1).toNat) = wave) (has : wave.HasLength) {t : K}
    {pos : Nat} (isPos : wave.seekPos (Floats.exact K) t = some pos) :
    seekTell (Floats.exact K) players r id t waves =
      some (if pos < wave.numFrames then 0 else wave.seconds K) := by
  have told := soundTell_exact (K := K) known present
    (heard_update isHeard (Receiver.seek pos wave.numFrames .head)) (by
      show (sound.waveOf _).HasLength
      rw [isWave]
      exact has)
  have sought : waves.soundSeek (Floats.exact K) players r id t .head =
      some (waves.update id (Sound.changeReceiver (r - 1).toNat
        (Receiver.seek pos wave.numFrames .head))) := by
    rw [Waves.soundSeek, isHeard]
    simp only [known, if_true, isWave, isPos, Option.bind_eq_bind, Option.bind_some]
  have place : (receiver.seek pos wave.numFrames .head).currentPos = pos := by
    rw [Receiver.seek]
    dsimp only
    split <;> omega
  rw [seekTell, sought, Option.bind_eq_bind, Option.bind_some, told, place]
  show some (if pos < (sound.waveOf _).numFrames then 0 else (sound.waveOf _).seconds K) = _
  rw [isWave]

/-- A time before the end is told as the beginning, and one behind it as the end. -/
theorem soundTell_sought (known : Waves.isPlayer players r = true)
    (present : players.present (r - 1).toNat = true)
    (isHeard : waves.heard r id = some (sound, receiver))
    (has : (sound.waveOf (players.speex (r - 1).toNat)).HasLength) {t : K} (after : 0 ≤ t) :
    seekTell (Floats.exact K) players r id t waves =
      some (if t < (sound.waveOf (players.speex (r - 1).toNat)).seconds K then 0
        else (sound.waveOf (players.speex (r - 1).toNat)).seconds K) := by
  generalize isWave : sound.waveOf (players.speex (r - 1).toNat) = wave at has
  by_cases before : t < wave.seconds K
  · obtain ⟨pos, inWave, isPos⟩ := has.seekPos_before after before
    rw [seekTell_of_seekPos known present isHeard isWave has isPos, if_pos inWave, if_pos before]
  · have isPos := has.seekPos_behind (not_lt.1 before)
    rw [seekTell_of_seekPos known present isHeard isWave has isPos, if_neg (Nat.lt_irrefl _),
      if_neg before]

omit [IsStrictOrderedRing K] in
/-- Without a length the seek divides by 0. -/
theorem seekTell_none (known : Waves.isPlayer players r = true)
    (isHeard : waves.heard r id = some (sound, receiver))
    (not : ¬(sound.waveOf (players.speex (r - 1).toNat)).HasLength) (t : K) :
    seekTell (Floats.exact K) players r id t waves = none := by
  rw [seekTell, Waves.soundSeek, isHeard]
  simp only [known, if_true, Wave.seekPos_none _ t not, Option.bind_eq_bind, Option.bind_none]

/-- Neither call divides by 0, and if there is anything in the wave, the time that is told is the
one that was sought, up to one sample. -/
def TellsSought (players : Players) (r : UInt8) (id : Nat) (t : K) (waves : Waves) (wave : Wave) :
    Prop :=
  ∃ told, seekTell (Floats.exact K) players r id t waves = some told ∧
    (wave.numFrames ≠ 0 → |told - t| ≤ wave.sampleSeconds K)

/-- **When a seek and a tell are inverse.**  The wave has a length, and the time is in its first
sample, or no more than a sample behind its end. -/
theorem tells_sought_iff (known : Waves.isPlayer players r = true)
    (present : players.present (r - 1).toNat = true)
    (isHeard : waves.heard r id = some (sound, receiver)) {t : K} (after : 0 ≤ t) :
    TellsSought players r id t waves (sound.waveOf (players.speex (r - 1).toNat)) ↔
      (sound.waveOf (players.speex (r - 1).toNat)).HasLength ∧
        (t ≤ (sound.waveOf (players.speex (r - 1).toNat)).sampleSeconds K ∨
          (sound.waveOf (players.speex (r - 1).toNat)).seconds K ≤ t ∧
            t ≤ (sound.waveOf (players.speex (r - 1).toNat)).seconds K +
              (sound.waveOf (players.speex (r - 1).toNat)).sampleSeconds K) := by
  by_cases has : (sound.waveOf (players.speex (r - 1).toNat)).HasLength
  · have told := soundTell_sought known present isHeard has after
    have positive := has.seconds_pos (K := K)
    simp only [TellsSought, told, Option.some.injEq, exists_eq_left', has.frames, ne_eq,
      not_false_eq_true, true_implies, has, true_and]
    split
    · next before =>
        rw [zero_sub, abs_neg, abs_of_nonneg after]
        constructor
        · exact .inl
        · rintro (first | ⟨behind, -⟩)
          · exact first
          · exact absurd before (not_lt.2 behind)
    · next not =>
        have behind := not_lt.1 not
        rw [abs_sub_comm, abs_of_nonneg (sub_nonneg.2 behind), sub_le_iff_le_add']
        constructor
        · intro near
          exact .inr ⟨behind, near⟩
        · rintro (first | ⟨-, near⟩)
          · exact first.trans (le_add_of_nonneg_left positive.le)
          · exact near
  · refine iff_of_false ?_ fun all => has all.1
    rintro ⟨told, tells, -⟩
    rw [seekTell_none known isHeard has t] at tells
    cases tells

/-- With exact numbers a seek from the head always goes into the wave. -/
theorem fits_head_exact {σ : Type} {setting : Setting σ K}
    (isExact : setting.floats = Floats.exact K) (s : Waves × σ) (r : UInt8) (id : Nat) (t : K) :
    Fits setting (.soundSeek r id t .head) s := by
  intro sound other pos _ isPos
  rw [isExact] at isPos
  generalize selected setting s r sound = wave at isPos ⊢
  by_cases has : wave.HasLength
  · rw [has.seekPos_exact] at isPos
    cases isPos
    have positive := has.seconds_pos (K := K)
    refine Nat.floor_le_of_le ?_
    rw [div_le_iff₀ positive]
    refine mul_le_mul_of_nonneg_left ?_ (Nat.cast_nonneg _)
    split
    · exact le_refl _
    · next not => exact not_lt.1 not
  · rw [wave.seekPos_none t has] at isPos
    cases isPos

end Exact

/-! ## Half of a second -/

/-- A second of four samples. -/
def Wave.quarters : Wave := ⟨1, 4, [0, 0, 0, 0]⟩

/-- A sound that a client is played. -/
def Sound.quarters : Sound :=
  ⟨0, fun i => if i = 0 then some ⟨.play, 0, 0⟩ else none, false, .quarters, .quarters⟩

def Waves.quarters : Waves := ⟨[(1, .quarters)], by decide⟩

def Players.single : Players := ⟨1, fun _ => true, fun _ => false⟩

theorem heard_quarters : Waves.quarters.heard 1 1 = some (.quarters, ⟨.play, 0, 0⟩) := rfl

theorem hasLength_quarters : Wave.quarters.HasLength := ⟨by decide, by decide, by decide⟩

/-- A time in the first sample is told as the beginning, and one behind the end as the end. -/
theorem tells_beginning :
    TellsSought Players.single 1 1 (1 / 8 : ℚ) .quarters Wave.quarters ∧
      TellsSought Players.single 1 1 (9 / 8 : ℚ) .quarters Wave.quarters := by
  have known : Waves.isPlayer .single 1 = true := rfl
  have present : Players.single.present 0 = true := rfl
  have sample : Wave.quarters.sampleSeconds ℚ = 1 / 4 := by
    norm_num [Wave.sampleSeconds, Wave.quarters]
  have second : Wave.quarters.seconds ℚ = 1 := by
    norm_num [Wave.seconds, Wave.numFrames, Wave.quarters]
  constructor
  · refine (tells_sought_iff known present heard_quarters (by norm_num : (0 : ℚ) ≤ 1 / 8)).2
      ⟨hasLength_quarters, .inl ?_⟩
    show (1 / 8 : ℚ) ≤ Wave.quarters.sampleSeconds ℚ
    rw [sample]
    norm_num
  · refine (tells_sought_iff known present heard_quarters (by norm_num : (0 : ℚ) ≤ 9 / 8)).2
      ⟨hasLength_quarters, .inr ?_⟩
    show Wave.quarters.seconds ℚ ≤ 9 / 8 ∧
      (9 / 8 : ℚ) ≤ Wave.quarters.seconds ℚ + Wave.quarters.sampleSeconds ℚ
    rw [second, sample]
    norm_num

/-- The middle of the second is told as its beginning, two samples before it. -/
theorem middle_told_zero :
    Waves.quarters.soundLength (Floats.exact ℚ) 1 = some 1 ∧
      seekTell (Floats.exact ℚ) .single 1 1 (1 / 2) .quarters = some 0 ∧
      ¬TellsSought Players.single 1 1 (1 / 2 : ℚ) .quarters Wave.quarters := by
  have second : Wave.quarters.seconds ℚ = 1 := by
    norm_num [Wave.seconds, Wave.numFrames, Wave.quarters]
  have told : seekTell (Floats.exact ℚ) .single 1 1 (1 / 2) .quarters = some 0 := by
    have known : Waves.isPlayer .single 1 = true := rfl
    have present : Players.single.present 0 = true := rfl
    have after : (0 : ℚ) ≤ 1 / 2 := by norm_num
    rw [soundTell_sought known present heard_quarters hasLength_quarters after]
    change some (if (1 / 2 : ℚ) < Wave.quarters.seconds ℚ then (0 : ℚ) else _) = _
    rw [second, if_pos (by norm_num)]
  refine ⟨?_, told, ?_⟩
  · change Wave.quarters.length (Floats.exact ℚ) = some 1
    rw [Wave.length_exact, if_neg (by decide), second]
  · rintro ⟨_, tells, near⟩
    rw [told] at tells
    cases tells
    have far := near (by decide)
    norm_num [Wave.sampleSeconds, Wave.quarters, abs_of_pos] at far

end Refsapi.Revoice
