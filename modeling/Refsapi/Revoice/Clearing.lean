/-
# Revoice.Clearing -- the end of `StartFrame_PostHook`, where sounds are cleared

A sound with `auto_clear` keeps only what somebody has still to hear.  Its two waves are cut at
the least position of the receivers that are sent of them, and the positions of these receivers
move with the cut.

`check_clear` says that a sound was sent since it was cleared last; all others are passed over,
with the receivers that are gone (`clear_spec`).
-/
import Refsapi.Revoice.Sounds

namespace Refsapi.Revoice

set_option autoImplicit false

abbrev Receivers : Type := Nat → Option Receiver

/-- The keys of `receivers`, which are of type `uint8_t`. -/
def receiverKeys : List Nat := List.range 256

/-- `clear_frames`, which is not defined behind the end. -/
def Wave.clearFrames (samplesCount : Nat) (wave : Wave) : Option Wave :=
  if samplesCount ≤ wave.numFrames then some { wave with data := wave.data.drop samplesCount }
  else none

namespace Receivers

/-- `min_pos`, of the receivers in a group. -/
def minPos (group : Nat → Bool) (frames : Nat) (receivers : Receivers) : Nat :=
  receiverKeys.foldl (fun least i =>
    match receivers i with
    | none => least
    | some receiver => if group i then min receiver.currentPos least else least) frames

def isBelow (least : Nat) : Option Receiver → Bool
  | none => true
  | some receiver => least ≤ receiver.currentPos

/-- `current_pos -= min_pos`, for a group. -/
def shifted (group : Nat → Bool) (least : Nat) (receivers : Receivers) : Receivers :=
  fun i => if group i then
    (receivers i).map fun receiver => { receiver with currentPos := receiver.currentPos - least }
    else receivers i

/-- A difference below 0 would wrap. -/
def shift (group : Nat → Bool) (least : Nat) (receivers : Receivers) : Option Receivers :=
  if receiverKeys.all fun i => !group i || isBelow least (receivers i) then
    some (receivers.shifted group least)
  else none

/-- The wave of a group is cut, with its positions. -/
def trim (group : Nat → Bool) (wave : Wave) (receivers : Receivers) : Option (Wave × Receivers) :=
  let least := receivers.minPos group wave.numFrames
  match wave.clearFrames least, receivers.shift group least with
  | some wave, some receivers => some (wave, receivers)
  | _, _ => none

/-- `staleReceivers` are erased. -/
def eraseStale (present : Nat → Bool) (receivers : Receivers) : Receivers :=
  fun i => if present i then receivers i else none

end Receivers

/-! ## The clearing pass -/

section Pass

variable (present speex : Nat → Bool)

namespace Sound

/-- The body of the pass for a sound that is cleared. -/
def trimmed (sound : Sound) : Option Sound := do
  let receivers := Receivers.eraseStale present sound.receivers
  let (wave8k, receivers) ← Receivers.trim speex sound.wave8k receivers
  let (wave16k, receivers) ← Receivers.trim (fun i => !speex i) sound.wave16k receivers
  some { sound with wave8k, wave16k, receivers }

/-- The pass at a sound. -/
def clear (checkClear : Bool) (sound : Sound) : Option Sound :=
  if !sound.autoClear || !checkClear then some sound else sound.trimmed present speex

end Sound

/-- The loop over `g_audio_waves`. -/
def clearSounds (checkClear : Nat → Bool) : List (Nat × Sound) → Option (List (Nat × Sound))
  | [] => some []
  | (id, sound) :: rest => do
      let sound ← sound.clear present speex (checkClear id)
      let rest ← clearSounds checkClear rest
      some ((id, sound) :: rest)

end Pass

/-- The wave of a sound that a client is sent, by its codec. -/
def Sound.waveOf (speex : Bool) (sound : Sound) : Wave :=
  if speex then sound.wave8k else sound.wave16k

/-! ## The least position -/

namespace Receivers

variable {group : Nat → Bool} {receivers : Receivers}

/-- The least position is no greater than that of a receiver, or than the end. -/
theorem minPos_spec (group : Nat → Bool) (frames : Nat) (receivers : Receivers) :
    receivers.minPos group frames ≤ frames ∧
      ∀ i ∈ receiverKeys, ∀ receiver, receivers i = some receiver → group i = true →
        receivers.minPos group frames ≤ receiver.currentPos := by
  unfold minPos
  generalize receiverKeys = keys
  induction keys generalizing frames with
  | nil => exact ⟨Nat.le_refl _, fun i member => absurd member List.not_mem_nil⟩
  | cons k keys ih =>
      rw [List.foldl_cons]
      generalize starts : (match receivers k with
        | none => frames
        | some receiver => if group k then min receiver.currentPos frames else frames) = start
      obtain ⟨le, least⟩ := ih start
      have first : start ≤ frames ∧ ∀ receiver, receivers k = some receiver → group k = true →
          start ≤ receiver.currentPos := by
        rw [← starts]
        cases isReceiver : receivers k with
        | none => exact ⟨Nat.le_refl _, fun receiver none => by cases none⟩
        | some receiver =>
            simp only
            split
            · refine ⟨Nat.min_le_right _ _, ?_⟩
              intro receiver' same _
              cases same
              exact Nat.min_le_left _ _
            · next outside =>
                refine ⟨Nat.le_refl _, ?_⟩
                intro receiver' _ inside
                exact absurd inside outside
      refine ⟨Nat.le_trans le first.1, ?_⟩
      intro i member receiver isReceiver inside
      rcases List.mem_cons.1 member with rfl | later
      · exact Nat.le_trans le (first.2 receiver isReceiver inside)
      · exact least i later receiver isReceiver inside

/-- What is done to the receivers of one group does not count for the other. -/
theorem minPos_shifted (least frames : Nat) :
    (receivers.shifted group least).minPos (fun i => !group i) frames =
      receivers.minPos (fun i => !group i) frames := by
  unfold minPos shifted
  congr 1
  funext least' i
  cases inside : group i <;> cases receivers i <;> simp [inside]

/-- A cut never fails, and moves the positions of its group with it. -/
theorem trim_eq (group : Nat → Bool) (wave : Wave) (receivers : Receivers) :
    receivers.trim group wave = some
      ({ wave with data := wave.data.drop (receivers.minPos group wave.numFrames) },
        receivers.shifted group (receivers.minPos group wave.numFrames)) := by
  obtain ⟨le, least⟩ := minPos_spec group wave.numFrames receivers
  have safe : (receiverKeys.all fun i =>
      !group i || isBelow (receivers.minPos group wave.numFrames) (receivers i)) = true := by
    rw [List.all_eq_true]
    intro i member
    cases inside : group i with
    | false => rfl
    | true =>
        cases isReceiver : receivers i with
        | none => rfl
        | some receiver => exact decide_eq_true (least i member receiver isReceiver inside)
  rw [trim, Wave.clearFrames, shift, if_pos le, if_pos safe]

end Receivers

/-! ## What is left of a sound -/

section Pass

variable (present speex : Nat → Bool)

namespace Sound

/-- How much is cut of the wave with that codec. -/
def cut (sound : Sound) (codec : Bool) : Nat :=
  Receivers.minPos (fun i => speex i == codec) (sound.waveOf codec).numFrames
    (Receivers.eraseStale present sound.receivers)

/-- What is left of a receiver. -/
def leftOf (sound : Sound) (i : Nat) : Option Receiver :=
  if present i then
    (sound.receivers i).map fun receiver =>
      { receiver with currentPos := receiver.currentPos - sound.cut present speex (speex i) }
  else none

/-- Either wave is cut at the least position of its own receivers. -/
theorem trimmed_eq (sound : Sound) :
    sound.trimmed present speex = some { sound with
      wave8k := { sound.wave8k with
        data := sound.wave8k.data.drop (sound.cut present speex true) }
      wave16k := { sound.wave16k with
        data := sound.wave16k.data.drop (sound.cut present speex false) }
      receivers := sound.leftOf present speex } := by
  have speexGroup : (fun i => speex i == true) = speex := by
    funext i
    exact beq_true (speex i)
  have otherGroup : (fun i => speex i == false) = fun i => !speex i := by
    funext i
    exact beq_false (speex i)
  simp only [trimmed, Receivers.trim_eq, Option.bind_eq_bind, Option.bind_some,
    Receivers.minPos_shifted, cut, speexGroup, otherGroup, waveOf, if_true, Bool.false_eq_true,
    if_false, Option.some.injEq, Sound.mk.injEq, true_and, and_true]
  funext i
  simp only [Receivers.shifted, Receivers.eraseStale, leftOf, cut, waveOf]
  by_cases here : present i = true
  · by_cases codec : speex i = true
    · simp only [codec, here, speexGroup, if_true, Bool.not_true, Bool.false_eq_true, if_false]
    · rw [Bool.not_eq_true] at codec
      simp only [codec, here, otherGroup, if_true, Bool.not_false, Bool.false_eq_true, if_false]
  · simp only [here, Bool.false_eq_true, if_false, Option.map_none, ite_self]

/-- What everyone still has to hear is left, at its place, and nobody is kept who is gone. -/
structure Spares (checkClear : Bool) (sound cleared : Sound) : Prop where
  unheard : ∀ i ∈ receiverKeys, present i = true → ∀ receiver, sound.receivers i = some receiver →
    ∃ count ≤ receiver.currentPos,
      cleared.receivers i = some { receiver with currentPos := receiver.currentPos - count } ∧
      (cleared.waveOf (speex i)).data.drop (receiver.currentPos - count) =
        (sound.waveOf (speex i)).data.drop receiver.currentPos
  gone : sound.autoClear = true → checkClear = true → ∀ i, present i = false →
    cleared.receivers i = none

/-- The cut is no deeper than the position of a receiver that is there. -/
theorem cut_le (sound : Sound) {i : Nat} (member : i ∈ receiverKeys) (here : present i = true)
    {receiver : Receiver} (isReceiver : sound.receivers i = some receiver) :
    sound.cut present speex (speex i) ≤ receiver.currentPos := by
  obtain ⟨-, least⟩ := Receivers.minPos_spec (fun j => speex j == speex i)
    (sound.waveOf (speex i)).numFrames (Receivers.eraseStale present sound.receivers)
  refine least i member receiver ?_ (beq_self_eq_true _)
  rw [Receivers.eraseStale, if_pos here, isReceiver]

theorem clear_spares (checkClear : Bool) (sound : Sound) :
    ∃ cleared, sound.clear present speex checkClear = some cleared ∧
      Spares present speex checkClear sound cleared := by
  rw [clear]
  split
  · next passed =>
      refine ⟨sound, rfl, ?_, ?_⟩
      · intro i _ _ receiver isReceiver
        exact ⟨0, Nat.zero_le _, isReceiver, rfl⟩
      · intro clears checked
        rw [clears, checked] at passed
        cases passed
  · refine ⟨_, sound.trimmed_eq present speex, ?_, ?_⟩
    · intro i member here receiver isReceiver
      have le := sound.cut_le present speex member here isReceiver
      refine ⟨_, le, ?_, ?_⟩
      · simp only [leftOf, if_pos here, isReceiver, Option.map_some]
      · have again : sound.cut present speex (speex i) +
            (receiver.currentPos - sound.cut present speex (speex i)) = receiver.currentPos :=
          Nat.add_sub_cancel' le
        cases codec : speex i with
        | true =>
            rw [codec] at again
            simp only [waveOf, if_true, List.drop_drop, again]
        | false =>
            rw [codec] at again
            simp only [waveOf, Bool.false_eq_true, if_false, List.drop_drop, again]
    · intro _ _ i gone
      simp only [leftOf, gone, Bool.false_eq_true, if_false]

end Sound

/-- **The clearing pass drops only what everyone has heard.**  No position goes below 0; what a
receiver that is there has still to hear of its wave is not changed, in any sound; and of a sound
that is cleared nobody is a receiver who is gone. -/
theorem clearSounds_spares (checkClear : Nat → Bool) (sounds : List (Nat × Sound)) :
    ∃ cleared, clearSounds present speex checkClear sounds = some cleared ∧
      List.Forall₂ (fun before after => after.1 = before.1 ∧
        Sound.Spares present speex (checkClear before.1) before.2 after.2) sounds cleared := by
  induction sounds with
  | nil => exact ⟨[], rfl, .nil⟩
  | cons entry rest ih =>
      obtain ⟨id, sound⟩ := entry
      obtain ⟨cleared, isCleared, spares⟩ := sound.clear_spares present speex (checkClear id)
      obtain ⟨others, areCleared, spared⟩ := ih
      refine ⟨(id, cleared) :: others, ?_, .cons ⟨rfl, spares⟩ spared⟩
      simp only [clearSounds, isCleared, areCleared, Option.bind_eq_bind, Option.bind_some]

end Pass

/-- A sound that its only receiver was sent, and nobody since it was cleared. -/
def Sound.unsent : Sound where
  senderClientIndex := 0
  receivers i := if i = 0 then some ⟨.play, 0, 0⟩ else none
  autoClear := true
  wave8k := ⟨1, 8000, [0]⟩
  wave16k := ⟨1, 16000, [0]⟩

/-- The receiver leaves, and is kept: the sound is passed over. -/
theorem not_always_gone : ¬ ∀ (present speex : Nat → Bool) (checkClear : Bool)
    (sound cleared : Sound), sound.autoClear = true →
      (∀ i receiver, sound.receivers i = some receiver →
        receiver.currentPos ≤ (sound.waveOf (speex i)).numFrames) →
      sound.clear present speex checkClear = some cleared →
      ∀ i, present i = false → cleared.receivers i = none := by
  intro always
  have gone := always (fun _ => false) (fun _ => false) false .unsent .unsent rfl ?_ rfl 0 rfl
  · cases gone
  · intro i receiver isReceiver
    simp only [Sound.unsent] at isReceiver
    split at isReceiver
    · cases isReceiver
      exact Nat.zero_le _
    · cases isReceiver

end Refsapi.Revoice
