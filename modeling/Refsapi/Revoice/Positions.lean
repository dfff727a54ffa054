/-
# Revoice.Positions -- the positions of the receivers, over whole runs

A position counts samples of the wave that its receiver is sent, which is another one when the
codec of the client changes.  It is to stay inside this wave (`Waves.Inside`): `get_samples`
subtracts it from the end in 32 bits.

Taking samples, clearing and pushing keep it there.  What may not is a `SoundSeek` whose sum is
not, and a change of codec; in a run without these it holds of every state and at every call of
`get_samples` (`Run.inside`).
-/
import Refsapi.Revoice.Parts
import Refsapi.Revoice.Playing

namespace Refsapi.Revoice

set_option autoImplicit false

/-! ## Positions inside -/

/-- No receiver is behind the end of its wave. -/
def Sound.Inside (speex : Nat → Bool) (sound : Sound) : Prop :=
  ∀ i receiver, sound.receivers i = some receiver →
    receiver.currentPos ≤ (sound.waveOf (speex i)).numFrames

def Waves.Inside (speex : Nat → Bool) (waves : Waves) : Prop :=
  ∀ entry ∈ waves.sounds, entry.2.Inside speex

variable {speex : Nat → Bool}

namespace Sound.Inside

variable {sound : Sound}

theorem setReceiver (inside : sound.Inside speex) (i : Nat) (receiver : Receiver)
    (fits : receiver.currentPos ≤ (sound.waveOf (speex i)).numFrames) :
    (sound.setReceiver i receiver).Inside speex := by
  intro j other isOther
  rw [Sound.setReceiver] at isOther
  dsimp only at isOther
  split at isOther
  · next here =>
      cases isOther
      rw [here]
      exact fits
  · exact inside j other isOther

theorem changeReceiver (inside : sound.Inside speex) (i : Nat) (change : Receiver → Receiver)
    (fits : ∀ receiver, sound.receivers i = some receiver →
      (change receiver).currentPos ≤ (sound.waveOf (speex i)).numFrames) :
    (sound.changeReceiver i change).Inside speex := by
  rw [Sound.changeReceiver]
  split
  · exact inside
  · next receiver isReceiver => exact inside.setReceiver i _ (fits receiver isReceiver)

theorem playTo (inside : sound.Inside speex) (now : Int) (i : Nat) :
    (sound.playTo now i).Inside speex := by
  refine inside.setReceiver i _ ?_
  cases isReceiver : sound.receivers i with
  | none => exact Nat.zero_le _
  | some receiver => exact inside i receiver isReceiver

theorem eraseReceiver (inside : sound.Inside speex) (i : Nat) :
    (sound.eraseReceiver i).Inside speex := by
  intro j receiver isReceiver
  rw [Sound.eraseReceiver] at isReceiver
  dsimp only at isReceiver
  split at isReceiver
  · cases isReceiver
  · exact inside j receiver isReceiver

theorem playToAll (inside : sound.Inside speex) (players : Players) (now : Int) :
    (sound.playToAll players now).Inside speex := by
  rw [Sound.playToAll]
  generalize List.range players.maxclients = clients
  induction clients generalizing sound with
  | nil => exact inside
  | cons i clients ih =>
      rw [List.foldl_cons]
      split
      · exact ih (inside.playTo now i)
      · exact ih (inside.eraseReceiver i)

/-- More samples behind the end. -/
theorem push (inside : sound.Inside speex) (data8k data16k : List Int16) :
    Sound.Inside speex { sound with
      wave8k := sound.wave8k.pushFrames data8k
      wave16k := sound.wave16k.pushFrames data16k } := by
  have longer (data : List Int16) (wave : Wave) :
      wave.numFrames ≤ (wave.pushFrames data).numFrames := by
    rw [Wave.numFrames, Wave.numFrames, Wave.pushFrames, List.length_append]
    exact Nat.le_add_right _ _
  intro i receiver isReceiver
  refine Nat.le_trans (inside i receiver isReceiver) ?_
  unfold Sound.waveOf
  split
  · exact longer data8k sound.wave8k
  · exact longer data16k sound.wave16k

/-- The positions move with the cut. -/
theorem clear (inside : sound.Inside speex) {present : Nat → Bool} {checkClear : Bool}
    {cleared : Sound} (isCleared : sound.clear present speex checkClear = some cleared) :
    cleared.Inside speex := by
  rw [Sound.clear] at isCleared
  split at isCleared
  · cases isCleared
    exact inside
  · rw [sound.trimmed_eq] at isCleared
    cases isCleared
    intro i receiver isReceiver
    simp only [Sound.leftOf] at isReceiver
    split at isReceiver
    · obtain ⟨before, isBefore, rfl⟩ := Option.map_eq_some_iff.1 isReceiver
      have le := inside i before isBefore
      cases codec : speex i with
      | true =>
          rw [codec] at le
          simp only [Sound.waveOf, if_true, Wave.numFrames, List.length_drop] at le ⊢
          exact Nat.sub_le_sub_right le _
      | false =>
          rw [codec] at le
          simp only [Sound.waveOf, Bool.false_eq_true, if_false, Wave.numFrames,
            List.length_drop] at le ⊢
          exact Nat.sub_le_sub_right le _
    · cases isReceiver

end Sound.Inside

namespace Waves.Inside

variable {waves : Waves}

theorem update (inside : waves.Inside speex) {id : Nat} {change : Sound → Sound}
    (keeps : ∀ sound, waves.find id = some sound → sound.Inside speex →
      (change sound).Inside speex) :
    (waves.update id change).Inside speex := by
  intro entry member
  obtain ⟨before, isBefore, rfl⟩ := List.mem_map.1 member
  rw [Waves.alter]
  dsimp only
  split
  · next here =>
      refine keeps before.2 ?_ (inside before isBefore)
      rw [← here]
      exact Waves.find_eq_some_iff.2 isBefore
  · exact inside before isBefore

theorem delete (inside : waves.Inside speex) (id : Nat) : (waves.delete id).Inside speex := by
  intro entry member
  exact inside entry (List.mem_filter.1 member).1

theorem clear (inside : waves.Inside speex) {present : Nat → Bool} {checkClear : Nat → Bool}
    {cleared : Waves}
    (isCleared : clearSounds present speex checkClear waves.sounds = some cleared.sounds) :
    cleared.Inside speex := by
  unfold Waves.Inside at inside ⊢
  generalize waves.sounds = sounds at inside isCleared
  generalize cleared.sounds = left at isCleared ⊢
  induction sounds generalizing left with
  | nil =>
      cases isCleared
      exact fun entry member => absurd member List.not_mem_nil
  | cons first rest ih =>
      obtain ⟨id, sound⟩ := first
      simp only [clearSounds, Option.bind_eq_bind, Option.bind_eq_some_iff,
        Option.some.injEq] at isCleared
      obtain ⟨sound', soundCleared, rest', restCleared, rfl⟩ := isCleared
      obtain ⟨head, tail⟩ := List.forall_mem_cons.1 inside
      exact List.forall_mem_cons.2 ⟨head.clear soundCleared, ih tail rest' restCleared⟩

end Waves.Inside

/-! ## Calls of plugins -/

/-- A call of a plugin; or the players change, with their codecs. -/
inductive Act (σ F : Type) where
  | soundAdd (id : Nat) (wave8k wave16k : Wave)
  | soundPush (id : Nat) (wave8k wave16k : Wave)
  | soundDelete (id : Nat)
  | soundAutoClear (id : Nat)
  | soundPlay (now : Int) (senderClientIndex receiverClientIndex id : Nat)
  | soundPause (receiverClientIndex : UInt8) (id : Nat)
  | soundStop (receiverClientIndex : UInt8) (id : Nat)
  | soundSeek (receiverClientIndex : UInt8) (id : Nat) (seek : F) (seekParam : SeekParam)
  | change (world : σ)

/-- What a run does not change. -/
structure Setting (σ F : Type) where
  floats : Floats F
  players : σ → Players
  arrangement : Arrangement

section Acts

variable {σ F : Type} (setting : Setting σ F)

/-- A call; the process may end there. -/
def act : Act σ F → Waves × σ → Option (Waves × σ)
  | .soundAdd id wave8k wave16k, s =>
      some (s.1.soundAdd setting.arrangement id wave8k wave16k, s.2)
  | .soundPush id wave8k wave16k, s => some (s.1.soundPush id wave8k wave16k, s.2)
  | .soundDelete id, s => some (s.1.delete id, s.2)
  | .soundAutoClear id, s => some (s.1.soundAutoClear id, s.2)
  | .soundPlay now sender receiver id, s =>
      some (s.1.soundPlay (setting.players s.2) now sender receiver id, s.2)
  | .soundPause receiver id, s => some (s.1.soundPause receiver id, s.2)
  | .soundStop receiver id, s => some (s.1.soundStop receiver id, s.2)
  | .soundSeek receiver id seek seekParam, s =>
      (s.1.soundSeek setting.floats (setting.players s.2) receiver id seek seekParam).map
        fun waves => (waves, s.2)
  | .change world, s => some (s.1, world)

def acts : List (Act σ F) → Waves × σ → Option (Waves × σ)
  | [], s => some s
  | a :: rest, s => (act setting a s).bind (acts rest)

/-- The wave of a sound that a call is about. -/
def selected (s : Waves × σ) (receiverClientIndex : UInt8) (sound : Sound) : Wave :=
  sound.waveOf ((setting.players s.2).speex (receiverClientIndex - 1).toNat)

/-- A seek to a sample of the wave, or to its end. -/
def SeekFits (pos frames : Nat) (receiver : Receiver) : SeekParam → Prop
  | .head => pos ≤ frames
  | .curr => pos = 0 ∨ (receiver.currentPos + pos) % 2 ^ 32 ≤ frames
  | .tail => True

/-- The condition on a call: a sound that is added has a new number, a seek goes to a sample of the
wave, and a receiver whose codec changes is not behind the end of the other wave. -/
def Fits : Act σ F → Waves × σ → Prop
  | .soundAdd id _ _, s => id ∉ s.1.keys
  | .soundSeek receiver id seek seekParam, s => ∀ sound other pos,
      s.1.heard receiver id = some (sound, other) →
      (selected setting s receiver sound).seekPos setting.floats seek = some pos →
      SeekFits pos (selected setting s receiver sound).numFrames other seekParam
  | .change world, s => ∀ entry ∈ s.1.sounds, ∀ i receiver, entry.2.receivers i = some receiver →
      (setting.players world).speex i ≠ (setting.players s.2).speex i →
      receiver.currentPos ≤ (entry.2.waveOf ((setting.players world).speex i)).numFrames
  | _, _ => True

def AllFit : List (Act σ F) → Waves × σ → Prop
  | [], _ => True
  | a :: rest, s => Fits setting a s ∧ ∀ s', act setting a s = some s' → AllFit rest s'

/-- Positions are inside, in a state of the sounds and the players. -/
def Inside (s : Waves × σ) : Prop := s.1.Inside (setting.players s.2).speex

end Acts

section Acts

variable {σ F : Type} {setting : Setting σ F} {s s' : Waves × σ}

theorem seek_fits_iff {pos frames : Nat} {receiver : Receiver} (seekParam : SeekParam)
    (inside : receiver.currentPos ≤ frames) :
    (receiver.seek pos frames seekParam).currentPos ≤ frames ↔
      SeekFits pos frames receiver seekParam := by
  cases seekParam with
  | head =>
      simp only [Receiver.seek, SeekFits]
      split <;> omega
  | curr =>
      simp only [Receiver.seek, SeekFits]
      split <;> omega
  | tail =>
      simp only [Receiver.seek, SeekFits, iff_true]
      split <;> omega

/-- What a seek does to the sounds, when the process goes on. -/
theorem seek_cases {receiver : UInt8} {id : Nat} {seek : F} {seekParam : SeekParam}
    (moved : act setting (.soundSeek receiver id seek seekParam) s = some s') :
    s.1.heard receiver id = none ∧ s' = s ∨
    ∃ sound other pos, s.1.heard receiver id = some (sound, other) ∧
      (selected setting s receiver sound).seekPos setting.floats seek = some pos ∧
      s' = (s.1.update id (Sound.changeReceiver (receiver - 1).toNat (Receiver.seek pos
        (selected setting s receiver sound).numFrames seekParam)), s.2) := by
  rw [act, Waves.soundSeek] at moved
  split at moved
  · next none =>
      cases moved
      exact .inl ⟨none, rfl⟩
  · next sound other isHeard =>
      split at moved
      · obtain ⟨waves, sought, rfl⟩ := Option.map_eq_some_iff.1 moved
        dsimp only at sought
        obtain ⟨pos, isPos, same⟩ := Option.bind_eq_some_iff.1 sought
        cases same
        exact .inr ⟨sound, other, pos, isHeard, isPos, rfl⟩
      · cases moved

theorem heard_eq_some_iff {waves : Waves} {receiver : UInt8} {id : Nat} {sound : Sound}
    {other : Receiver} : waves.heard receiver id = some (sound, other) ↔
      waves.find id = some sound ∧ sound.receivers (receiver - 1).toNat = some other := by
  simp only [Waves.heard, Option.bind_eq_bind, Option.bind_eq_some_iff, Option.some.injEq,
    Prod.mk.injEq]
  constructor
  · rintro ⟨_, found, _, isReceiver, rfl, rfl⟩
    exact ⟨found, isReceiver⟩
  · rintro ⟨found, isReceiver⟩
    exact ⟨sound, found, other, isReceiver, rfl, rfl⟩

/-- A change of one receiver is a matter of where it is then. -/
theorem inside_changeReceiver_iff {speex : Nat → Bool} {waves : Waves}
    (inside : waves.Inside speex) {id i : Nat} {sound : Sound} {receiver : Receiver}
    (found : waves.find id = some sound) (isReceiver : sound.receivers i = some receiver)
    (change : Receiver → Receiver) :
    (waves.update id (Sound.changeReceiver i change)).Inside speex ↔
      (change receiver).currentPos ≤ (sound.waveOf (speex i)).numFrames := by
  have changed : sound.changeReceiver i change = sound.setReceiver i (change receiver) := by
    rw [Sound.changeReceiver, isReceiver]
  constructor
  · intro after
    have found' := Waves.find_update id id (Sound.changeReceiver i change) waves
    rw [found, Option.map_some, if_pos rfl, changed] at found'
    exact after _ (Waves.find_eq_some_iff.1 found') i _ (if_pos rfl)
  · intro fits
    refine inside.update ?_
    intro sound' found' before
    rw [found] at found'
    cases found'
    rw [changed]
    exact before.setReceiver _ _ fits

/-- What a seek of a receiver that is heard is to fit. -/
theorem fits_seek_iff {receiver : UInt8} {id pos : Nat} {seek : F} {seekParam : SeekParam}
    {sound : Sound} {other : Receiver} (isHeard : s.1.heard receiver id = some (sound, other))
    (isPos : (selected setting s receiver sound).seekPos setting.floats seek = some pos) :
    Fits setting (.soundSeek receiver id seek seekParam) s ↔
      SeekFits pos (selected setting s receiver sound).numFrames other seekParam := by
  constructor
  · intro all
    exact all sound other pos isHeard isPos
  · intro fits sound' other' pos' isHeard' isPos'
    rw [isHeard] at isHeard'
    cases isHeard'
    rw [isPos] at isPos'
    cases isPos'
    exact fits

/-- **A seek leaves the positions inside if and only if it fits.** -/
theorem inside_seek_iff {receiver : UInt8} {id : Nat} {seek : F} {seekParam : SeekParam}
    (inside : Inside setting s)
    (moved : act setting (.soundSeek receiver id seek seekParam) s = some s') :
    Inside setting s' ↔ Fits setting (.soundSeek receiver id seek seekParam) s := by
  rcases seek_cases moved with ⟨none, rfl⟩ | ⟨sound, other, pos, isHeard, isPos, rfl⟩
  · refine iff_of_true inside ?_
    intro sound other pos isHeard
    rw [none] at isHeard
    cases isHeard
  · obtain ⟨found, isReceiver⟩ := heard_eq_some_iff.1 isHeard
    have before : other.currentPos ≤ (selected setting s receiver sound).numFrames :=
      inside _ (Waves.find_eq_some_iff.1 found) _ _ isReceiver
    rw [fits_seek_iff isHeard isPos, ← seek_fits_iff seekParam before]
    exact inside_changeReceiver_iff inside found isReceiver _

theorem inside_add {waves : Waves} (inside : waves.Inside speex) (arrangement : Arrangement)
    {id : Nat} (fresh : id ∉ waves.keys) (wave8k wave16k : Wave) :
    (waves.soundAdd arrangement id wave8k wave16k).Inside speex := by
  rw [Waves.soundAdd, dif_neg fresh]
  intro entry member
  rcases List.mem_cons.1 ((arrangement.perm _).mem_iff.1 member) with rfl | old
  · intro i receiver none
    cases none
  · exact inside entry old

/-- **A call that fits leaves the positions inside.** -/
theorem inside_act {a : Act σ F} (inside : Inside setting s) (fits : Fits setting a s)
    (moved : act setting a s = some s') : Inside setting s' := by
  cases a with
  | soundAdd id wave8k wave16k =>
      cases moved
      exact inside_add inside setting.arrangement fits wave8k wave16k
  | soundPush id wave8k wave16k =>
      cases moved
      exact inside.update fun sound _ before => before.push _ _
  | soundDelete id =>
      cases moved
      exact inside.delete id
  | soundAutoClear id =>
      cases moved
      exact inside.update fun sound _ before => before
  | soundPlay now sender receiver id =>
      cases moved
      refine inside.update ?_
      intro sound _ before
      have sent : (sound.setSender sender).Inside (setting.players s.2).speex := before
      dsimp only
      split
      · exact sent.playTo now _
      · exact sent.playToAll _ now
  | soundPause receiver id =>
      cases moved
      refine inside.update ?_
      intro sound _ before
      exact before.changeReceiver _ _ fun other isOther => before _ other isOther
  | soundStop receiver id =>
      cases moved
      refine inside.update ?_
      intro sound _ before
      exact before.changeReceiver _ _ fun other _ => Nat.zero_le _
  | soundSeek receiver id seek seekParam => exact (inside_seek_iff inside moved).2 fits
  | change world =>
      cases moved
      intro entry member i receiver isReceiver
      by_cases same : (setting.players world).speex i = (setting.players s.2).speex i
      · have before := inside entry member i receiver isReceiver
        rwa [← same] at before
      · exact fits entry member i receiver isReceiver same

theorem inside_acts {calls : List (Act σ F)} (inside : Inside setting s)
    (fit : AllFit setting calls s) (moved : acts setting calls s = some s') :
    Inside setting s' := by
  induction calls generalizing s with
  | nil =>
      cases moved
      exact inside
  | cons a rest ih =>
      obtain ⟨next, first, others⟩ := Option.bind_eq_some_iff.1 moved
      exact ih (inside_act inside fit.1 first) (fit.2 next first) others

end Acts

/-! ## Frames -/

/-- A call of `get_samples`: the wave, and the position. -/
structure SamplesCall where
  wave : Wave
  pos : Nat
  deriving DecidableEq

/-- The count that `get_samples` returns, with its arithmetic in 32 bits. -/
def SamplesCall.nSamples (length : Nat) (call : SamplesCall) : Nat :=
  let n := length * call.wave.channels % 2 ^ 32
  if call.wave.numFrames < (call.pos + n) % 2 ^ 32 then
    (call.wave.numFrames + 2 ^ 32 - call.pos) % 2 ^ 32
  else n

/-- It is what was asked for, or what is left of the wave. -/
structure SamplesCall.Inside (call : SamplesCall) : Prop where
  inside : call.pos ≤ call.wave.numFrames
  counts : call.wave.numFrames < 2 ^ 32 → ∀ length,
    call.nSamples length = length * call.wave.channels % 2 ^ 32 ∨
      call.pos + call.nSamples length = call.wave.numFrames

theorem SamplesCall.inside_of_le {call : SamplesCall} (le : call.pos ≤ call.wave.numFrames) :
    call.Inside where
  inside := le
  counts small length := by
    rw [nSamples]
    split
    · refine .inr ?_
      omega
    · exact .inl rfl

namespace Sweep

variable {σ : Type}

section Calls

variable (server : Server σ)

/-- What is asked of `get_samples` for a sound. -/
def calls (id : Nat) (s : Sweep σ) : List SamplesCall :=
  match s.waves.find id with
  | none => []
  | some sound =>
      match sound.receivers s.client with
      | none => []
      | some receiver => [⟨s.wave server sound, receiver.currentPos⟩]

/-- The calls of the loop over `need_mix`, up to one that throws. -/
def mixCalls : List Nat → Sweep σ → List SamplesCall
  | [], _ => []
  | id :: ids, s =>
      calls server id { s with handled := s.client :: s.handled } ++
        match s.mixOne server id with
        | none => []
        | some s => mixCalls ids s

def sendCalls (id : Nat) (sound : Sound) (receiver : Receiver) (s : Sweep σ) :
    List SamplesCall :=
  let needMix := s.needMix id sound receiver
  if 1 < needMix.length then mixCalls server (server.bucketOrder needMix) { s with taken := [] }
  else s.calls server id

/-- The calls of the next step. -/
def stepCalls (s : Sweep σ) : List SamplesCall :=
  match s.sound with
  | some (.at id) =>
      match s.waves.find id with
      | none => []
      | some sound =>
          match sound.receivers s.client with
          | none => []
          | some receiver =>
              if id ∉ s.handled && !(server.mutes s.world s.client sound.senderClientIndex ||
                  server.mutes s.world s.client 255) && receiver.state = .play &&
                  receiver.currentPos < (s.wave server sound).numFrames &&
                  receiver.nextSend ≤ server.now then
                s.sendCalls server id sound receiver
              else []
  | _ => []

end Calls

variable {server : Server σ}

/-- Positions are inside, in a state of the sweep. -/
def Inside (server : Server σ) (s : Sweep σ) : Prop :=
  s.waves.Inside (server.speex s.world)

theorem inside_take {s t : Sweep σ} (inside : s.Inside server) {unit id : Nat}
    {sources : List Source} (taken : s.take server unit id = some (sources, t)) :
    t.Inside server := by
  rw [take] at taken
  split at taken
  · cases taken
    exact inside
  · next sound found =>
      split at taken
      · cases taken
        exact inside
      · next receiver isReceiver =>
          obtain ⟨⟨source, receiver'⟩, advances, same⟩ := Option.bind_eq_some_iff.1 taken
          obtain ⟨samples, isSamples, moved⟩ := Option.bind_eq_some_iff.1 advances
          cases moved
          cases same
          refine Waves.Inside.update inside ?_
          intro sound' found' before
          rw [found] at found'
          cases found'
          refine before.setReceiver _ _ ?_
          have le : receiver.currentPos ≤ (s.wave server sound).numFrames := before _ _ isReceiver
          rw [Wave.getSamples, if_pos le] at isSamples
          cases isSamples
          show _ ≤ (s.wave server sound).numFrames
          rw [Wave.numFrames] at le ⊢
          simp only [List.length_take, List.length_drop]
          omega

theorem inside_mixOne {s t : Sweep σ} (inside : s.Inside server) {id : Nat}
    (mixed : s.mixOne server id = some t) : t.Inside server := by
  obtain ⟨⟨sources, u⟩, taken, same⟩ := Option.bind_eq_some_iff.1 mixed
  cases same
  have after : u.Inside server :=
    inside_take (s := { s with handled := s.client :: s.handled }) inside taken
  exact after

theorem inside_mix {s t : Sweep σ} (inside : s.Inside server) {ids : List Nat}
    (mixed : ids.foldlM (mixOne server) s = some t) : t.Inside server := by
  induction ids generalizing s with
  | nil =>
      cases mixed
      exact inside
  | cons id ids ih =>
      obtain ⟨u, first, rest⟩ := Option.bind_eq_some_iff.1 mixed
      exact ih (inside_mixOne inside first) rest

theorem inside_send {s t : Sweep σ} (inside : s.Inside server) {id : Nat} {sound : Sound}
    {receiver : Receiver} (sends : s.send server id sound receiver = some t) :
    t.Inside server := by
  rw [send] at sends
  dsimp only at sends
  split at sends
  · obtain ⟨u, mixed, same⟩ := Option.bind_eq_some_iff.1 sends
    cases same
    have after : u.Inside server := inside_mix (s := { s with taken := [] }) inside mixed
    exact after
  · obtain ⟨⟨sources, u⟩, taken, same⟩ := Option.bind_eq_some_iff.1 sends
    cases same
    have after : u.Inside server :=
      inside_take (s := { s with handled := id :: s.handled }) inside taken
    exact after

/-- The body of the loop, if what the subscribers do to a reported sound keeps positions inside. -/
theorem inside_visit {s : Sweep σ} (inside : s.Inside server) {id : Nat}
    (answers : s.reports server id = true →
      (s.answer server id).1.Inside (server.speex (s.answer server id).2)) :
    (s.visit server id).2.Inside server := by
  rw [visit]
  split
  · exact inside
  · next sound found =>
      split
      · exact inside
      · next fresh =>
          split
          · exact inside
          · next unmuted =>
              split
              · exact inside
              · next receiver isReceiver =>
                  split
                  · exact inside
                  · next plays =>
                      split
                      · next ends =>
                          rw [complete]
                          dsimp only
                          split
                          · exact inside
                          · next tells =>
                              refine answers ?_
                              simp [reports, found, isReceiver, fresh, unmuted,
                                Decidable.not_not.1 plays, ends, tells]
                      · split
                        · dsimp only
                          cases sends : s.send server id sound receiver with
                          | none => exact inside
                          | some t => exact inside_send inside sends
                        · exact inside

theorem inside_calls {s : Sweep σ} (inside : s.Inside server) (id : Nat) :
    ∀ call ∈ s.calls server id, call.Inside := by
  rw [calls]
  intro call member
  split at member
  · cases member
  · next sound found =>
      split at member
      · cases member
      · next receiver isReceiver =>
          rw [List.mem_singleton.1 member]
          exact SamplesCall.inside_of_le (inside _ (Waves.find_eq_some_iff.1 found) _ _ isReceiver)

theorem inside_mixCalls {s : Sweep σ} (inside : s.Inside server) (ids : List Nat) :
    ∀ call ∈ mixCalls server ids s, call.Inside := by
  induction ids generalizing s with
  | nil => exact fun call member => absurd member List.not_mem_nil
  | cons id ids ih =>
      intro call member
      rcases List.mem_append.1 member with first | later
      · exact inside_calls (s := { s with handled := s.client :: s.handled }) inside id call first
      · split at later
        · cases later
        · next t mixed => exact ih (inside_mixOne inside mixed) call later

/-- **No call of `get_samples` in a step is behind the end of its wave.** -/
theorem inside_stepCalls {s : Sweep σ} (inside : s.Inside server) :
    ∀ call ∈ s.stepCalls server, call.Inside := by
  rw [stepCalls]
  intro call member
  split at member
  · next id isAt =>
      split at member
      · cases member
      · next sound found =>
          split at member
          · cases member
          · next receiver isReceiver =>
              split at member
              · rw [sendCalls] at member
                split at member
                · exact inside_mixCalls (s := { s with taken := [] }) inside _ call member
                · exact inside_calls inside id call member
              · cases member
  · cases member

/-- What the subscribers do leaves the positions inside, whenever they are told something. -/
def Answers (server : Server σ) (waves : Waves) (world : σ) : Prop :=
  ∀ t, Comes server (start waves world) t → t.Inside server → ∀ id, t.sound = some (.at id) →
    t.reports server id = true →
      (t.answer server id).1.Inside (server.speex (t.answer server id).2)

theorem inside_step {s t : Sweep σ} (inside : s.Inside server)
    (answers : ∀ id, s.sound = some (.at id) → s.reports server id = true →
      (s.answer server id).1.Inside (server.speex (s.answer server id).2))
    (moved : s.step server = .ok t) : t.Inside server := by
  by_cases turns : ∀ id, s.sound ≠ some (.at id)
  · rcases moved_of_turn turns moved with ⟨-, rfl⟩ | rfl
    · exact inside
    · exact inside
  · obtain ⟨id, here⟩ := not_forall_not.1 turns
    obtain ⟨cursor, -, rfl⟩ := moved_of_step here moved
    exact inside_visit inside (answers id here)

/-- **The sweep keeps the positions inside.** -/
theorem inside_comes {waves : Waves} {world : σ} (answers : Answers server waves world)
    (inside : waves.Inside (server.speex world)) {t : Sweep σ}
    (comes : Comes server (start waves world) t) : t.Inside server := by
  have both := comes.invariant
    (I := fun s => Comes server (start waves world) s ∧ s.Inside server) ?_ ⟨.refl _, inside⟩
  · exact both.2
  · rintro s t ⟨comes, inside⟩ goes moved
    exact ⟨comes.tail goes moved, inside_step inside (answers s comes inside) moved⟩

end Sweep

/-! ## Runs -/

section Runs

variable {σ F : Type} (setting : Setting σ F)

/-- The server of a frame has the players of the run, and its subscribers act through calls that
fit. -/
structure Obeys (server : Server σ) (s : Waves × σ) : Prop where
  present : ∀ world i, server.present world i = (setting.players world).present i
  speex : ∀ world, server.speex world = (setting.players world).speex
  maxclients : ∀ world, server.maxclients = (setting.players world).maxclients
  answers : ∀ t, Sweep.Comes server (.start s.1 s.2) t → ∀ id, t.sound = some (.at id) →
    t.reports server id = true → ∃ calls, AllFit setting calls (t.waves, t.world) ∧
      acts setting calls (t.waves, t.world) = some (t.answer server id)

/-- The states that the sounds and the players come to: calls of plugins, and frames with a sweep
and a clearing pass.  Which sounds are to be cleared is left open. -/
inductive Run : Waves × σ → Prop where
  | start (world : σ) : Run (⟨[], List.nodup_nil⟩, world)
  | calls {s s' : Waves × σ} (calls : List (Act σ F)) : Run s → AllFit setting calls s →
      acts setting calls s = some s' → Run s'
  | frame {s : Waves × σ} (server : Server σ) (t : Sweep σ) (checkClear : Nat → Bool)
      (cleared : Waves) : Run s → Obeys setting server s →
      Sweep.Comes server (.start s.1 s.2) t → server.maxclients ≤ t.client →
      clearSounds (server.present t.world) (server.speex t.world) checkClear t.waves.sounds =
        some cleared.sounds → Run (cleared, t.world)

variable {setting} in
theorem Obeys.sweep {server : Server σ} {s : Waves × σ} (obeys : Obeys setting server s)
    (inside : Inside setting s) {t : Sweep σ} (comes : Sweep.Comes server (.start s.1 s.2) t) :
    t.Inside server := by
  refine Sweep.inside_comes ?_ ?_ comes
  · intro u comes insideU id isAt reports
    obtain ⟨calls, fit, moved⟩ := obeys.answers u comes id isAt reports
    have before : Inside setting (u.waves, u.world) := by
      rw [Sweep.Inside, obeys.speex] at insideU
      exact insideU
    rw [obeys.speex]
    exact inside_acts before fit moved
  · rw [obeys.speex]
    exact inside

variable {setting} in
theorem Run.inside {s : Waves × σ} (run : Run setting s) : Inside setting s := by
  induction run with
  | start world => exact fun entry member => absurd member List.not_mem_nil
  | calls calls _ fit moved before => exact inside_acts before fit moved
  | frame server t checkClear cleared _ obeys comes _ isCleared before =>
      have after : cleared.Inside (server.speex t.world) :=
        Waves.Inside.clear (obeys.sweep before comes) isCleared
      rw [obeys.speex] at after
      exact after

/-- **Positions stay inside the wave**, at every call of `get_samples` and in every state, in a run
whose calls fit; and in such a state a seek leaves them inside if and only if it fits. -/
theorem Run.positions_inside {setting : Setting σ F} {s : Waves × σ} (run : Run setting s) :
    Inside setting s ∧
      (∀ receiver id seek seekParam s',
        act setting (.soundSeek receiver id seek seekParam) s = some s' →
        (Inside setting s' ↔ Fits setting (.soundSeek receiver id seek seekParam) s)) ∧
      ∀ server : Server σ, Obeys setting server s → ∀ t, Sweep.Comes server (.start s.1 s.2) t →
        t.Inside server ∧ ∀ call ∈ t.stepCalls server, call.Inside := by
  refine ⟨run.inside, ?_, ?_⟩
  · intro receiver id seek seekParam s' moved
    exact inside_seek_iff run.inside moved
  · intro server obeys t comes
    have inside := obeys.sweep run.inside comes
    exact ⟨inside, Sweep.inside_stepCalls inside⟩

end Runs

/-! ## A seek that does not fit -/

/-- One client, with another codec than Speex. -/
def Setting.single : Setting Unit Fp where
  floats := .single
  players _ := ⟨1, fun _ => true, fun _ => false⟩
  arrangement := ⟨fun sounds => sounds, fun _ => .refl _⟩

/-- Its server, with subscribers who do nothing. -/
def Server.single : Server Unit where
  maxclients := 1
  present _ _ := true
  speex _ _ := false
  mutes _ _ _ := false
  onSoundComplete _ _ left := left
  now := 0
  delay _ _ := 0
  bucketOrder ids := ids
  ordered _ := .refl _

/-- A second of sixteen samples. -/
def Wave.second : Wave := ⟨1, 16, List.replicate 16 0⟩

/-- Two sounds of one sender are played to the client, and one of them is sought to 3/4 of a second
as often as is said. -/
def Act.seeks (times : Nat) : List (Act Unit Fp) :=
  [.soundAdd 1 .second .second, .soundAdd 2 .second .second,
    .soundPlay 0 1 1 1, .soundPlay 0 1 1 2] ++
  List.replicate times (.soundSeek 1 2 (.fin false (3 / 4)) .curr)

def Waves.none : Waves := ⟨[], List.nodup_nil⟩

/-- The steps of the frame behind some calls. -/
def sweepBehind (steps : Nat) (calls : List (Act Unit Fp)) :
    Option ((Waves × Unit) × Sweep Unit) :=
  (acts .single calls (.none, ())).bind fun s =>
    (Steps.after (Sweep.step .single) (Sweep.done .single) steps (.start s.1 s.2)).toOption.map
      fun t => (s, t)

theorem sweepBehind_spec {steps : Nat} {calls : List (Act Unit Fp)} {s : Waves × Unit}
    {t : Sweep Unit} (behind : sweepBehind steps calls = some (s, t)) :
    acts .single calls (.none, ()) = some s ∧ Sweep.Comes .single (.start s.1 s.2) t := by
  obtain ⟨s', moved, sweeps⟩ := Option.bind_eq_some_iff.1 behind
  obtain ⟨t', ends, same⟩ := Option.map_eq_some_iff.1 sweeps
  cases same
  refine ⟨moved, steps, ?_⟩
  cases after : Steps.after (Sweep.step .single) (Sweep.done .single) steps (.start s.1 s.2) with
  | error => rw [after] at ends; cases ends
  | ok t' => rw [after] at ends; cases ends; rfl

/-- Subscribers who do nothing obey. -/
theorem obeys_single (s : Waves × Unit) : Obeys .single .single s where
  present _ _ := rfl
  speex _ := rfl
  maxclients _ := rfl
  answers _ _ _ _ _ := ⟨[], trivial, rfl⟩

theorem clearSounds_unchecked (present speex : Nat → Bool) (sounds : List (Nat × Sound)) :
    clearSounds present speex (fun _ => false) sounds = some sounds := by
  induction sounds with
  | nil => rfl
  | cons entry sounds ih =>
      rw [clearSounds, Sound.clear, Bool.not_false, Bool.or_true, if_pos rfl, ih]
      rfl

/-- The sounds are played, one of them from 3/4 of a second on, and a frame sends them. -/
theorem positions_inside_played : ∃ s t, acts .single (Act.seeks 1) (.none, ()) = some s ∧
    Sweep.Comes .single (.start s.1 s.2) t ∧ t.client = 1 ∧
    (t.waves.sounds.map fun entry => (entry.2.receivers 0).map Receiver.currentPos) =
      [some 13, some 1] ∧
    Inside .single (t.waves, ()) := by
  have played : (sweepBehind 4 (Act.seeks 1)).map (fun (_, t) => (t.client,
      t.waves.sounds.map fun entry => (entry.2.receivers 0).map Receiver.currentPos)) =
        some (1, [some 13, some 1]) := by
    decide +kernel
  obtain ⟨⟨s, t⟩, behind, ends⟩ := Option.map_eq_some_iff.1 played
  obtain ⟨moved, comes⟩ := sweepBehind_spec behind
  obtain ⟨isLast, positions⟩ := Prod.mk.inj ends
  have fit : AllFit .single (Act.seeks 1) (.none, ()) := by
    refine ⟨List.not_mem_nil, ?_⟩
    rintro _ ⟨⟩
    refine ⟨(by decide : 2 ∉ [1]), ?_⟩
    rintro _ ⟨⟩
    refine ⟨trivial, ?_⟩
    rintro _ ⟨⟩
    refine ⟨trivial, ?_⟩
    rintro _ ⟨⟩
    have pos : Wave.second.seekPos .single (.fin false (3 / 4)) = some 12 := by decide +kernel
    exact ⟨(fits_seek_iff rfl pos).2 (.inr (by decide)), fun _ _ => trivial⟩
  have framed : Run .single (t.waves, ()) :=
    .frame .single t (fun _ => false) t.waves (.calls _ (.start ()) fit moved) (obeys_single s)
      comes isLast.ge (clearSounds_unchecked ..)
  exact ⟨s, t, moved, comes, isLast, positions, (Run.positions_inside framed).1⟩

/-- Sought twice, a sound is at sample 24 of 16, and is mixed from there. -/
theorem seek_outside : ¬ ∀ (calls : List (Act Unit Fp)) (s : Waves × Unit),
    acts .single calls (.none, ()) = some s →
      ∀ t, Sweep.Comes .single (.start s.1 s.2) t → ∀ call ∈ t.stepCalls .single,
        call.pos ≤ call.wave.numFrames := by
  intro always
  have third : (sweepBehind 2 (Act.seeks 2)).map (fun (_, t) => t.stepCalls .single) =
      some [⟨.second, 0⟩, ⟨.second, 24⟩] := by
    decide +kernel
  obtain ⟨⟨s, t⟩, behind, calls⟩ := Option.map_eq_some_iff.1 third
  obtain ⟨moved, comes⟩ := sweepBehind_spec behind
  have beyond : ⟨.second, 24⟩ ∈ t.stepCalls .single := by
    rw [show t.stepCalls .single = _ from calls]
    exact List.mem_cons_of_mem _ List.mem_cons_self
  exact absurd (always _ s moved t comes _ beyond) (by decide)

end Refsapi.Revoice
