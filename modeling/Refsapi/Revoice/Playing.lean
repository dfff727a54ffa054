/-
# Revoice.Playing -- the calls of the plugins that play sounds

`RevoiceAPI::SoundAdd` and the calls after it, on `g_audio_waves`.  Positions are of type `size_t`
and a `seek` adds to them in 32 bits.  The arithmetic of `float` is a parameter: `SoundSeek` and
`SoundTell` convert between seconds and positions with it, and what it gives is another matter for
an FPU than for exact numbers, where nothing is divided by 0.

`SoundTell` and `SoundSeek` give none where the process ends: for a number that is not a client's,
and where they divide by 0.
-/
import Refsapi.Lib.Binary
import Refsapi.Revoice.Clearing

namespace Refsapi.Revoice

set_option autoImplicit false

/-- `seekParam` -/
inductive SeekParam where
  | head | curr | tail
  deriving DecidableEq, Repr

/-- The arithmetic of `float`, and the conversions from and to `size_t`. -/
structure Floats (F : Type) where
  ofSize : Nat → F
  mul : F → F → F
  div : F → F → Option F
  lt : F → F → Bool
  toSize : F → Nat
  minusOne : F

/-- `std::min` -/
def Floats.min {F : Type} (floats : Floats F) (a b : F) : F := if floats.lt b a then b else a

/-- A truncation to 64 bits of which the low half is stored. -/
def toSize32 (x : Fp) : Nat :=
  let n := x.trunc
  if -2 ^ 63 ≤ n ∧ n < 2 ^ 63 then (n % 2 ^ 32).toNat else 0

/-- The numbers of the format `binary32`, which divide by everything. -/
def Floats.single : Floats Fp where
  ofSize n := .round binary32 false n
  mul := .mul binary32
  div x y := some (.div binary32 x y)
  lt := Fp.lt
  toSize := toSize32
  minusOne := .fin true 1

namespace Wave

/-- `wav_length`, which the constructor, `push_frames` and `clear_frames` compute alike. -/
def length {F : Type} (floats : Floats F) (wave : Wave) : Option F := do
  let seconds ← floats.div (floats.ofSize wave.numFrames) (floats.ofSize wave.sampleRate)
  floats.div seconds (floats.ofSize wave.channels)

/-- `push_frames` -/
def pushFrames (data : List Int16) (wave : Wave) : Wave := { wave with data := wave.data ++ data }

/-- `wave->num_frames() * std::min(seek, totalLen) / totalLen`, as a `size_t`. -/
def seekPos {F : Type} (floats : Floats F) (seek : F) (wave : Wave) : Option Nat := do
  let totalLen ← wave.length floats
  let pos ← floats.div (floats.mul (floats.ofSize wave.numFrames) (floats.min seek totalLen))
    totalLen
  some (floats.toSize pos)

end Wave

/-- `receiver_state::seek`.  A `size_t` that is not above 0 is 0. -/
def Receiver.seek (pos totalLength : Nat) (seekType : SeekParam) (receiver : Receiver) : Receiver :=
  { receiver with
    currentPos :=
      match seekType with
      | .head => if 0 < pos then pos else 0
      | .curr =>
          if 0 < pos then (receiver.currentPos + pos) % 2 ^ 32 else receiver.currentPos - pos
      | .tail => if 0 < pos then totalLength else receiver.currentPos - pos }

/-- What the calls ask of the server. -/
structure Players where
  maxclients : Nat
  present : Nat → Bool
  speex : Nat → Bool

/-- The order in which an unordered map is walked when a sound was added. -/
structure Arrangement where
  arrange : List (Nat × Sound) → List (Nat × Sound)
  perm : ∀ sounds, (arrange sounds).Perm sounds

namespace Sound

/-- A sound that was added. -/
def added (wave8k wave16k : Wave) : Sound := ⟨0, fun _ => none, false, wave8k, wave16k⟩

/-- A receiver begins to play; one that is new begins at 0. -/
def playTo (now : Int) (i : Nat) (sound : Sound) : Sound :=
  let receiver := (sound.receivers i).getD ⟨.stop, 0, 0⟩
  sound.setReceiver i { receiver with nextSend := now, state := .play }

def eraseReceiver (i : Nat) (sound : Sound) : Sound :=
  { sound with receivers := fun j => if j = i then none else sound.receivers j }

/-- A change of a receiver that there is. -/
def changeReceiver (i : Nat) (change : Receiver → Receiver) (sound : Sound) : Sound :=
  match sound.receivers i with
  | none => sound
  | some receiver => sound.setReceiver i (change receiver)

def setSender (senderClientIndex : Nat) (sound : Sound) : Sound :=
  { sound with
    senderClientIndex := if senderClientIndex = 0 then 32 else .ofNat (senderClientIndex - 1) }

/-- The loop over the clients in `SoundPlay`. -/
def playToAll (players : Players) (now : Int) (sound : Sound) : Sound :=
  (List.range players.maxclients).foldl
    (fun sound i => if players.present i then sound.playTo now i else sound.eraseReceiver i) sound

end Sound

namespace Waves

/-- `SoundAdd`; a number that is in use gets other waves. -/
def soundAdd (arrangement : Arrangement) (id : Nat) (wave8k wave16k : Wave) (waves : Waves) :
    Waves :=
  if fresh : id ∈ waves.keys then
    waves.update id fun sound => { sound with wave8k, wave16k }
  else
    { sounds := arrangement.arrange ((id, .added wave8k wave16k) :: waves.sounds)
      distinct := by
        have perm := (arrangement.perm ((id, .added wave8k wave16k) :: waves.sounds)).map Prod.fst
        rw [perm.nodup_iff, List.map_cons, List.nodup_cons]
        exact ⟨fresh, waves.distinct⟩ }

def soundPush (id : Nat) (wave8k wave16k : Wave) (waves : Waves) : Waves :=
  waves.update id fun sound =>
    { sound with
      wave8k := sound.wave8k.pushFrames wave8k.data
      wave16k := sound.wave16k.pushFrames wave16k.data }

def soundAutoClear (id : Nat) (waves : Waves) : Waves :=
  waves.update id fun sound => { sound with autoClear := true }

def soundPlay (players : Players) (now : Int) (senderClientIndex receiverClientIndex id : Nat)
    (waves : Waves) : Waves :=
  waves.update id fun sound =>
    let sound := sound.setSender senderClientIndex
    if receiverClientIndex ≠ 0 then sound.playTo now ((receiverClientIndex - 1) % 256)
    else sound.playToAll players now

def soundPause (receiverClientIndex : UInt8) (id : Nat) (waves : Waves) : Waves :=
  waves.update id (Sound.changeReceiver (receiverClientIndex - 1).toNat fun receiver =>
    { receiver with state := .pause })

def soundStop (receiverClientIndex : UInt8) (id : Nat) (waves : Waves) : Waves :=
  waves.update id (Sound.changeReceiver (receiverClientIndex - 1).toNat fun receiver =>
    { receiver with state := .stop, currentPos := 0 })

section Floats

variable {F : Type} (floats : Floats F) (players : Players)

/-- The sound and its receiver of a client, if there are both. -/
def heard (receiverClientIndex : UInt8) (id : Nat) (waves : Waves) : Option (Sound × Receiver) := do
  let sound ← waves.find id
  let receiver ← sound.receivers (receiverClientIndex - 1).toNat
  some (sound, receiver)

/-- `GetPlayerByIndex` finds a player. -/
def isPlayer (receiverClientIndex : UInt8) : Bool :=
  1 ≤ receiverClientIndex.toNat && receiverClientIndex.toNat ≤ players.maxclients

def soundSeek (receiverClientIndex : UInt8) (id : Nat) (seek : F) (seekParam : SeekParam)
    (waves : Waves) : Option Waves :=
  match waves.heard receiverClientIndex id with
  | none => some waves
  | some (sound, _) =>
      if isPlayer players receiverClientIndex then do
        let i := (receiverClientIndex - 1).toNat
        let wave := sound.waveOf (players.speex i)
        let pos ← wave.seekPos floats seek
        some (waves.update id (Sound.changeReceiver i (Receiver.seek pos wave.numFrames seekParam)))
      else none

def soundTell (receiverClientIndex : UInt8) (id : Nat) (waves : Waves) : Option F :=
  match waves.heard receiverClientIndex id with
  | none => some floats.minusOne
  | some (sound, receiver) =>
      if isPlayer players receiverClientIndex then
        let i := (receiverClientIndex - 1).toNat
        if !players.present i then some floats.minusOne
        else
          let wave := sound.waveOf (players.speex i)
          -- The quotient is one of two `size_t`, before it becomes a `float`.
          if wave.numFrames = 0 then none
          else do
            let pos := floats.ofSize (min receiver.currentPos wave.numFrames / wave.numFrames)
            let length ← wave.length floats
            some (floats.mul pos length)
      else none

def soundLength (id : Nat) (waves : Waves) : Option F :=
  match waves.find id with
  | none => some floats.minusOne
  | some sound => sound.wave16k.length floats

end Floats

end Waves

end Refsapi.Revoice
