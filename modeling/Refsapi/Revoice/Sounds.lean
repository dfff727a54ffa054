/-
# Revoice.Sounds -- the sweep that sends the sounds of the plugins

`g_audio_waves`, and the part of `StartFrame_PostHook` that walks it once for each client and sends
the client what is due of its sounds.  A `Sweep` is that loop with its locals, and a step of it is
an increment of one of its counters: into the walk of a client, to the next sound, or out of it.

A sound that a walk finds at its end is reported to the subscribers of `g_OnSoundComplete`, who may
change the sounds and whatever else the loop asks of the server.  A sound that is mixed is not asked
whether it is at its end: when it is behind it, an exception ends the sweep.  What is sent of the
sounds is listed with the samples that were taken for it; the coders are left out.
-/
import Refsapi.Lib.Cursor
import Refsapi.Lib.Steps

namespace Refsapi.Revoice

set_option autoImplicit false

/-! ## Sounds -/

/-- `play_state` -/
inductive PlayState where
  | stop | pause | play | done
  deriving DecidableEq, Repr

/-- `audio_wave` -/
structure Wave where
  channels : Nat
  sampleRate : Nat
  data : List Int16
  deriving DecidableEq, Repr

def Wave.numFrames (wave : Wave) : Nat := wave.data.length

/-- `get_samples`, from a position in the wave on.  Behind the end the number of samples wraps, and
the vector that is to take them throws. -/
def Wave.getSamples (wave : Wave) (pos length : Nat) : Option (List Int16) :=
  if pos ≤ wave.numFrames then some ((wave.data.drop pos).take (length * wave.channels)) else none

/-- `receiver_state`, without the codecs; times are in nanoseconds. -/
structure Receiver where
  state : PlayState
  nextSend : Int
  currentPos : Nat
  deriving DecidableEq, Repr

/-- `audio_wave_play` -/
structure Sound where
  senderClientIndex : UInt8
  receivers : Nat → Option Receiver
  autoClear : Bool
  wave8k : Wave
  wave16k : Wave

def Sound.setReceiver (i : Nat) (receiver : Receiver) (sound : Sound) : Sound :=
  { sound with receivers := fun j => if j = i then some receiver else sound.receivers j }

/-- `g_audio_waves`, in the order in which it is walked. -/
structure Waves where
  sounds : List (Nat × Sound)
  distinct : (sounds.map Prod.fst).Nodup

namespace Waves

def keys (waves : Waves) : List Nat := waves.sounds.map Prod.fst

def find (id : Nat) (waves : Waves) : Option Sound := waves.sounds.lookup id

def alter (id : Nat) (change : Sound → Sound) (entry : Nat × Sound) : Nat × Sound :=
  (entry.1, if entry.1 = id then change entry.2 else entry.2)

/-- A change of one sound. -/
def update (id : Nat) (change : Sound → Sound) (waves : Waves) : Waves where
  sounds := waves.sounds.map (alter id change)
  distinct := by
    rw [List.map_map]
    exact waves.distinct

/-- `SoundDelete` -/
def delete (id : Nat) (waves : Waves) : Waves where
  sounds := waves.sounds.filter fun entry => entry.1 ≠ id
  distinct := waves.distinct.sublist (List.filter_sublist.map Prod.fst)

end Waves

/-! ## The sweep -/

/-- What the sweep asks of the server; the subscribers of `g_OnSoundComplete` may change what they
leave to it.  `delay` is the time between two readings of the clock when a sound is sent to a
client, and `bucketOrder` the order in which an unordered set of numbers is walked. -/
structure Server (σ : Type) where
  maxclients : Nat
  present : σ → Nat → Bool
  speex : σ → Nat → Bool
  mutes : σ → Nat → UInt8 → Bool
  onSoundComplete : Nat → Nat → Waves × σ → Waves × σ
  now : Int
  delay : Nat → Nat → Nat
  bucketOrder : List Nat → List Nat
  ordered : ∀ ids, (bucketOrder ids).Perm ids

/-- Samples that were taken from a sound. -/
structure Source where
  id : Nat
  pos : Nat
  samples : List Int16
  deriving DecidableEq, Repr

/-- What is encoded for a client: the samples, those that were taken for it, and those that were
mixed to it. -/
structure Sent where
  client : Nat
  sender : UInt8
  sources : List Source
  mixed : List Source
  samples : List Int16
  deriving DecidableEq, Repr

/-- `mix_sample` -/
def mixSample (sample1 sample2 : Int16) : Int16 :=
  let result := sample1.toInt + sample2.toInt
  if 32767 < result then 32767
  else if result < -32768 then -32768
  else Int16.ofInt result

/-- What is done to `mix` with the samples of a sound. -/
def mixInto : List Int16 → List Int16 → List Int16
  | mix, [] => mix
  | [], samples => samples
  | a :: mix, b :: samples => mixSample a b :: mixInto mix samples

/-- The loop, with its locals; outside the walk of a client there is no iterator.  `mixed` says what
went into `mix`, and `taken` what was taken for the packet at hand; `thrown` is that an exception
has left the frame, and what was taken before it for its packet is left out. -/
structure Sweep (σ : Type) where
  client : Nat
  sound : Option (Cursor Nat)
  waves : Waves
  world : σ
  handled : List Nat
  mix : List Int16
  mixed : List Source
  taken : List Source
  sent : List Sent
  completed : List (Nat × Nat)
  thrown : Bool

namespace Sweep

variable {σ : Type} (server : Server σ)

def start (waves : Waves) (world : σ) : Sweep σ :=
  ⟨0, none, waves, world, [], [], [], [], [], [], false⟩

/-- The wave of a sound that a client is sent. -/
def wave (sound : Sound) (s : Sweep σ) : Wave :=
  if server.speex s.world s.client then sound.wave8k else sound.wave16k

/-- The samples of a sound that are due, and the receiver behind them; `unit` is the fraction of a
second in which the time that they take is counted. -/
def advance (unit id : Nat) (sound : Sound) (receiver : Receiver) (s : Sweep σ) :
    Option (Source × Receiver) := do
  let wave := s.wave server sound
  let samples ← wave.getSamples receiver.currentPos (wave.sampleRate / 10)
  let offset := samples.length * unit / wave.sampleRate * (1000000000 / unit)
  return (⟨id, receiver.currentPos, samples⟩,
    { receiver with
      nextSend := server.now + offset + server.delay s.client id
      currentPos := receiver.currentPos + samples.length })

/-- Take the samples of a sound that are due. -/
def take (unit id : Nat) (s : Sweep σ) : Option (List Source × Sweep σ) :=
  match s.waves.find id with
  | none => some ([], s)
  | some sound =>
      match sound.receivers s.client with
      | none => some ([], s)
      | some receiver => do
          let (source, receiver) ← s.advance server unit id sound receiver
          return ([source],
            { s with waves := s.waves.update id (Sound.setReceiver s.client receiver) })

/-- A round of the loop over `need_mix`. -/
def mixOne (s : Sweep σ) (id : Nat) : Option (Sweep σ) := do
  let (sources, s) ← { s with handled := s.client :: s.handled }.take server 1000 id
  return { s with
    mix := sources.foldl (fun mix source => mixInto mix source.samples) s.mix
    mixed := s.mixed ++ sources
    taken := s.taken ++ sources }

/-- The packet at hand is encoded. -/
def encode (sender : UInt8) (samples : List Int16) (mixed : List Source) (s : Sweep σ) : Sweep σ :=
  { s with sent := s.sent ++ [⟨s.client, sender, s.taken, mixed, samples⟩] }

/-- `need_mix` -/
def needMix (id : Nat) (sound : Sound) (receiver : Receiver) (s : Sweep σ) : List Nat :=
  id :: (s.waves.sounds.filter fun (id2, sound2) =>
    receiver.state = .play && id ≠ id2 &&
      sound.senderClientIndex = sound2.senderClientIndex &&
      (sound2.receivers s.client).isSome).map Prod.fst

/-- A sound that is due is sent, with those of its sender; `none` is an exception. -/
def send (id : Nat) (sound : Sound) (receiver : Receiver) (s : Sweep σ) : Option (Sweep σ) := do
  let needMix := s.needMix id sound receiver
  if 1 < needMix.length then
    let s ← (server.bucketOrder needMix).foldlM (mixOne server) { s with taken := [] }
    return s.encode sound.senderClientIndex s.mix s.mixed
  else
    let (sources, s) ← { s with handled := id :: s.handled }.take server 1000000 id
    return { s with taken := sources }.encode sound.senderClientIndex
      (sources.flatMap Source.samples) sources

/-- A sound is at its end: the loop begins again when it was reported. -/
def complete (id : Nat) (sound : Sound) (s : Sweep σ) : Cursor Nat × Sweep σ :=
  let s := { s with
    handled := id :: s.handled
    completed := s.completed ++ [(s.client, id)] }
  if sound.autoClear then (.at id, s)
  else
    let (waves, world) := server.onSoundComplete (s.client + 1) id (s.waves, s.world)
    (Cursor.first waves.keys, { s with waves, world })

/-- The body of the loop at a sound, and where it leaves the iterator. -/
def visit (id : Nat) (s : Sweep σ) : Cursor Nat × Sweep σ :=
  match s.waves.find id with
  | none => (.at id, s)
  | some sound =>
      if id ∈ s.handled then (.at id, s)
      else if server.mutes s.world s.client sound.senderClientIndex ||
          server.mutes s.world s.client 255 then (.at id, s)
      else match sound.receivers s.client with
        | none => (.at id, s)
        | some receiver =>
            if receiver.state ≠ .play then (.at id, s)
            else if (s.wave server sound).numFrames ≤ receiver.currentPos then
              s.complete server id sound
            else if receiver.nextSend ≤ server.now then
              (.at id, (s.send server id sound receiver).getD { s with thrown := true })
            else (.at id, s)

def step (s : Sweep σ) : Except Cursor.Fault (Sweep σ) :=
  match s.sound with
  | none =>
      if server.present s.world s.client then
        .ok { s with
          sound := some (Cursor.first s.waves.keys), handled := [], mix := [], mixed := [] }
      else .ok { s with client := s.client + 1 }
  | some .atEnd => .ok { s with client := s.client + 1, sound := none }
  | some (.at id) => do
      let (sound, s) := s.visit server id
      let sound ← Cursor.next s.waves.keys sound
      return { s with sound := some sound }

/-- Every client was walked for, or an exception has left the frame. -/
def done (s : Sweep σ) : Bool := s.thrown || server.maxclients ≤ s.client

end Sweep

end Refsapi.Revoice
