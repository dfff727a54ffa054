/-
# Revoice.Branches -- the two branches that send a sound

A sound that is due is encoded alone, or mixed with the others of its sender.  Where these have
nothing but zeros the two branches should do the same; but the one that mixes takes the encoder of
Steam for every client, adds to what is left in `mix` from another sender, and keeps zeros behind
the end of the sound (`branches_agree_iff`).
-/
import Refsapi.Revoice.Targets
import Refsapi.Revoice.Walks

namespace Refsapi.Revoice

set_option autoImplicit false

/-! ## Zeros in a mix -/

theorem mixSample_zero (a : Int16) : mixSample a 0 = a := by
  have low := a.le_toInt
  have high := a.toInt_lt
  rw [mixSample, show (0 : Int16).toInt = 0 from rfl, Int.add_zero, if_neg (by omega),
    if_neg (by omega), Int16.ofInt_toInt]

theorem zero_mixSample (b : Int16) : mixSample 0 b = b := by
  have comm : mixSample 0 b = mixSample b 0 := by
    rw [mixSample, mixSample, Int.add_comm]
  rw [comm, mixSample_zero]

theorem rightpad_cons (n : Nat) (a : Int16) (mix : List Int16) :
    (a :: mix).rightpad (n + 1) 0 = a :: mix.rightpad n 0 := by
  simp [List.rightpad]

theorem rightpad_of_le {n : Nat} {mix : List Int16} (le : n ≤ mix.length) :
    mix.rightpad n 0 = mix := by
  rw [List.rightpad, Nat.sub_eq_zero_of_le le, List.replicate_zero, List.append_nil]

theorem rightpad_rightpad (m n : Nat) (mix : List Int16) :
    (mix.rightpad m 0).rightpad n 0 = mix.rightpad (max m n) 0 := by
  simp only [List.rightpad, List.append_assoc, List.replicate_append_replicate,
    List.length_append, List.length_replicate]
  congr 2
  omega

theorem length_mixInto (mix samples : List Int16) :
    (mixInto mix samples).length = max mix.length samples.length := by
  induction mix generalizing samples with
  | nil => rw [Sweep.mixInto_nil, List.length_nil, Nat.zero_max]
  | cons a mix ih =>
      cases samples with
      | nil => rw [mixInto, List.length_nil, Nat.max_zero]
      | cons b samples =>
          rw [mixInto, List.length_cons, List.length_cons, List.length_cons, ih]
          omega

/-- Zeros only make a mix longer. -/
theorem mixInto_zeros {samples : List Int16} (zeros : ∀ a ∈ samples, a = 0) (mix : List Int16) :
    mixInto mix samples = mix.rightpad samples.length 0 := by
  induction mix generalizing samples with
  | nil =>
      rw [Sweep.mixInto_nil, List.rightpad, List.nil_append, List.length_nil, Nat.sub_zero]
      exact List.eq_replicate_iff.2 ⟨rfl, zeros⟩
  | cons a mix ih =>
      cases samples with
      | nil => exact (rightpad_of_le (Nat.zero_le _)).symm
      | cons b samples =>
          obtain ⟨rfl, others⟩ := List.forall_mem_cons.1 zeros
          rw [mixInto, mixSample_zero, ih others, List.length_cons, rightpad_cons]

/-- It is all the same when they do. -/
theorem mixInto_rightpad (n : Nat) (mix samples : List Int16) :
    mixInto (mix.rightpad n 0) samples = (mixInto mix samples).rightpad n 0 := by
  induction mix generalizing n samples with
  | nil =>
      rw [Sweep.mixInto_nil]
      induction n generalizing samples with
      | zero =>
          rw [rightpad_of_le (Nat.zero_le _), rightpad_of_le (Nat.zero_le _), Sweep.mixInto_nil]
      | succ n ih =>
          have first : ([] : List Int16).rightpad (n + 1) 0 = 0 :: [].rightpad n 0 := rfl
          rw [first]
          cases samples with
          | nil => exact first.symm
          | cons b samples => rw [mixInto, zero_mixSample, ih, rightpad_cons]
  | cons a mix ih =>
      cases n with
      | zero => rw [rightpad_of_le (Nat.zero_le _), rightpad_of_le (Nat.zero_le _)]
      | succ n =>
          rw [rightpad_cons]
          cases samples with
          | nil => rw [mixInto, mixInto, rightpad_cons]
          | cons b samples => rw [mixInto, mixInto, ih, rightpad_cons]

/-- The length of the longest block. -/
def longest (blocks : List (List Int16)) : Nat := (blocks.map List.length).foldr max 0

theorem longest_le_iff {blocks : List (List Int16)} {n : Nat} :
    longest blocks ≤ n ↔ ∀ block ∈ blocks, block.length ≤ n := by
  induction blocks with
  | nil => exact iff_of_true (Nat.zero_le n) fun block member => absurd member List.not_mem_nil
  | cons block blocks ih =>
      rw [List.forall_mem_cons, ← ih]
      exact Nat.max_le

theorem mixAll_zeros {blocks : List (List Int16)} (zeros : ∀ block ∈ blocks, ∀ a ∈ block, a = 0)
    (mix : List Int16) : blocks.foldl mixInto mix = mix.rightpad (longest blocks) 0 := by
  induction blocks generalizing mix with
  | nil => exact (rightpad_of_le (Nat.zero_le _)).symm
  | cons block blocks ih =>
      obtain ⟨first, others⟩ := List.forall_mem_cons.1 zeros
      rw [List.foldl_cons, ih others, mixInto_zeros first, rightpad_rightpad]
      rfl

/-- **A block among zeros** comes out as it is, if it is not changed by what was mixed before and
no zeros are longer. -/
theorem mixAll_eq_iff {before behind : List (List Int16)} {samples mix : List Int16}
    (zeros : ∀ block ∈ before ++ behind, ∀ a ∈ block, a = 0) :
    (before ++ samples :: behind).foldl mixInto mix = samples ↔
      mixInto mix samples = samples ∧
        ∀ block ∈ before ++ behind, block.length ≤ samples.length := by
  obtain ⟨zerosBefore, zerosBehind⟩ := List.forall_mem_append.1 zeros
  rw [List.foldl_append, List.foldl_cons, mixAll_zeros zerosBefore, mixAll_zeros zerosBehind,
    mixInto_rightpad, rightpad_rightpad, List.forall_mem_append, ← longest_le_iff,
    ← longest_le_iff, ← Nat.max_le]
  constructor
  · intro same
    have length := congrArg List.length same
    rw [List.rightpad, List.length_append, List.length_replicate, length_mixInto] at length
    have short : max (longest before) (longest behind) ≤ samples.length := by omega
    rw [rightpad_of_le (by rw [length_mixInto]; omega)] at same
    exact ⟨same, short⟩
  · rintro ⟨same, short⟩
    rw [same, rightpad_of_le short]

/-! ## Encoder objects -/

/-- The codecs of a receiver of a sound. -/
inductive ReceiverCodec where
  | steamCodec | frameCodec
  deriving DecidableEq, Repr

/-- An encoder object: a codec of the receiver that a sound has for a client. -/
structure EncoderObject where
  sound : Nat
  client : Nat
  codec : ReceiverCodec
  deriving DecidableEq, Repr

/-- What `EncodeVoice` calls: the subscribers of `g_OnDecompress`, and the encoder objects as they
are at the time. -/
structure Coders where
  sampleRate : EncoderObject → UInt16
  onDecompress : UInt8 → Nat → UInt16 → List Int16 → List Int16
  compress : EncoderObject → List Int16 → Encoded
  whole : ∀ encoder samples, (compress encoder samples).Whole

section Objects

variable (L : Libs)

/-- The codec objects of a receiver. -/
structure ReceiverCodecs where
  steamCodec : SteamCodec (Opus.Of L)
  frameCodec : FrameCodec.Of L

/-- `sizeof(voiceBuff)` -/
def voiceBuffSize : Int := 4096

/-- The encoder objects of the receivers. -/
def Coders.ofReceivers (onDecompress : UInt8 → Nat → UInt16 → List Int16 → List Int16)
    (receivers : Nat → Nat → ReceiverCodecs L) : Coders where
  sampleRate encoder := match encoder.codec with
    | .steamCodec => (receivers encoder.sound encoder.client).steamCodec.backend.samplerate
    | .frameCodec => FrameCodec.sampleRate
  onDecompress
  compress encoder samples := match encoder.codec with
    | .steamCodec =>
        let c := (receivers encoder.sound encoder.client).steamCodec
        (Revoice.compress (Opus.backend L) L.crc32 c.steamid samples voiceBuffSize false
          c.backend).1
    | .frameCodec =>
        let c := (receivers encoder.sound encoder.client).frameCodec
        (FrameCodec.compress L samples voiceBuffSize false c).1
  whole encoder samples := by
    have whole (samples : List Int16) (max : Int) (bFinal : Bool) (backend : Opus.Of L) :
        ((Opus.backend L).compress samples max bFinal backend).1.Whole :=
      Codecs.whole_opus L samples max bFinal backend
    cases encoder.codec with
    | steamCodec => exact whole_compress whole ..
    | frameCodec => exact Nat.le_of_eq (Bytes.length_contents _ _).symm

end Objects

/-- `EncodeVoice`: the bytes that are in `dstBuf` then. -/
def encodeVoice (coders : Coders) (senderId : UInt8) (receiverId : Nat) (srcBuf : List Int16)
    (dstCodec : EncoderObject) : List UInt8 :=
  let srcBuf := coders.onDecompress senderId receiverId (coders.sampleRate dstCodec) srcBuf
  let compressed := coders.compress dstCodec srcBuf
  if compressed.result ≤ 0 then [] else compressed.bytes.take compressed.result.toNat

/-- There are as many of them as `EncodeVoice` returns. -/
theorem length_encodeVoice (coders : Coders) (senderId : UInt8) (receiverId : Nat)
    (srcBuf : List Int16) (dstCodec : EncoderObject) :
    (encodeVoice coders senderId receiverId srcBuf dstCodec).length =
      (coders.compress dstCodec (coders.onDecompress senderId receiverId
        (coders.sampleRate dstCodec) srcBuf)).result.toNat := by
  rw [encodeVoice]
  split
  · next failed => rw [List.length_nil, Int.toNat_of_nonpos failed]
  · next => rw [List.length_take, Nat.min_eq_left (coders.whole ..)]

/-- `sizebuf_t` -/
structure Datagram where
  data : List UInt8
  maxsize : Nat
  deriving DecidableEq, Repr

/-- What is written to the datagram of the client when a sound was encoded. -/
def Datagram.write (senderClientIndex : UInt8) (sendBuf : List UInt8) (d : Datagram) : Datagram :=
  if sendBuf.length = 0 then d
  else if d.data.length + sendBuf.length + 4 < d.maxsize then
    { d with data := d.data ++ voiceMessage senderClientIndex.toNat sendBuf }
  else d

/-- What `EncodeVoice` is called with: the encoder object and the samples. -/
@[ext] structure EncodeCall where
  encoder : EncoderObject
  samples : List Int16
  deriving DecidableEq, Repr

/-- The datagram of the client behind a call. -/
def EncodeCall.sent (coders : Coders) (senderClientIndex : UInt8) (client : Nat) (d : Datagram)
    (call : EncodeCall) : Datagram :=
  d.write senderClientIndex
    (encodeVoice coders senderClientIndex (client + 1) call.samples call.encoder)

/-! ## The branches -/

namespace Sweep

variable {σ : Type}

section Branches

variable (server : Server σ)

/-- The `codec` that the loop has for a client. -/
def codec (s : Sweep σ) : ReceiverCodec :=
  if server.speex s.world s.client then .frameCodec else .steamCodec

/-- The branch that mixes: the sounds of `need_mix`, with the encoder of Steam. -/
def mixCall (id : Nat) (sound : Sound) (receiver : Receiver) (s : Sweep σ) :
    Option EncodeCall := do
  let s ← (server.bucketOrder (s.needMix id sound receiver)).foldlM (mixOne server)
    { s with taken := [] }
  return ⟨⟨id, s.client, .steamCodec⟩, s.mix⟩

/-- The branch for a single sound. -/
def singleCall (id : Nat) (s : Sweep σ) : Option EncodeCall := do
  let (sources, _) ← { s with handled := id :: s.handled }.take server 1000000 id
  return ⟨⟨id, s.client, s.codec server⟩, sources.flatMap Source.samples⟩

/-- What the loop calls `EncodeVoice` with for a sound that is due. -/
def call (id : Nat) (sound : Sound) (receiver : Receiver) (s : Sweep σ) : Option EncodeCall :=
  if 1 < (s.needMix id sound receiver).length then s.mixCall server id sound receiver
  else s.singleCall server id

/-- The samples of the call are those that the sweep lists. -/
theorem sent_send (id : Nat) (sound : Sound) (receiver : Receiver) (s : Sweep σ) :
    (s.send server id sound receiver).map (fun t => t.sent.getLast?.map Sent.samples) =
      (s.call server id sound receiver).map fun call => some call.samples := by
  rw [send, call]
  dsimp only
  split
  · rw [mixCall]
    cases (server.bucketOrder (s.needMix id sound receiver)).foldlM (mixOne server)
        { s with taken := [] } with
    | none => rfl
    | some t => exact congrArg (fun last => some (last.map Sent.samples)) List.getLast?_concat
  · rw [singleCall]
    cases { s with handled := id :: s.handled }.take server 1000000 id with
    | none => rfl
    | some taken => exact congrArg (fun last => some (last.map Sent.samples)) List.getLast?_concat

/-- The branches call the same encoder object, and write the same to the datagram of the client,
whatever the encoder objects do. -/
def Agrees (id : Nat) (sound : Sound) (receiver : Receiver) (s : Sweep σ) : Prop :=
  ∃ mixed single, s.mixCall server id sound receiver = some mixed ∧
    s.singleCall server id = some single ∧ mixed.encoder = single.encoder ∧
    ∀ coders datagram, mixed.sent coders sound.senderClientIndex s.client datagram =
      single.sent coders sound.senderClientIndex s.client datagram

/-- The other sounds that are mixed have nothing but zeros, and are not behind their ends. -/
def OthersSilent (id : Nat) (sound : Sound) (receiver : Receiver) (s : Sweep σ) : Prop :=
  ∀ k ∈ s.needMix id sound receiver, k ≠ id → ∀ part, s.part server k = some part →
    part.Inside ∧ ∀ a ∈ part.samples, a = 0

/-- They have no more of them than the sound has samples. -/
def OthersShort (id : Nat) (sound : Sound) (receiver : Receiver) (samples : List Int16)
    (s : Sweep σ) : Prop :=
  ∀ k ∈ s.needMix id sound receiver, k ≠ id → ∀ part, s.part server k = some part →
    part.samples.length ≤ samples.length

end Branches

section Samples

variable {server : Server σ} {s : Sweep σ} {id : Nat} {part : Part}

theorem sources_eq_blocks (ids : List Nat) (mix : List Int16) :
    (s.sources server ids).foldl (fun mix source => mixInto mix source.samples) mix =
      ((s.sources server ids).map Source.samples).foldl mixInto mix :=
  List.foldl_map.symm

theorem mem_blocks_iff {ids : List Nat} {block : List Int16} :
    block ∈ (s.sources server ids).map Source.samples ↔
      ∃ k ∈ ids, ∃ part, s.part server k = some part ∧ block = part.samples := by
  simp only [sources, List.mem_map, List.mem_filterMap, Option.map_eq_some_iff]
  constructor
  · rintro ⟨_, ⟨k, isId, part, isPart, rfl⟩, rfl⟩
    exact ⟨k, isId, part, isPart, rfl⟩
  · rintro ⟨k, isId, part, isPart, rfl⟩
    exact ⟨_, ⟨k, isId, part, isPart, rfl⟩, rfl⟩

/-- What holds of the blocks besides that of a sound. -/
theorem forall_blocks_iff (server : Server σ) (s : Sweep σ) {before behind ids : List Nat}
    (distinct : (before ++ id :: behind).Nodup) (perm : (before ++ id :: behind).Perm ids)
    (p : List Int16 → Prop) :
    (∀ block ∈ (s.sources server before).map Source.samples ++
        (s.sources server behind).map Source.samples, p block) ↔
      ∀ k ∈ ids, k ≠ id → ∀ part, s.part server k = some part → p part.samples := by
  have apart := (List.nodup_cons.1 (List.nodup_middle.1 distinct)).1
  have others (k : Nat) : k ∈ before ++ behind ↔ k ∈ ids ∧ k ≠ id := by
    rw [← perm.mem_iff, List.perm_middle.mem_iff, List.mem_cons]
    constructor
    · intro isOther
      exact ⟨.inr isOther, fun here => apart (here ▸ isOther)⟩
    · rintro ⟨here | isOther, other⟩
      · exact absurd here other
      · exact isOther
  have joined : (s.sources server before).map Source.samples ++
      (s.sources server behind).map Source.samples =
        (s.sources server (before ++ behind)).map Source.samples := by
    rw [sources, sources, sources, List.filterMap_append, List.map_append]
  rw [joined]
  constructor
  · intro every k isId other part isPart
    exact every _ (mem_blocks_iff.2 ⟨k, (others k).2 ⟨isId, other⟩, part, isPart, rfl⟩)
  · intro every block isBlock
    obtain ⟨k, isOther, part, isPart, rfl⟩ := mem_blocks_iff.1 isBlock
    obtain ⟨isId, other⟩ := (others k).1 isOther
    exact every k isId other part isPart

theorem singleCall_eq (isPart : s.part server id = some part) (inside : part.Inside) :
    s.singleCall server id = some ⟨⟨id, s.client, s.codec server⟩, part.samples⟩ := by
  have within : s.Within server [id] := by
    intro k here part' isPart'
    obtain rfl := List.mem_singleton.1 here
    exact Option.some.inj (isPart.symm.trans isPart') ▸ inside
  obtain ⟨waves, -, taken⟩ :=
    take_spec (s := { s with handled := id :: s.handled }) 1000000 within
  have here : sources server [id] { s with handled := id :: s.handled } = [part.source id] := by
    rw [sources, List.filterMap_cons_some (by rw [show Sweep.part server id
      { s with handled := id :: s.handled } = _ from isPart]; rfl), List.filterMap_nil]
  rw [singleCall, taken, here]
  exact congrArg (fun samples => some (EncodeCall.mk _ samples)) (List.append_nil _)

/-- **The mix of a sound with zeros** is the sound, if what was in `mix` does not change it and no
zeros are longer. -/
theorem mixCall_spec {sound : Sound} {receiver : Receiver}
    (found : s.waves.find id = some sound) (isReceiver : sound.receivers s.client = some receiver)
    (plays : receiver.state = .play) (isPart : s.part server id = some part)
    (inside : part.Inside) (silent : s.OthersSilent server id sound receiver) :
    ∃ samples, s.mixCall server id sound receiver =
        some ⟨⟨id, s.client, .steamCodec⟩, samples⟩ ∧
      (samples = part.samples ↔ mixInto s.mix part.samples = part.samples ∧
        s.OthersShort server id sound receiver part.samples) := by
  have ordered := server.ordered (s.needMix id sound receiver)
  have distinct : (server.bucketOrder (s.needMix id sound receiver)).Nodup :=
    (ordered.trans (needMix_perm server found isReceiver plays)).nodup_iff.2 (group_nodup s _)
  have within : s.Within server (server.bucketOrder (s.needMix id sound receiver)) := by
    intro k isId part' isPart'
    by_cases here : k = id
    · subst here
      exact Option.some.inj (isPart.symm.trans isPart') ▸ inside
    · exact (silent k (ordered.mem_iff.1 isId) here part' isPart').1
  obtain ⟨waves, -, mixed⟩ := mix_spec (s := { s with taken := [] }) distinct within
  have isMix : s.mixCall server id sound receiver = some ⟨⟨id, s.client, .steamCodec⟩,
      ((s.sources server (server.bucketOrder (s.needMix id sound receiver))).map
        Source.samples).foldl mixInto s.mix⟩ := by
    rw [mixCall, mixed, ← sources_eq_blocks]
    rfl
  refine ⟨_, isMix, ?_⟩
  have isHere : id ∈ server.bucketOrder (s.needMix id sound receiver) :=
    ordered.mem_iff.2 List.mem_cons_self
  obtain ⟨before, behind, same⟩ := List.append_of_mem isHere
  rw [same] at distinct
  have others (p : List Int16 → Prop) := forall_blocks_iff server s distinct (same ▸ ordered) p
  have blocks : (s.sources server (before ++ id :: behind)).map Source.samples =
      (s.sources server before).map Source.samples ++
        part.samples :: (s.sources server behind).map Source.samples := by
    rw [sources, List.filterMap_append, List.filterMap_cons_some (by rw [isPart]; rfl),
      List.map_append]
    rfl
  have zeros := (others fun block => ∀ a ∈ block, a = 0).2 fun k isId other part' isPart' =>
    (silent k isId other part' isPart').2
  rw [same, blocks, mixAll_eq_iff zeros, others]
  rfl

end Samples

end Sweep

/-! ## What the branches write -/

/-- Encoder objects that tell some samples from all others. -/
def Coders.telling (samples : List Int16) : Coders where
  sampleRate _ := 8000
  onDecompress _ _ _ samples := samples
  compress _ other := if other = samples then ⟨1, [0]⟩ else ⟨1, [1]⟩
  whole _ other := by
    split
    · exact Nat.le_refl 1
    · exact Nat.le_refl 1

/-- Calls of one encoder object that always write the same have the same samples. -/
theorem EncodeCall.eq_iff (sender : UInt8) (client : Nat) {first second : EncodeCall} :
    first = second ↔ first.encoder = second.encoder ∧ ∀ coders datagram,
      first.sent coders sender client datagram = second.sent coders sender client datagram := by
  constructor
  · rintro rfl
    exact ⟨rfl, fun coders datagram => rfl⟩
  · rcases first with ⟨encoder, samples⟩
    rcases second with ⟨encoder', samples'⟩
    rintro ⟨rfl, same⟩
    by_contra differ
    have other : samples' ≠ samples := by
      rintro rfl
      exact differ rfl
    have told := congrArg Datagram.data (same (.telling samples) ⟨[], 100⟩)
    simp [sent, encodeVoice, Coders.telling, Datagram.write, voiceMessage, other] at told

namespace Sweep

variable {σ : Type} {server : Server σ} {s : Sweep σ} {id : Nat} {sound : Sound}
  {receiver : Receiver}

theorem agrees_iff {mixed single : EncodeCall}
    (isMixed : s.mixCall server id sound receiver = some mixed)
    (isSingle : s.singleCall server id = some single) :
    s.Agrees server id sound receiver ↔ mixed = single := by
  rw [EncodeCall.eq_iff sound.senderClientIndex s.client]
  constructor
  · rintro ⟨mixed', single', isMixed', isSingle', same⟩
    rw [Option.some.inj (isMixed.symm.trans isMixed'),
      Option.some.inj (isSingle.symm.trans isSingle')]
    exact same
  · exact fun same => ⟨mixed, single, isMixed, isSingle, same⟩

theorem codec_eq_iff (server : Server σ) (s : Sweep σ) :
    .steamCodec = s.codec server ↔ server.speex s.world s.client = false := by
  rw [codec]
  cases server.speex s.world s.client with
  | false => exact iff_of_true rfl rfl
  | true => exact iff_of_false (by decide) (by decide)

/-- **The branches agree about a sound and others that have only zeros exactly when the client does
not listen with Speex, what is left in `mix` does not change the samples of the sound, and no zeros
are longer than they are.** -/
theorem branches_agree_iff (server : Server σ) (s : Sweep σ) (id : Nat) (sound : Sound)
    (receiver : Receiver) (part : Part) (found : s.waves.find id = some sound)
    (isReceiver : sound.receivers s.client = some receiver) (plays : receiver.state = .play)
    (isPart : s.part server id = some part) (inside : part.Inside)
    (silent : s.OthersSilent server id sound receiver) :
    s.Agrees server id sound receiver ↔ server.speex s.world s.client = false ∧
      mixInto s.mix part.samples = part.samples ∧
        s.OthersShort server id sound receiver part.samples := by
  obtain ⟨samples, isMixed, isMix⟩ := mixCall_spec found isReceiver plays isPart inside silent
  rw [agrees_iff isMixed (singleCall_eq isPart inside), ← isMix, ← codec_eq_iff,
    EncodeCall.mk.injEq, EncoderObject.mk.injEq]
  constructor
  · rintro ⟨⟨-, -, codec⟩, same⟩
    exact ⟨codec, same⟩
  · rintro ⟨codec, same⟩
    exact ⟨⟨rfl, rfl, codec⟩, same⟩

end Sweep

/-! ## Two sounds of one sender -/

/-- A server of one client, who may listen with Speex. -/
def Server.listening (speex : Bool) : Server Unit :=
  { Server.deleting with speex := fun _ _ => speex }

/-- A sound of 20 ms of Speex, which its receiver was sent from a position on. -/
def Sound.short (currentPos : Nat) : Sound where
  senderClientIndex := 0
  receivers _ := some ⟨.play, 0, currentPos⟩
  autoClear := false
  wave8k := ⟨1, 8000, List.replicate 160 1⟩
  wave16k := ⟨1, 16000, List.replicate 320 1⟩

/-- The number of samples of the wave of the client. -/
def shortLength (speex : Bool) : Nat := if speex then 160 else 320

/-- A sound at its beginning, and another one of its sender that was sent to the end. -/
def Waves.twoShort (speex : Bool) : Waves where
  sounds := [(1, .short 0), (2, .short (shortLength speex))]
  distinct := by simp

/-- The walk of the client, at the first sound. -/
def Sweep.twoShort (speex : Bool) : Sweep Unit :=
  { Sweep.start (.twoShort speex) () with sound := some (.at 1) }

theorem Part.at_end {part : Part} (ends : part.receiver.currentPos = part.wave.numFrames) :
    part.Inside ∧ part.samples = [] := by
  refine ⟨ends.le, ?_⟩
  rw [samples, Wave.getSamples, if_pos ends.le, ends, Wave.numFrames, List.drop_length,
    List.take_nil, Option.getD_some]

/-- The other sound has no samples left. -/
theorem part_twoShort (speex : Bool) {k : Nat} {part : Part}
    (isId : k ∈ (Sweep.twoShort speex).needMix 1 (.short 0) ⟨.play, 0, 0⟩) (other : k ≠ 1)
    (isPart : (Sweep.twoShort speex).part (.listening speex) k = some part) :
    part.Inside ∧ part.samples = [] := by
  have both : (Sweep.twoShort speex).needMix 1 (.short 0) ⟨.play, 0, 0⟩ = [1, 2] := rfl
  rw [both, List.mem_pair] at isId
  obtain rfl := isId.resolve_left other
  obtain rfl := Option.some.inj isPart
  apply Part.at_end
  cases speex with
  | false => exact List.length_replicate.symm
  | true => exact List.length_replicate.symm

theorem silent_twoShort (speex : Bool) :
    (Sweep.twoShort speex).OthersSilent (.listening speex) 1 (.short 0) ⟨.play, 0, 0⟩ := by
  intro k isId other part isPart
  obtain ⟨inside, none⟩ := part_twoShort speex isId other isPart
  rw [none]
  exact ⟨inside, fun a isSample => absurd isSample List.not_mem_nil⟩

theorem short_twoShort (speex : Bool) (samples : List Int16) :
    (Sweep.twoShort speex).OthersShort (.listening speex) 1 (.short 0) ⟨.play, 0, 0⟩ samples := by
  intro k isId other part isPart
  rw [(part_twoShort speex isId other isPart).2]
  exact Nat.zero_le _

/-- Who listens with another codec is sent the same by both branches. -/
theorem agrees_twoShort :
    (Sweep.twoShort false).Agrees (.listening false) 1 (.short 0) ⟨.play, 0, 0⟩ := by
  apply (Sweep.branches_agree_iff (.listening false) (.twoShort false) 1 (.short 0) ⟨.play, 0, 0⟩ _
    rfl rfl rfl rfl (Nat.zero_le _) (silent_twoShort false)).2
  exact ⟨rfl, Sweep.mixInto_nil _, short_twoShort false _⟩

/-- The codec objects of a new receiver. -/
def ReceiverCodecs.new : ReceiverCodecs Libs.plain where
  steamCodec := ⟨0, Opus.new Libs.plain⟩
  frameCodec := FrameCodec.new Libs.plain

/-- A client who listens with Speex is sent the packet of Steam when another sound of the sender is
at its end. -/
theorem mixed_for_steam : ¬ ∀ (server : Server Unit) (s : Sweep Unit) (id : Nat) (sound : Sound)
    (receiver : Receiver), s.waves.find id = some sound →
    sound.receivers s.client = some receiver → receiver.state = .play →
    receiver.currentPos < (s.wave server sound).numFrames →
    s.OthersSilent server id sound receiver → s.Agrees server id sound receiver := by
  intro always
  have more : 0 < (List.replicate 160 (1 : Int16)).length :=
    List.length_replicate.symm ▸ Nat.zero_lt_succ 159
  obtain ⟨mixed, single, isMixed, isSingle, -, written⟩ := always (.listening true) (.twoShort true)
    1 (.short 0) ⟨.play, 0, 0⟩ rfl rfl rfl more (silent_twoShort true)
  have isPart : (Sweep.twoShort true).part (.listening true) 1 =
      some ⟨0, (Sound.short 0).wave8k, ⟨.play, 0, 0⟩⟩ := rfl
  obtain ⟨samples, isMix, sum⟩ := Sweep.mixCall_spec rfl rfl rfl isPart (Nat.zero_le _)
    (silent_twoShort true)
  rw [sum.2 ⟨Sweep.mixInto_nil _, short_twoShort true _⟩] at isMix
  obtain rfl := Option.some.inj (isMix.symm.trans isMixed)
  obtain rfl := Option.some.inj
    ((Sweep.singleCall_eq isPart (Nat.zero_le _)).symm.trans isSingle)
  have same := written (.ofReceivers Libs.plain (fun _ _ _ samples => samples)
    fun _ _ => .new) ⟨[], 4000⟩
  revert same
  decide +kernel

end Refsapi.Revoice
