/-
# Revoice.OpusReady -- whether the Opus object has its encoder and its decoder

The sample rate of a `VoiceEncoder_Opus` comes from the packets.  `SetSampleRate` frees the
encoder and the decoder of the old rate, and `Init` allocates those of the new one, which the
library refuses for all but five rates; its answer is not looked at.

`Settled` says what there always is: both objects when the rate is one that the library takes, and
neither when it is not.  So a call of `opus_encode` or `opus_decode` has its object exactly when
the rate in force is one of the five (`opus_ready`).
-/
import Refsapi.Revoice.OpusDecoder
import Refsapi.Revoice.OpusEncoder
import Refsapi.Revoice.Inherit

namespace Refsapi.Revoice

set_option autoImplicit false

/-! ## The rates that a stream names -/

/-- The sample rates that a stream of opcodes sets before anything else. -/
def streamRates : List UInt8 → List UInt16
  | opcode :: low :: high :: rest =>
      if PayLoadType.ofCode opcode.toNat = some .samplingRate then
        UInt16.ofNat (Bytes.toNat [low, high]) :: streamRates rest
      else []
  | _ => []

section Backend

variable {σ : Type} (B : Backend σ)

/-- The backend after the rates were set. -/
def Backend.tuned (rates : List UInt16) (backend : σ) : σ :=
  rates.foldl (fun backend rate => B.setSampleRate rate backend) backend

/-- A stream sets the rates that it names, and then decodes a payload or nothing. -/
inductive Streams (max : Int) (backend : σ) (rates : List UInt16) : Outcome σ → Prop where
  | nothing : Streams max backend rates
      ⟨rates.map .setSampleRate, ⟨0, []⟩, B.tuned rates backend⟩
  | payload (readPos : Nat) (payload : List UInt8) : Streams max backend rates
      ⟨rates.map .setSampleRate ++ [.decompress readPos payload],
        (B.decompress payload max (B.tuned rates backend)).1,
        (B.decompress payload max (B.tuned rates backend)).2⟩

variable {B}

theorem Streams.cons {max : Int} {backend : σ} {rate : UInt16} {rates : List UInt16}
    {out : Outcome σ} (streams : Streams B max (B.setSampleRate rate backend) rates out) :
    Streams B max backend (rate :: rates)
      { out with calls := .setSampleRate rate :: out.calls } := by
  cases streams with
  | nothing => exact .nothing
  | payload readPos payload => exact .payload readPos payload

theorem streams_of_payload {packet : List UInt8} {max : Int} {readPos : Nat} {backend : σ}
    {out : Outcome σ} (decodes : decodePayload B packet max readPos backend = .ok out) :
    Streams B max backend [] out := by
  rw [decodePayload] at decodes
  split at decodes
  · cases decodes
    exact .nothing
  · next size =>
      rw [read_of_le (by omega)] at decodes
      simp only [bind, Except.bind] at decodes
      split at decodes
      · cases decodes
        exact .nothing
      · next room =>
          rw [read_of_le (by omega)] at decodes
          cases decodes
          exact .payload _ _

theorem streamRates_of_ne {opcode : UInt8} {rest : List UInt8}
    (other : PayLoadType.ofCode opcode.toNat ≠ some .samplingRate) :
    streamRates (opcode :: rest) = [] := by
  match rest with
  | [] | [_] => rfl
  | low :: high :: rest => rw [streamRates, if_neg other]

theorem streamRates_of_short {opcode : UInt8} {rest : List UInt8} (short : rest.length < 2) :
    streamRates (opcode :: rest) = [] := by
  match rest, short with
  | [], _ | [_], _ => rfl

theorem streams_of_decode {packet : List UInt8} {max : Int} {rounds readPos : Nat} {backend : σ}
    {out : Outcome σ} (decodes : streamDecode B packet max rounds readPos backend = .ok out) :
    Streams B max backend (streamRates (packet.drop readPos)) out := by
  induction rounds generalizing readPos backend out with
  | zero => cases decodes
  | succ rounds ih =>
      rw [streamDecode] at decodes
      split at decodes
      · next more =>
          obtain ⟨opcode, rest, drop⟩ : ∃ opcode rest, packet.drop readPos = opcode :: rest :=
            ⟨_, _, List.drop_eq_getElem_cons more⟩
          have behind : packet.drop (readPos + 1) = rest := by rw [← List.drop_drop, drop]; rfl
          have length : rest.length = packet.length - (readPos + 1) := by
            rw [← behind, List.length_drop]
          have code : Bytes.toNat [opcode] = opcode.toNat := Nat.add_zero _
          have voice (other : PayLoadType.ofCode opcode.toNat ≠ some .samplingRate)
              (decodes : decodePayload B packet max (readPos + 1) backend = .ok out) :
              Streams B max backend (streamRates (opcode :: rest)) out := by
            rw [streamRates_of_ne other]
            exact streams_of_payload decodes
          rw [read_of_le (by omega), drop] at decodes
          rw [drop]
          simp only [bind, Except.bind, List.take_succ_cons, List.take_zero, code] at decodes
          split at decodes
          · next isRate =>
              split at decodes
              · next short =>
                  cases decodes
                  rw [streamRates_of_short (by omega)]
                  exact .nothing
              · next room =>
                  have two : 2 ≤ rest.length := by omega
                  obtain ⟨low, high, tail, rfl⟩ : ∃ low high tail, rest = low :: high :: tail := by
                    rcases rest with - | ⟨low, - | ⟨high, tail⟩⟩
                    · simp only [List.length] at two; omega
                    · simp only [List.length] at two; omega
                    · exact ⟨low, high, tail, rfl⟩
                  have next : packet.drop (readPos + 1 + 2) = tail := by
                    rw [← List.drop_drop, behind]
                    rfl
                  rw [read_of_le (by omega), behind] at decodes
                  rw [streamRates, if_pos isRate, ← next]
                  cases later : streamDecode B packet max rounds (readPos + 1 + 2)
                    (B.setSampleRate (UInt16.ofNat (Bytes.toNat [low, high])) backend) with
                  | error => simp [later] at decodes
                  | ok rest =>
                      simp only [List.take_succ_cons, List.take_zero, later] at decodes
                      cases decodes
                      exact (ih later).cons
          · next isVoice => exact voice (by rw [isVoice]; decide) decodes
          · next isVoice => exact voice (by rw [isVoice]; decide) decodes
          · next isVoice => exact voice (by rw [isVoice]; decide) decodes
          · next other _ _ _ =>
              cases decodes
              rw [streamRates_of_ne other]
              exact .nothing
      · next ends =>
          cases decodes
          rw [List.drop_eq_nil_of_le (Nat.le_of_not_lt ends)]
          exact .nothing

/-- The stream of opcodes in a packet with a valid checksum. -/
def packetStream (crc32 : List UInt8 → UInt32) (packet : List UInt8) : List UInt8 :=
  if packet.length < 12 then []
  else if (crc32 (packet.take (packet.length - 4))).toNat ≠
      Bytes.toNat ((packet.drop (packet.length - 4)).take 4) then []
  else (packet.drop 8).take (packet.length - 12)

theorem streams_of_decompress {crc32 : List UInt8 → UInt32} {packet : List UInt8} {max : Int}
    {backend : σ} {out : Outcome σ}
    (decodes : decompress B crc32 packet max backend = .ok out) :
    Streams B max backend (streamRates (packetStream crc32 packet)) out := by
  rw [decompress] at decodes
  rw [packetStream]
  split at decodes
  · next short =>
      cases decodes
      rw [if_pos short]
      exact .nothing
  · next long =>
      rw [if_neg long]
      rw [read_of_le (by omega)] at decodes
      simp only [bind, Except.bind] at decodes
      split at decodes
      · next wrong =>
          cases decodes
          rw [if_pos wrong]
          exact .nothing
      · next right =>
          rw [if_neg right]
          exact streams_of_decode decodes

end Backend

/-! ## What the library keeps of a rate -/

/-- The rates that the library takes. -/
def opusRates : List UInt16 := [8000, 12000, 16000, 24000, 48000]

/-- The rate of an object of the library, when there is one. -/
def taken (rate : UInt16) : Option UInt16 := if rate ∈ opusRates then some rate else none

/-- The library makes an encoder or a decoder for a rate that it takes, and none for another;
nothing else changes the rate of an object, or makes or frees one. -/
structure OpusLibrary (L : Libs) (opusDecode : OpusDecode L) (encoderRate : L.OpusEncoder → UInt16)
    (decoderRate : L.OpusDecoder → UInt16) : Prop where
  encoderInit : ∀ rate, (L.opusEncoderInit rate).map encoderRate = taken rate
  encoderCtl : ∀ bitRate encoder,
    encoderRate (L.opusEncoderCtl bitRate encoder) = encoderRate encoder
  encoderReset : ∀ encoder, encoderRate (L.opusEncoderReset encoder) = encoderRate encoder
  encode : ∀ block room encoder,
    (L.opusEncode block room encoder).2.map encoderRate = encoder.map encoderRate
  decoderInit : ∀ rate, (L.opusDecoderInit rate).map decoderRate = taken rate
  decoderReset : ∀ decoder, decoderRate (L.opusDecoderReset decoder) = decoderRate decoder
  decode : ∀ payload frameSize decoder,
    (opusDecode payload frameSize decoder).2.map decoderRate = decoder.map decoderRate

variable {L : Libs} {opusDecode : OpusDecode L} {encoderRate : L.OpusEncoder → UInt16}
  {decoderRate : L.OpusDecoder → UInt16}

variable (encoderRate decoderRate) in
/-- The encoder and the decoder are there when the library takes the rate, and only then. -/
structure Settled (c : Opus.Of L) : Prop where
  encoder : c.encoder.map encoderRate = taken c.samplerate
  decoder : c.decoder.map decoderRate = taken c.samplerate
  frameSize : c.frameSize = c.samplerate.toNat / 1000 * 20

namespace Settled

variable (library : OpusLibrary L opusDecode encoderRate decoderRate) {c : Opus.Of L}
include library

theorem init (none : c.decoder = none) : Settled encoderRate decoderRate (Opus.init L c) := by
  have encoders := library.encoderInit c.samplerate
  have decoders := library.decoderInit c.samplerate
  simp only [Opus.init]
  split
  · next failed =>
      rw [failed] at encoders
      exact ⟨encoders, by simpa [none] using encoders, rfl⟩
  · next encoder made =>
      rw [made, Option.map_some] at encoders
      split
      · next failed =>
          rw [failed, ← encoders] at decoders
          cases decoders
      · next decoder made =>
          rw [made, Option.map_some] at decoders
          refine ⟨?_, ?_, rfl⟩
          · simpa [Opus.resetState, library.encoderReset, library.encoderCtl] using encoders
          · simpa [Opus.resetState, library.decoderReset] using decoders

theorem resetState (settled : Settled encoderRate decoderRate c) :
    Settled encoderRate decoderRate (Opus.resetState L c) := by
  have encoders : encoderRate ∘ L.opusEncoderReset = encoderRate := funext library.encoderReset
  have decoders : decoderRate ∘ L.opusDecoderReset = decoderRate := funext library.decoderReset
  refine ⟨?_, ?_, settled.frameSize⟩
  · rw [Opus.resetState, Option.map_map, encoders]
    exact settled.encoder
  · rw [Opus.resetState, Option.map_map, decoders]
    exact settled.decoder

theorem setSampleRate (settled : Settled encoderRate decoderRate c) (rate : UInt16) :
    Settled encoderRate decoderRate (Opus.setSampleRate L rate c) := by
  rw [Opus.setSampleRate]
  split
  · exact init library rfl
  · exact settled

theorem setBitRate (settled : Settled encoderRate decoderRate c) (bitRate : Rat) :
    Settled encoderRate decoderRate (Opus.setBitRate L bitRate c) := by
  rw [Opus.setBitRate]
  split
  · exact init library rfl
  · exact settled

end Settled

/-! ## The calls of the library -/

/-- A call of `opus_encode` or of `opus_decode`: the object that it is given, and `m_samplerate`
and `m_frameSize` at the time. -/
inductive OpusUse (E D : Type) where
  | encode (encoder : Option E) (samplerate : UInt16) (frameSize : Nat)
  | decode (decoder : Option D) (samplerate : UInt16) (frameSize : Nat)

abbrev OpusUse.Of (L : Libs) : Type := OpusUse L.OpusEncoder L.OpusDecoder

/-- The object is there and was made for the sample rate, and the frame is not empty. -/
def OpusUse.Good {E D : Type} (encoderRate : E → UInt16) (decoderRate : D → UInt16) :
    OpusUse E D → Prop
  | .encode encoder samplerate frameSize =>
      encoder.map encoderRate = some samplerate ∧ 0 < frameSize
  | .decode decoder samplerate frameSize =>
      decoder.map decoderRate = some samplerate ∧ 0 < frameSize

instance {E D : Type} (encoderRate : E → UInt16) (decoderRate : D → UInt16) (use : OpusUse E D) :
    Decidable (use.Good encoderRate decoderRate) :=
  match use with
  | .encode .. => inferInstanceAs (Decidable (_ ∧ _))
  | .decode .. => inferInstanceAs (Decidable (_ ∧ _))

/-- The calls of `opus_encode` in the loop of `Compress`. -/
def Opus.encodeUses (maxCompressedBytes : Int) :
    List (List Int16) → Int → Of L → List (OpusUse.Of L)
  | [], _, _ => []
  | block :: rest, writePos, c =>
      let (call, next) := encodeCall L maxCompressedBytes block writePos c
      .encode c.encoder c.samplerate c.frameSize ::
        encodeUses maxCompressedBytes rest (writePos + call.header + call.written.result) next

def OpusAction.use? (samplerate : UInt16) : OpusAction L.OpusDecoder → Option (OpusUse.Of L)
  | .decode _ _ frameSize decoder => some (.decode decoder samplerate frameSize)
  | _ => none

/-- The calls of `opus_decode` in the loop of `Decompress`. -/
def OpusLoop.uses (s : OpusLoop.Of L) : List (OpusUse.Of L) :=
  s.actions.filterMap (OpusAction.use? s.codec.samplerate)

theorem taken_eq_some_iff (rate : UInt16) : taken rate = some rate ↔ rate ∈ opusRates := by
  rw [taken]
  split
  · next isRate => exact iff_of_true rfl isRate
  · next other => exact iff_of_false (fun none => by cases none) other

theorem frameSize_pos {rate : UInt16} (isRate : rate ∈ opusRates) : 0 < rate.toNat / 1000 * 20 := by
  have all : opusRates.all (fun rate => 0 < rate.toNat / 1000 * 20) = true := by decide
  exact of_decide_eq_true (List.all_eq_true.1 all rate isRate)

section Uses

variable {c : Opus.Of L} (settled : Settled encoderRate decoderRate c)
include settled

theorem Settled.good_encode_iff :
    (OpusUse.encode c.encoder c.samplerate c.frameSize).Good encoderRate decoderRate ↔
      c.samplerate ∈ opusRates := by
  rw [OpusUse.Good, settled.encoder, taken_eq_some_iff, settled.frameSize]
  exact and_iff_left_of_imp frameSize_pos

theorem Settled.good_decode_iff :
    (OpusUse.decode c.decoder c.samplerate c.frameSize).Good encoderRate decoderRate ↔
      c.samplerate ∈ opusRates := by
  rw [OpusUse.Good, settled.decoder, taken_eq_some_iff, settled.frameSize]
  exact and_iff_left_of_imp frameSize_pos

end Uses

section Calls

variable (library : OpusLibrary L opusDecode encoderRate decoderRate) {c : Opus.Of L}
include library

theorem Settled.encodeCall (settled : Settled encoderRate decoderRate c) (max : Int)
    (block : List Int16) (writePos : Int) :
    Settled encoderRate decoderRate (Opus.encodeCall L max block writePos c).2 ∧
      (Opus.encodeCall L max block writePos c).2.samplerate = c.samplerate := by
  have kept := library.encode block
    (min (max - (writePos + Opus.header c.packetLossConcealment)) 0x7FFF) c.encoder
  simp only [Opus.encodeCall]
  split
  · exact ⟨⟨kept.trans settled.encoder, settled.decoder, settled.frameSize⟩, rfl⟩
  · exact ⟨⟨kept.trans settled.encoder, settled.decoder, settled.frameSize⟩, rfl⟩

theorem Settled.encode (settled : Settled encoderRate decoderRate c) (max : Int)
    (blocks : List (List Int16)) (writePos : Int) :
    Settled encoderRate decoderRate (Opus.encode L max blocks writePos c).2.2 := by
  induction blocks generalizing writePos c with
  | nil => exact settled
  | cons block rest ih =>
      obtain ⟨call, c', calls, -, -, -, -, -, -, -, same⟩ :=
        Opus.encodeCall_spec max block writePos c
      have next := (settled.encodeCall library max block writePos).1
      rw [calls] at next
      rw [same]
      exact ih next _

theorem Settled.good_encodeUses (settled : Settled encoderRate decoderRate c) (max : Int)
    (blocks : List (List Int16)) (writePos : Int) :
    ∀ use ∈ Opus.encodeUses max blocks writePos c,
      (use.Good encoderRate decoderRate ↔ c.samplerate ∈ opusRates) := by
  induction blocks generalizing writePos c with
  | nil => exact fun use isUse => absurd isUse List.not_mem_nil
  | cons block rest ih =>
      intro use isUse
      obtain ⟨next, same⟩ := settled.encodeCall library max block writePos
      rcases List.mem_cons.1 isUse with rfl | later
      · exact settled.good_encode_iff
      · rw [← same]
        exact ih next _ use later

theorem Settled.compress (settled : Settled encoderRate decoderRate c) (samples : List Int16)
    (max : Int) (bFinal : Bool) :
    Settled encoderRate decoderRate (Opus.compress L samples max bFinal c).2 := by
  obtain ⟨encoder, decoder, frameSize⟩ :=
    settled.encode library max (c.chunks samples bFinal).1 0
  have rest (queue : List Int16) : Settled encoderRate decoderRate
      { (Opus.encode L max (c.chunks samples bFinal).1 0 c).2.2 with overflow := queue } :=
    ⟨encoder, decoder, frameSize⟩
  cases bFinal with
  | false => exact rest _
  | true =>
      obtain ⟨encoder, decoder, frameSize⟩ := (rest (c.chunks samples true).2).resetState library
      simp only [Opus.compress, if_true]
      split <;> exact ⟨encoder, decoder, frameSize⟩

end Calls

variable (encoderRate decoderRate) in
/-- The codec is settled at a rate, and the calls so far were good if the library takes it. -/
structure SettledLoop (rate : UInt16) (s : OpusLoop.Of L) : Prop where
  settled : Settled encoderRate decoderRate s.codec
  samplerate : s.codec.samplerate = rate
  uses : ∀ use ∈ s.uses, (use.Good encoderRate decoderRate ↔ rate ∈ opusRates)

theorem SettledLoop.act {rate : UInt16} {s t : OpusLoop.Of L} {action : OpusAction L.OpusDecoder}
    (loop : SettledLoop encoderRate decoderRate rate s)
    (settled : Settled encoderRate decoderRate t.codec) (samplerate : t.codec.samplerate = rate)
    (actions : t.actions = s.actions ++ [action])
    (good : ∀ use, action.use? rate = some use →
      (use.Good encoderRate decoderRate ↔ rate ∈ opusRates)) :
    SettledLoop encoderRate decoderRate rate t where
  settled := settled
  samplerate := samplerate
  uses use isUse := by
    rw [OpusLoop.uses, samplerate, actions, List.filterMap_append, List.mem_append] at isUse
    rcases isUse with earlier | now
    · rw [← loop.samplerate] at earlier
      exact loop.uses use earlier
    · obtain ⟨same, isAction, isUse⟩ := List.mem_filterMap.1 now
      rw [List.mem_singleton.1 isAction] at isUse
      exact good use isUse

/-- The loop of `Decompress` decodes with the decoder that is there. -/
theorem kept_settled (library : OpusLibrary L opusDecode encoderRate decoderRate)
    (input : OpusInput) (rate : UInt16) :
    OpusLoop.Kept opusDecode input (SettledLoop encoderRate decoderRate rate) where
  load len s loop := loop.act loop.settled loop.samplerate rfl fun use none => by cases none
  reset s loop :=
    loop.act (loop.settled.resetState library) loop.samplerate rfl fun use none => by cases none
  decodeSeq _ _ loop :=
    ⟨⟨loop.settled.encoder, loop.settled.decoder, loop.settled.frameSize⟩, loop.samplerate,
      loop.uses⟩
  leave _ loop := ⟨loop.settled, loop.samplerate, loop.uses⟩
  decode payload s loop _ := by
    obtain ⟨decoder, decoded, answers, same⟩ := OpusLoop.decode_eq opusDecode payload s
    have kept := library.decode payload s.codec.frameSize s.codec.decoder
    rw [answers] at kept
    rw [same]
    refine loop.act ⟨loop.settled.encoder, kept.trans loop.settled.decoder,
      loop.settled.frameSize⟩ loop.samplerate rfl fun use isUse => ?_
    obtain rfl := Option.some.inj isUse
    rw [← loop.samplerate]
    exact loop.settled.good_decode_iff
  fill s loop _ := loop.act loop.settled loop.samplerate rfl fun use none => by cases none
  silence _ loop _ := ⟨loop.settled, loop.samplerate, loop.uses⟩

theorem settled_run (library : OpusLibrary L opusDecode encoderRate decoderRate)
    (input : OpusInput) {c : Opus.Of L} (settled : Settled encoderRate decoderRate c) :
    SettledLoop encoderRate decoderRate c.samplerate (OpusLoop.run opusDecode input c) := by
  refine (kept_settled library input c.samplerate).rounds _ ⟨settled, rfl, fun use isUse => ?_⟩
  exact absurd isUse List.not_mem_nil

/-! ## Packets -/

/-- The libraries with the loop of `Decompress` over `opus_decode`; what lies behind a payload in
memory may be anything. -/
abbrev Libs.looped (L : Libs) (opusDecode : OpusDecode L) (behind : List UInt8 → Nat → UInt8) :
    Libs :=
  { L with
    opusDecompress := fun payload max c =>
      let s := OpusLoop.run opusDecode ⟨payload, behind payload, max⟩ c
      (s.decoded, s.codec) }

theorem run_looped (behind : List UInt8 → Nat → UInt8) (input : OpusInput) (c : Opus.Of L) :
    @OpusLoop.run (L.looped opusDecode behind) opusDecode input c =
      OpusLoop.run opusDecode input c := by
  have conceal (n : Nat) (s : OpusLoop.Of L) :
      @OpusLoop.conceal (L.looped opusDecode behind) opusDecode input n s =
        s.conceal opusDecode input n := by
    induction n generalizing s with
    | zero => rfl
    | succ n ih =>
        simp only [OpusLoop.conceal, ih]
        rfl
  have round (s : OpusLoop.Of L) :
      @OpusLoop.round (L.looped opusDecode behind) opusDecode input s =
        s.round opusDecode input := by
    simp only [OpusLoop.round, OpusLoop.sequence, conceal]
    rfl
  have rounds (n : Nat) (s : OpusLoop.Of L) :
      @OpusLoop.rounds (L.looped opusDecode behind) opusDecode input n s =
        s.rounds opusDecode input n := by
    induction n generalizing s with
    | zero => rfl
    | succ n ih =>
        simp only [OpusLoop.rounds, round, ih]
        rfl
  exact rounds _ _

/-- The sample rate after rates were set. -/
def rateAfter (rates : List UInt16) (samplerate : UInt16) : UInt16 := rates.getLast?.getD samplerate

theorem tuned_samplerate (rates : List UInt16) (c : Opus.Of L) :
    ((Opus.backend L).tuned rates c).samplerate = rateAfter rates c.samplerate := by
  have sets (rate : UInt16) (c : Opus.Of L) : (Opus.setSampleRate L rate c).samplerate = rate := by
    rw [Opus.setSampleRate]
    split
    · simp only [Opus.init]
      repeat' split
      all_goals rfl
    · next same => exact (not_not.1 same).symm
  induction rates generalizing c with
  | nil => rfl
  | cons rate rest ih =>
      refine (ih _).trans ?_
      rw [show ((Opus.backend L).setSampleRate rate c).samplerate = rate from sets rate c]
      cases rest with
      | nil => rfl
      | cons => simp only [rateAfter, List.getLast?_cons, Option.getD_some]

theorem Settled.tuned (library : OpusLibrary L opusDecode encoderRate decoderRate)
    (rates : List UInt16) {c : Opus.Of L} (settled : Settled encoderRate decoderRate c) :
    Settled encoderRate decoderRate ((Opus.backend L).tuned rates c) := by
  induction rates generalizing c with
  | nil => exact settled
  | cons rate rest ih => exact ih (settled.setSampleRate library rate)

variable (opusDecode) in
/-- The calls of `opus_decode` in what `StreamDecode` calls. -/
def streamUses (behind : List UInt8 → Nat → UInt8) : List Call → Opus.Of L → List (OpusUse.Of L)
  | [], _ => []
  | .setSampleRate rate :: rest, c => streamUses behind rest (Opus.setSampleRate L rate c)
  | .decompress _ payload :: rest, c =>
      let s := OpusLoop.run opusDecode ⟨payload, behind payload, bufferSize⟩ c
      s.uses ++ streamUses behind rest s.codec

variable (L opusDecode) in
/-- The library decodes payloads by the loop. -/
def Loops (behind : List UInt8 → Nat → UInt8) : Prop :=
  ∀ payload max c, L.opusDecompress payload max c =
    ((OpusLoop.run opusDecode ⟨payload, behind payload, max⟩ c).decoded,
      (OpusLoop.run opusDecode ⟨payload, behind payload, max⟩ c).codec)

theorem streamUses_tuned (behind : List UInt8 → Nat → UInt8) (rates : List UInt16)
    (rest : List Call) (c : Opus.Of L) :
    streamUses opusDecode behind (rates.map .setSampleRate ++ rest) c =
      streamUses opusDecode behind rest ((Opus.backend L).tuned rates c) := by
  induction rates generalizing c with
  | nil => rfl
  | cons rate more ih => exact ih _

theorem compress_rule {σ : Type} (B : Backend σ) {P : σ → Prop}
    (compresses : ∀ samples max bFinal s, P s → P (B.compress samples max bFinal s).2)
    (crc32 : List UInt8 → UInt32) (steamid : UInt64) (samples : List Int16) (max : Int)
    (bFinal : Bool) {s : σ} (holds : P s) :
    P (compress B crc32 steamid samples max bFinal s).2 := by
  have stream (max : Int) : P (streamEncode B samples max bFinal s).2 := by
    simp only [streamEncode]
    repeat' split
    · exact holds
    · exact compresses _ _ _ _ holds
    · exact compresses _ _ _ _ holds
  simp only [compress]
  repeat' split
  · exact holds
  · exact stream _
  · exact stream _

theorem settled_toTargets (library : OpusLibrary L opusDecode encoderRate decoderRate)
    {c : Codecs L} (settled : Settled encoderRate decoderRate c.opus.backend) (rate : UInt16)
    (samples : List Int16) :
    Settled encoderRate decoderRate (c.toTargets L rate samples).2.2.opus.backend := by
  have toOpus (samples : List Int16) :
      Settled encoderRate decoderRate (c.toOpus L samples).2.2.opus.backend :=
    compress_rule (Opus.backend L) (fun samples max bFinal c settled =>
      settled.compress library samples max bFinal) L.crc32 c.opus.steamid samples bufferSize false
      settled
  simp only [Codecs.toTargets]
  split
  · exact toOpus _
  · exact toOpus _

section Uses

variable (L opusDecode) (behind : List UInt8 → Nat → UInt8)

/-- The calls of the library that `TranscodeVoice` makes with the Opus object: the payload of an
Opus packet is decoded, and what any packet gave is encoded. -/
def Codecs.opusUses (source : CodecType) (packet : List UInt8) (originalBuf : List Int16)
    (c : Codecs L) : List (OpusUse.Of L) :=
  let decodes :=
    match Revoice.decompress (Opus.backend L) L.crc32 packet bufferSize c.opus.backend with
    | .ok out => streamUses opusDecode behind out.calls c.opus.backend
    | .error _ => []
  let encodes := match c.decompress L source packet with
    | none => []
    | some (decoded, c) =>
        if decoded.result ≤ 0 ∨ c.opus.backend.frameSize = 0 then []
        else
          let rate := c.sampleRate L source
          let samples := resampled L rate c.opus.backend.samplerate
            (L.onDecompress rate (decoded.heard originalBuf))
          -- the room that is left by the two headers around the payload
          Opus.encodeUses (bufferSize - 12 - 6) (c.opus.backend.chunks samples false).1 0
            c.opus.backend
  (if source = .opus then decodes else []) ++ encodes

variable {L} in
/-- A packet gets through to `TranscodeVoice`. -/
def Slot.hears (s : Slot L) (voiceEnable : Bool) (packet : Packet) : Bool :=
  !s.player.voiceBusy && packet.dataLength.toNat ≤ 8192 && voiceEnable && !s.player.isBlocked &&
    s.player.codecType != .none

/-- The calls of the library with the Opus object that a call on the slot makes. -/
def Slot.opusUses (s : Slot L) : Input → List (OpusUse.Of L)
  | .packet _ voiceEnable packet =>
      if s.hears voiceEnable packet then
        s.player.codecs.opusUses L opusDecode behind s.player.codecType
          (packet.readBuf s.player.recvBuff) packet.originalBuf
      else []
  | _ => []

variable {L} in
/-- The sample rate that is in force when a packet is decoded and encoded: the last one that the
packet of an Opus client names, or else the one of the object. -/
def Slot.rateInForce (s : Slot L) : Input → UInt16
  | .packet _ voiceEnable packet =>
      let samplerate := s.player.codecs.opus.backend.samplerate
      if s.hears voiceEnable packet && s.player.codecType == .opus then
        rateAfter (streamRates (packetStream L.crc32 (packet.readBuf s.player.recvBuff))) samplerate
      else samplerate
  | _ => s.player.codecs.opus.backend.samplerate

end Uses

section Packets

variable (library : OpusLibrary L opusDecode encoderRate decoderRate)
  {behind : List UInt8 → Nat → UInt8} (loops : Loops L opusDecode behind)
include library loops

/-- A packet leaves the codec settled at the last rate that it names, and its payload is decoded
at that rate. -/
theorem settled_of_decompress {c : Opus.Of L} (settled : Settled encoderRate decoderRate c)
    {packet : List UInt8} {out : Outcome (Opus.Of L)}
    (decodes : decompress (Opus.backend L) L.crc32 packet bufferSize c = .ok out) :
    Settled encoderRate decoderRate out.backend ∧
      out.backend.samplerate =
        rateAfter (streamRates (packetStream L.crc32 packet)) c.samplerate ∧
      ∀ use ∈ streamUses opusDecode behind out.calls c, (use.Good encoderRate decoderRate ↔
        rateAfter (streamRates (packetStream L.crc32 packet)) c.samplerate ∈ opusRates) := by
  have tuned := settled.tuned library (streamRates (packetStream L.crc32 packet))
  have rate := tuned_samplerate (streamRates (packetStream L.crc32 packet)) c
  cases streams_of_decompress decodes with
  | nothing =>
      refine ⟨tuned, rate, ?_⟩
      rw [← List.append_nil (List.map _ _), streamUses_tuned]
      exact fun use isUse => absurd isUse List.not_mem_nil
  | payload readPos payload =>
      have loop := settled_run library ⟨payload, behind payload, bufferSize⟩ tuned
      have decoded : (Opus.backend L).decompress payload bufferSize _ = _ := loops payload _
        ((Opus.backend L).tuned (streamRates (packetStream L.crc32 packet)) c)
      rw [decoded, streamUses_tuned, ← rate]
      refine ⟨loop.settled, loop.samplerate, ?_⟩
      rw [streamUses, streamUses, List.append_nil]
      exact loop.uses

theorem settled_of_source {source : CodecType} {packet : List UInt8} {c c' : Codecs L}
    {decoded : Decoded} (settled : Settled encoderRate decoderRate c.opus.backend)
    (decodes : c.decompress L source packet = some (decoded, c')) :
    Settled encoderRate decoderRate c'.opus.backend ∧ c'.opus.backend.samplerate =
      if source = .opus then
        rateAfter (streamRates (packetStream L.crc32 packet)) c.opus.backend.samplerate
      else c.opus.backend.samplerate := by
  cases source with
  | opus =>
      simp only [Codecs.decompress] at decodes
      cases run : decompress (Opus.backend L) L.crc32 packet bufferSize c.opus.backend with
      | error => simp [run, Except.toOption] at decodes
      | ok out =>
          rw [run] at decodes
          cases decodes
          exact ⟨(settled_of_decompress library loops settled run).1,
            (settled_of_decompress library loops settled run).2.1⟩
  | silk =>
      simp only [Codecs.decompress] at decodes
      cases run : decompress (Silk.backend L) L.crc32 packet bufferSize c.silk.backend with
      | error => simp [run, Except.toOption] at decodes
      | ok out =>
          rw [run] at decodes
          cases decodes
          exact ⟨settled, rfl⟩
  | speex | none =>
      cases decodes
      exact ⟨settled, rfl⟩

theorem settled_of_transcode {source : CodecType} {packet : List UInt8} {buf : List Int16}
    {c c' : Codecs L} {result : Transcoded} {blocks : List Output}
    (settled : Settled encoderRate decoderRate c.opus.backend)
    (run : transcodeVoice L source packet buf c = some (result, blocks, c')) :
    Settled encoderRate decoderRate c'.opus.backend := by
  rw [transcodeVoice] at run
  obtain ⟨⟨decoded, next⟩, decodes, run⟩ := Option.bind_eq_some_iff.1 run
  have source := (settled_of_source library loops settled decodes).1
  simp only at run
  split at run
  · cases run
  · split at run
    · cases run
      exact source
    · split at run
      · cases run
      · have codecs := congrArg (fun out => out.2.2) (Option.some.inj run)
        simp only at codecs
        rw [← codecs]
        exact settled_toTargets library source ..

theorem settled_of_parse {now : Int} {voiceEnable : Bool} {packet : Packet} {s s' : Slot L}
    {out : List Output} (settled : Settled encoderRate decoderRate s.player.codecs.opus.backend)
    (moved : s.parseVoiceData L now voiceEnable packet = some (out, s')) :
    Settled encoderRate decoderRate s'.player.codecs.opus.backend := by
  rw [Slot.parseVoiceData] at moved
  repeat' split at moved
  case isFalse.isFalse.isFalse.isFalse =>
    rw [Slot.transcode] at moved
    split at moved
    · cases moved
      exact settled
    · obtain ⟨⟨result, blocks, codecs⟩, run, ends⟩ := Option.bind_eq_some_iff.1 moved
      have after : Settled encoderRate decoderRate codecs.opus.backend :=
        settled_of_transcode library loops settled run
      have kept {p : Player L} (settled : Settled encoderRate decoderRate p.codecs.opus.backend) :
          Settled encoderRate decoderRate (p.transcoded result).2.codecs.opus.backend := by
        cases result with
        | ok => exact settled
        | decode | codec =>
            simp only [Player.transcoded, Player.failed]
            split <;> exact settled
      cases ends
      exact kept after
  all_goals
    cases moved
    exact settled

theorem settled_of_step {s s' : Slot L} {i : Input} {out : List Output}
    (settled : Settled encoderRate decoderRate s.player.codecs.opus.backend)
    (moved : s.step L i = some (out, s')) :
    Settled encoderRate decoderRate s'.player.codecs.opus.backend := by
  by_cases isPacket : ∃ now voiceEnable packet, i = .packet now voiceEnable packet
  · obtain ⟨now, voiceEnable, packet, rfl⟩ := isPacket
    exact settled_of_parse library loops settled moved
  · have called := called_of_step moved fun now voiceEnable packet same =>
      isPacket ⟨now, voiceEnable, packet, same⟩
    generalize s'.player = after at called ⊢
    cases called with
    | drop | sets => exact settled
    | connect client =>
        simp only [Player.onConnected]
        repeat' split
        · exact settled
        · exact settled
        all_goals exact settled.resetState library
    | updateBitrate bitRate =>
        simp only [Player.updateBitrate]
        split
        · exact settled.setBitRate library bitRate
        · exact settled

/-- In every reachable state the Opus object is settled. -/
theorem settled_of_reachable {s : Slot L} (run : (slotMachine L).Reachable s) :
    Settled encoderRate decoderRate s.player.codecs.opus.backend := by
  refine Machine.Reaches.invariant (I := fun s : Slot L =>
    Settled encoderRate decoderRate s.player.codecs.opus.backend) ?_ ?_ run
  · rintro s rfl
    exact Settled.init library rfl
  · intro s i s' _ settled _ moved
    obtain ⟨⟨out, next⟩, called, rfl⟩ := Option.map_eq_some_iff.1 moved
    exact settled_of_step library loops settled called

theorem good_of_packet {source : CodecType} {packet : List UInt8} {originalBuf : List Int16}
    {c : Codecs L} (settled : Settled encoderRate decoderRate c.opus.backend) :
    ∀ use ∈ c.opusUses L opusDecode behind source packet originalBuf,
      (use.Good encoderRate decoderRate ↔ (if source = .opus then
          rateAfter (streamRates (packetStream L.crc32 packet)) c.opus.backend.samplerate
        else c.opus.backend.samplerate) ∈ opusRates) := by
  intro use isUse
  rcases List.mem_append.1 isUse with decodes | encodes
  · split at decodes
    · next isOpus =>
        rw [if_pos isOpus]
        split at decodes
        · next out run => exact (settled_of_decompress library loops settled run).2.2 use decodes
        · exact absurd decodes List.not_mem_nil
    · exact absurd decodes List.not_mem_nil
  · split at encodes
    · exact absurd encodes List.not_mem_nil
    · next decoded next run =>
        obtain ⟨after, rate⟩ := settled_of_source library loops settled run
        split at encodes
        · exact absurd encodes List.not_mem_nil
        · rw [← rate]
          exact after.good_encodeUses library _ _ _ use encodes

theorem good_of_step {s : Slot L}
    (settled : Settled encoderRate decoderRate s.player.codecs.opus.backend) (i : Input) :
    ∀ use ∈ s.opusUses L opusDecode behind i,
      (use.Good encoderRate decoderRate ↔ s.rateInForce i ∈ opusRates) := by
  intro use isUse
  cases i with
  | packet now voiceEnable packet =>
      rw [Slot.opusUses] at isUse
      split at isUse
      · next heard =>
          have good := good_of_packet library loops settled use isUse
          simpa only [Slot.rateInForce, heard, Bool.true_and, beq_iff_eq] using good
      · exact absurd isUse List.not_mem_nil
  | frame | drop | connect | command | cvarValue | updatePlayers | updateHltv | updateBitrate
  | mute | block => exact absurd isUse List.not_mem_nil

end Packets

/-- **A codec is used with its objects at the rates that the library takes.**  In every reachable
state of a slot, each call of `opus_encode` and `opus_decode` that a packet leads to has an object
that was made for the sample rate of the codec, and a frame that is not empty, exactly when the
rate in force is one that the library takes; so in a run whose packets all leave such a rate in
force every call does. -/
theorem opus_ready (L : Libs) (opusDecode : OpusDecode L) (behind : List UInt8 → Nat → UInt8)
    (encoderRate : L.OpusEncoder → UInt16) (decoderRate : L.OpusDecoder → UInt16)
    (library : OpusLibrary L opusDecode encoderRate decoderRate) :
    (∀ s, (slotMachine (L.looped opusDecode behind)).Reaches
        (fun s i => s.rateInForce i ∈ opusRates) s → ∀ i, s.rateInForce i ∈ opusRates →
      ∀ use ∈ s.opusUses (L.looped opusDecode behind) opusDecode behind i,
        use.Good encoderRate decoderRate) ∧
    ∀ s, (slotMachine (L.looped opusDecode behind)).Reachable s → ∀ i,
      ∀ use ∈ s.opusUses (L.looped opusDecode behind) opusDecode behind i,
        (use.Good encoderRate decoderRate ↔ s.rateInForce i ∈ opusRates) := by
  have same : OpusLibrary (L.looped opusDecode behind) opusDecode encoderRate decoderRate :=
    ⟨library.encoderInit, library.encoderCtl, library.encoderReset, library.encode,
      library.decoderInit, library.decoderReset, library.decode⟩
  have loops : Loops (L.looped opusDecode behind) opusDecode behind := fun payload max c => by
    rw [run_looped]
    rfl
  constructor
  · intro s run i inForce use isUse
    exact (good_of_step same loops (settled_of_reachable same loops run.reachable) i use isUse).2
      inForce
  · intro s run i use isUse
    exact good_of_step same loops (settled_of_reachable same loops run) i use isUse

/-- An Opus library whose objects are their rates. -/
abbrev Libs.rated : Libs :=
  { Libs.plain with
    OpusEncoder := UInt16
    opusEncoderInit := taken
    opusEncoderCtl := fun _ encoder => encoder
    opusEncode := fun _ _ encoder => (⟨1, [0]⟩, encoder)
    opusEncoderReset := fun encoder => encoder
    OpusDecoder := UInt16
    opusDecoderInit := taken
    opusDecoderReset := fun decoder => decoder
    opusDecompress := fun _ _ c => (⟨0, []⟩, c) }

/-- Its `opus_decode`, which is silent. -/
def OpusDecode.rated : OpusDecode Libs.rated :=
  fun _ frameSize decoder => (⟨frameSize, List.replicate frameSize 0⟩, decoder)

theorem library_rated : OpusLibrary Libs.rated OpusDecode.rated id id where
  encoderInit _ := Option.map_id_apply
  encoderCtl _ _ := rfl
  encoderReset _ := rfl
  encode _ _ _ := rfl
  decoderInit _ := Option.map_id_apply
  decoderReset _ := rfl
  decode _ _ _ := rfl

/-- A Steam packet that names a rate and has one frame with a payload of one byte. -/
def ratedPacket (low high : UInt8) : Packet :=
  ⟨23, List.replicate 8 0 ++ [11, low, high, 6, 5, 0, 1, 0, 0, 0, 7] ++ List.replicate 4 0, []⟩

/-- The libraries that the model is run with. -/
abbrev Libs.running : Libs := Libs.rated.looped .rated fun _ _ => 0

/-- A client whose codec is Opus. -/
def Client.opus : Client := { Client.plain with defaultCodec := "opus" }

theorem opus_ready_16000 : ∃ s, (slotMachine Libs.running).Reaches
    (fun s i => s.rateInForce i ∈ opusRates) s ∧
    ∀ use ∈ s.opusUses Libs.running .rated (fun _ _ => 0) (.packet 0 true (ratedPacket 0x80 0x3E)),
      use.Good id id := by
  have ends : ((slotMachine Libs.running).execIf (fun s i => decide (s.rateInForce i ∈ opusRates))
      (Slot.new Libs.running) [.connect .opus]).map (fun s =>
        decide (s.rateInForce (.packet 0 true (ratedPacket 0x80 0x3E)) ∈ opusRates)) =
      some true := by
    decide +kernel
  have runs : ∃ s, (slotMachine Libs.running).Reaches (fun s i => s.rateInForce i ∈ opusRates) s ∧
      decide (s.rateInForce (.packet 0 true (ratedPacket 0x80 0x3E)) ∈ opusRates) = true :=
    Machine.exists_reaches (fun s i passes => of_decide_eq_true passes) rfl ends
  obtain ⟨s, run, inForce⟩ := runs
  exact ⟨s, run, (opus_ready Libs.rated .rated (fun _ _ => 0) id id library_rated).1 s run _
    (of_decide_eq_true inForce)⟩

/-- A packet that names 11025 Hz has its payload decoded without a decoder. -/
theorem not_always_ready : ¬ ∀ s, (slotMachine Libs.running).Reachable s → ∀ i,
    ∀ use ∈ s.opusUses Libs.running .rated (fun _ _ => 0) i, use.Good id id := by
  intro always
  have ends : ((slotMachine Libs.running).exec (Slot.new Libs.running) [.connect .opus]).map
      (fun s => (s.opusUses Libs.running .rated (fun _ _ => 0)
        (.packet 0 true (ratedPacket 0x11 0x2B))).any fun use => !decide (use.Good id id)) =
      some true := by
    decide +kernel
  have runs : ∃ s, (slotMachine Libs.running).Reachable s ∧ _ :=
    Machine.exists_reachable rfl ends
  obtain ⟨s, run, wrong⟩ := runs
  obtain ⟨use, isUse, bad⟩ := List.any_eq_true.1 wrong
  rw [Bool.not_eq_true', decide_eq_false_iff_not] at bad
  exact bad (always s run _ use isUse)

end Refsapi.Revoice
