/-
# Revoice.SteamP2P -- the Steam voice packet

`SteamP2PCodec.cpp` of the voice transcoder.  A packet is a steam id, a stream of
opcodes and the checksum of both; the stream that `CSteamP2PCodec::StreamEncode`
writes sets a sample rate and then carries one voice payload of its backend.

Memory is a list of bytes, and what is read of a packet goes through `read`,
which fails outside the packet.  A run of `streamDecode` returns the calls that
it made of the backend beside the backend it left.
-/
import Refsapi.Lib.Bytes
import Mathlib.Tactic.Common

namespace Refsapi.Revoice

set_option autoImplicit false

/-- `CSteamP2PCodec::PayLoadType` -/
inductive PayLoadType where
  | silence | unknownCodec | speex | raw | silk | opus | opusPlc | unknown | samplingRate
  deriving DecidableEq, Repr

namespace PayLoadType

def code : PayLoadType → UInt8
  | silence => 0
  | unknownCodec => 1
  | speex => 2
  | raw => 3
  | silk => 4
  | opus => 5
  | opusPlc => 6
  | unknown => 10
  | samplingRate => 11

/-- The opcode of a byte, when it is one. -/
def ofCode (b : Nat) : Option PayLoadType :=
  [silence, unknownCodec, speex, raw, silk, opus, opusPlc, unknown, samplingRate].find?
    fun opcode => opcode.code.toNat == b

@[simp] theorem ofCode_code (opcode : PayLoadType) : ofCode opcode.code.toNat = some opcode := by
  cases opcode <;> rfl

end PayLoadType

/-- What a call of `IVoiceCodec::Compress` returned, and the bytes that it wrote
from its output pointer on. -/
structure Encoded where
  result : Int
  bytes : List UInt8
  deriving DecidableEq, Repr

/-- What a call of `IVoiceCodec::Decompress` returned, and the samples that it
wrote. -/
structure Decoded where
  result : Int
  samples : List Int16
  deriving DecidableEq, Repr

/-- The encoders that a `CSteamP2PCodec` of the transcoder is built over. -/
inductive Encoder where
  | silk | opus
  deriving DecidableEq, Repr

/-- `VoiceEncoder_Silk::CodecType` and `VoiceEncoder_Opus::CodecType` -/
def Encoder.codecType : Encoder → PayLoadType
  | silk => .silk
  | opus => .opusPlc

/-- The `IVoiceCodec` behind a `CSteamP2PCodec`, with the state of its object. -/
structure Backend (σ : Type) where
  encoder : Encoder
  sampleRate : σ → UInt16
  setSampleRate : UInt16 → σ → σ
  compress : List Int16 → Int → Bool → σ → Encoded × σ
  decompress : List UInt8 → Int → σ → Decoded × σ

/-- A call that `StreamDecode` makes of the backend; a payload comes with its
offset in the packet. -/
inductive Call where
  | setSampleRate (rate : UInt16)
  | decompress (readPos : Nat) (payload : List UInt8)
  deriving DecidableEq, Repr

/-- Why a run of `streamDecode` has no result: it read outside the packet, or
it was given too few rounds of its loop. -/
inductive Stop where
  | outside | spent
  deriving DecidableEq, Repr

structure Outcome (σ : Type) where
  calls : List Call
  decoded : Decoded
  backend : σ

def read (packet : List UInt8) (readPos len : Nat) : Except Stop (List UInt8) :=
  (Bytes.load packet readPos len).elim (.error .outside) .ok

section Codec

variable {σ : Type} (B : Backend σ)

/-- The voice payload of `StreamDecode`, behind its opcode. -/
def decodePayload (packet : List UInt8) (maxUncompressedBytes : Int) (readPos : Nat)
    (backend : σ) : Except Stop (Outcome σ) := do
  if packet.length < readPos + 2 then return ⟨[], ⟨0, []⟩, backend⟩
  let len ← read packet readPos 2
  let len := Bytes.toNat len
  if packet.length < readPos + 2 + len then return ⟨[], ⟨0, []⟩, backend⟩
  let payload ← read packet (readPos + 2) len
  let (decoded, backend) := B.decompress payload maxUncompressedBytes backend
  return ⟨[.decompress (readPos + 2) payload], decoded, backend⟩

/-- `CSteamP2PCodec::StreamDecode` from the round of its loop at `readPos`. -/
def streamDecode (packet : List UInt8) (maxUncompressedBytes : Int) :
    Nat → Nat → σ → Except Stop (Outcome σ)
  | 0, _, _ => .error .spent
  | rounds + 1, readPos, backend =>
      if readPos < packet.length then do
        let opcode ← read packet readPos 1
        let readPos := readPos + 1
        match PayLoadType.ofCode (Bytes.toNat opcode) with
        | some .samplingRate =>
            if packet.length < readPos + 2 then return ⟨[], ⟨0, []⟩, backend⟩
            let rate ← read packet readPos 2
            let rate := UInt16.ofNat (Bytes.toNat rate)
            let rest ← streamDecode packet maxUncompressedBytes rounds (readPos + 2)
              (B.setSampleRate rate backend)
            return { rest with calls := .setSampleRate rate :: rest.calls }
        | some .silk | some .opus | some .opusPlc =>
            decodePayload B packet maxUncompressedBytes readPos backend
        | _ => return ⟨[], ⟨0, []⟩, backend⟩
      else
        -- no voice payload in the stream
        return ⟨[], ⟨0, []⟩, backend⟩

/-- `CSteamP2PCodec::StreamEncode`: the bytes are those up to what it returns. -/
def streamEncode (pUncompressed : List Int16) (maxCompressedBytes : Int) (bFinal : Bool)
    (backend : σ) : Encoded × σ :=
  if maxCompressedBytes < 10 then (⟨0, []⟩, backend)
  else
    let header := PayLoadType.samplingRate.code ::
      (Bytes.ofNat 2 (B.sampleRate backend).toNat ++ [B.encoder.codecType.code])
    let (compressed, backend) :=
      B.compress pUncompressed (maxCompressedBytes - (1 + 2 + 1 + 2)) bFinal backend
    if compressed.result = 0 then (⟨0, []⟩, backend)
    else
      let size := Bytes.ofNat 2 (compressed.result % 65536).toNat
      (⟨6 + compressed.result,
        (header ++ size ++ compressed.bytes).take (6 + compressed.result).toNat⟩, backend)

variable (crc32 : List UInt8 → UInt32)

/-- `CSteamP2PCodec::Decompress` -/
def decompress (packet : List UInt8) (maxUncompressedBytes : Int) (backend : σ) :
    Except Stop (Outcome σ) := do
  if packet.length < 12 then return ⟨[], ⟨0, []⟩, backend⟩
  let computedChecksum := crc32 (packet.take (packet.length - 4))
  let wireChecksum ← read packet (packet.length - 4) 4
  if computedChecksum.toNat ≠ Bytes.toNat wireChecksum then return ⟨[], ⟨0, []⟩, backend⟩
  let stream := (packet.drop 8).take (packet.length - 12)
  streamDecode B stream maxUncompressedBytes (stream.length + 1) 0 backend

/-- `CSteamP2PCodec::Compress` -/
def compress (steamid : UInt64) (pUncompressed : List Int16) (maxCompressedBytes : Int)
    (bFinal : Bool) (backend : σ) : Encoded × σ :=
  if maxCompressedBytes < 12 then (⟨0, []⟩, backend)
  else
    let (stream, backend) := streamEncode B pUncompressed (maxCompressedBytes - 12) bFinal backend
    if stream.result ≤ 0 then (⟨0, []⟩, backend)
    else
      let packet := Bytes.ofNat 8 steamid.toNat ++ stream.bytes
      (⟨8 + stream.result + 4, packet ++ Bytes.ofNat 4 (crc32 packet).toNat⟩, backend)

end Codec

/-! ## Decoding reads inside the packet -/

/-- What the backend was given of the packet is a range of it. -/
def Outcome.Inside {σ : Type} (out : Outcome σ) (packet : List UInt8) : Prop :=
  ∀ readPos payload, Call.decompress readPos payload ∈ out.calls →
    Bytes.load packet readPos payload.length = some payload

theorem read_of_le {packet : List UInt8} {readPos len : Nat}
    (inside : readPos + len ≤ packet.length) :
    read packet readPos len = .ok ((packet.drop readPos).take len) := by
  rw [read, Bytes.load_of_le inside]
  rfl

theorem read_of_load {packet bytes : List UInt8} {readPos len : Nat}
    (loads : Bytes.load packet readPos len = some bytes) : read packet readPos len = .ok bytes := by
  rw [read, loads]
  rfl

theorem inside_nil {σ : Type} (packet : List UInt8) (decoded : Decoded) (backend : σ) :
    Outcome.Inside ⟨[], decoded, backend⟩ packet := by
  intro readPos payload given
  cases given

theorem decodePayload_inside {σ : Type} (B : Backend σ) (packet : List UInt8) (max : Int)
    (readPos : Nat) (backend : σ) :
    ∃ out, decodePayload B packet max readPos backend = .ok out ∧ out.Inside packet := by
  rw [decodePayload]
  split
  · exact ⟨_, rfl, inside_nil packet _ _⟩
  · next size =>
      rw [read_of_le (by omega)]
      simp only [bind, Except.bind]
      split
      · exact ⟨_, rfl, inside_nil packet _ _⟩
      · next room =>
          rw [read_of_le (by omega)]
          refine ⟨_, rfl, fun start payload given => ?_⟩
          simp only [List.mem_singleton, Call.decompress.injEq] at given
          obtain ⟨rfl, rfl⟩ := given
          have loads := Bytes.load_of_le (Nat.le_of_not_lt room)
          rwa [Bytes.length_of_load loads]

/-- Every round but the last moves on by three bytes. -/
theorem streamDecode_inside {σ : Type} (B : Backend σ) (packet : List UInt8) (max : Int)
    {rounds readPos : Nat} (backend : σ) (within : readPos ≤ packet.length)
    (enough : packet.length < readPos + rounds) :
    ∃ out, streamDecode B packet max rounds readPos backend = .ok out ∧ out.Inside packet := by
  induction rounds generalizing readPos backend with
  | zero => omega
  | succ rounds ih =>
      rw [streamDecode]
      split
      · next more =>
          rw [read_of_le (by omega)]
          simp only [bind, Except.bind]
          split
          · split
            · exact ⟨_, rfl, inside_nil packet _ _⟩
            · next rate =>
                rw [read_of_le (by omega)]
                have next (backend : σ) := ih backend
                  (show readPos + 1 + 2 ≤ packet.length by omega) (by omega)
                obtain ⟨rest, decodes, inside⟩ := next (B.setSampleRate
                  (UInt16.ofNat (Bytes.toNat ((packet.drop (readPos + 1)).take 2))) backend)
                simp only [decodes]
                refine ⟨_, rfl, fun start payload given => inside start payload ?_⟩
                simpa using given
          · exact decodePayload_inside ..
          · exact decodePayload_inside ..
          · exact decodePayload_inside ..
          · exact ⟨_, rfl, inside_nil packet _ _⟩
      · exact ⟨_, rfl, inside_nil packet _ _⟩

/-! ## The round trip -/

/-- The stream that `StreamEncode` writes. -/
def stream (rate : UInt16) (encoder : Encoder) (payload : List UInt8) : List UInt8 :=
  PayLoadType.samplingRate.code :: (Bytes.ofNat 2 rate.toNat ++
    encoder.codecType.code :: (Bytes.ofNat 2 payload.length ++ payload))

theorem length_stream (rate : UInt16) (encoder : Encoder) (payload : List UInt8) :
    (stream rate encoder payload).length = payload.length + 6 := by
  simp only [stream, List.length_cons, List.length_append, Bytes.length_ofNat]
  omega

theorem decodePayload_stream {σ : Type} (B : Backend σ) (rate : UInt16) (encoder : Encoder)
    {payload : List UInt8} (short : payload.length < 65536) (max : Int) (backend : σ) :
    decodePayload B (stream rate encoder payload) max 4 backend =
      .ok ⟨[.decompress 6 payload], (B.decompress payload max backend).1,
        (B.decompress payload max backend).2⟩ := by
  have length := length_stream rate encoder payload
  have len : read (stream rate encoder payload) 4 2 = .ok (Bytes.ofNat 2 payload.length) :=
    read_of_load (Bytes.load_append (PayLoadType.samplingRate.code ::
      (Bytes.ofNat 2 rate.toNat ++ [encoder.codecType.code])) (Bytes.ofNat 2 payload.length)
      payload)
  have voice : read (stream rate encoder payload) 6 payload.length = .ok payload := by
    refine read_of_load ?_
    have := Bytes.load_append (PayLoadType.samplingRate.code :: (Bytes.ofNat 2 rate.toNat ++
      encoder.codecType.code :: Bytes.ofNat 2 payload.length)) payload []
    rwa [List.append_nil] at this
  rw [decodePayload, if_neg (by omega), len]
  simp only [bind, Except.bind]
  rw [Bytes.toNat_ofNat_of_lt (show payload.length < 256 ^ 2 from short), if_neg (by omega), voice]
  rfl

theorem streamDecode_stream {σ : Type} (B : Backend σ) (rate : UInt16) (encoder : Encoder)
    {payload : List UInt8} (short : payload.length < 65536) (max : Int) (rounds : Nat)
    (backend : σ) :
    streamDecode B (stream rate encoder payload) max (rounds + 2) 0 backend =
      .ok ⟨[.setSampleRate rate, .decompress 6 payload],
        (B.decompress payload max (B.setSampleRate rate backend)).1,
        (B.decompress payload max (B.setSampleRate rate backend)).2⟩ := by
  have length := length_stream rate encoder payload
  have first : read (stream rate encoder payload) 0 1 = .ok [PayLoadType.samplingRate.code] :=
    read_of_load (Bytes.load_append [] [PayLoadType.samplingRate.code] _)
  have sampleRate : read (stream rate encoder payload) 1 2 = .ok (Bytes.ofNat 2 rate.toNat) :=
    read_of_load (Bytes.load_append [PayLoadType.samplingRate.code] (Bytes.ofNat 2 rate.toNat) _)
  have second : read (stream rate encoder payload) 3 1 = .ok [encoder.codecType.code] :=
    read_of_load (Bytes.load_append (PayLoadType.samplingRate.code :: Bytes.ofNat 2 rate.toNat)
      [encoder.codecType.code] (Bytes.ofNat 2 payload.length ++ payload))
  have back : UInt16.ofNat (Bytes.toNat (Bytes.ofNat 2 rate.toNat)) = rate := by
    rw [Bytes.toNat_ofNat_of_lt rate.toNat_lt, UInt16.ofNat_toNat]
  have voice : streamDecode B (stream rate encoder payload) max (rounds + 1) 3
      (B.setSampleRate rate backend) = decodePayload B (stream rate encoder payload) max 4
        (B.setSampleRate rate backend) := by
    rw [streamDecode, if_pos (by omega), second]
    cases encoder <;> rfl
  rw [streamDecode, if_pos (by omega), first]
  simp only [bind, Except.bind]
  rw [show Bytes.toNat [PayLoadType.samplingRate.code] = PayLoadType.samplingRate.code.toNat
    from rfl, PayLoadType.ofCode_code]
  simp only
  rw [if_neg (by omega), sampleRate]
  simp only [back]
  rw [voice, decodePayload_stream B rate encoder short]
  rfl

/-- The packet that `Compress` writes. -/
def steamPacket (crc32 : List UInt8 → UInt32) (steamid : UInt64) (stream : List UInt8) :
    List UInt8 :=
  Bytes.ofNat 8 steamid.toNat ++ stream ++
    Bytes.ofNat 4 (crc32 (Bytes.ofNat 8 steamid.toNat ++ stream)).toNat

theorem length_steamPacket (crc32 : List UInt8 → UInt32) (steamid : UInt64) (stream : List UInt8) :
    (steamPacket crc32 steamid stream).length = stream.length + 12 := by
  simp only [steamPacket, List.length_append, Bytes.length_ofNat]
  omega

/-- A packet with its own checksum is decoded as the stream in it. -/
theorem decompress_steamPacket {σ : Type} (B : Backend σ) (crc32 : List UInt8 → UInt32)
    (steamid : UInt64) (stream : List UInt8) (max : Int) (backend : σ) :
    decompress B crc32 (steamPacket crc32 steamid stream) max backend =
      streamDecode B stream max (stream.length + 1) 0 backend := by
  have length := length_steamPacket crc32 steamid stream
  have signed : (steamPacket crc32 steamid stream).take (stream.length + 12 - 4) =
      Bytes.ofNat 8 steamid.toNat ++ stream := by
    refine List.take_left' ?_
    rw [List.length_append, Bytes.length_ofNat]
    omega
  have wire : read (steamPacket crc32 steamid stream) (stream.length + 12 - 4) 4 =
      .ok (Bytes.ofNat 4 (crc32 (Bytes.ofNat 8 steamid.toNat ++ stream)).toNat) := by
    refine read_of_load ?_
    have := Bytes.load_append (Bytes.ofNat 8 steamid.toNat ++ stream)
      (Bytes.ofNat 4 (crc32 (Bytes.ofNat 8 steamid.toNat ++ stream)).toNat) []
    rw [List.append_nil, List.length_append, Bytes.length_ofNat, Bytes.length_ofNat] at this
    rw [show stream.length + 12 - 4 = 8 + stream.length by omega]
    exact this
  have inner : ((steamPacket crc32 steamid stream).drop 8).take (stream.length + 12 - 12) =
      stream := by
    rw [steamPacket, List.append_assoc, List.drop_left' (Bytes.length_ofNat 8 _),
      Nat.add_sub_cancel, List.take_left]
  rw [decompress, if_neg (by omega), length, wire, signed, inner]
  simp only [bind, Except.bind]
  rw [Bytes.toNat_ofNat_of_lt (UInt32.toNat_lt _), if_neg (fun differs => differs rfl)]

theorem streamEncode_eq {σ : Type} {B : Backend σ} {samples : List Int16} {max : Int} {final : Bool}
    {backend after : σ} {payload : List UInt8} (room : 10 ≤ max)
    (compressed : B.compress samples (max - 6) final backend = (⟨payload.length, payload⟩, after))
    (some : payload ≠ []) (short : payload.length < 65536) :
    streamEncode B samples max final backend =
      (⟨6 + payload.length, stream (B.sampleRate backend) B.encoder payload⟩, after) := by
  have nonzero : (payload.length : Int) ≠ 0 := by simpa using some
  have size : ((payload.length : Int) % 65536).toNat = payload.length := by omega
  rw [streamEncode, if_neg (by omega)]
  simp only [show max - (1 + 2 + 1 + 2) = max - 6 by omega, compressed, if_neg nonzero, size]
  rw [List.take_of_length_le]
  · simp [stream]
  · simp only [List.length_cons, List.length_append, Bytes.length_ofNat, List.length_nil]
    omega

/-- There is room for the packet: it is written, and it fits. -/
theorem compress_eq {σ : Type} {B : Backend σ} (crc32 : List UInt8 → UInt32) (steamid : UInt64)
    {samples : List Int16} {max : Int} {final : Bool} {backend after : σ} {payload : List UInt8}
    (room : 22 ≤ max)
    (compressed : B.compress samples (max - 18) final backend = (⟨payload.length, payload⟩, after))
    (some : payload ≠ []) (short : payload.length < 65536) :
    compress B crc32 steamid samples max final backend =
      (⟨payload.length + 18,
        steamPacket crc32 steamid (stream (B.sampleRate backend) B.encoder payload)⟩, after) := by
  have encoded := streamEncode_eq (show 10 ≤ max - 12 by omega)
    (show B.compress samples (max - 12 - 6) final backend = _ by
      rw [show max - 12 - 6 = max - 18 by omega]
      exact compressed) some short
  rw [compress, if_neg (by omega), encoded]
  simp only [if_neg (show ¬ (6 + (payload.length : Int)) ≤ 0 by omega)]
  rw [show (8 : Int) + (6 + payload.length) + 4 = payload.length + 18 by omega]
  rfl

theorem streamEncode_zero {σ : Type} (B : Backend σ) (samples : List Int16) (max : Int)
    (final : Bool) {backend after : σ}
    (nothing : max < 10 ∨ B.compress samples (max - 6) final backend = (⟨0, []⟩, after)) :
    (streamEncode B samples max final backend).1 = ⟨0, []⟩ := by
  rw [streamEncode]
  split
  · rfl
  · next room =>
      have compressed := nothing.resolve_left room
      simp only [show max - (1 + 2 + 1 + 2) = max - 6 by omega, compressed]
      rfl

/-- There is no room, or no payload: nothing is written. -/
theorem compress_zero {σ : Type} (B : Backend σ) (crc32 : List UInt8 → UInt32) (steamid : UInt64)
    (samples : List Int16) {max : Int} (final : Bool) {backend after : σ}
    (nothing : max < 22 ∨ B.compress samples (max - 18) final backend = (⟨0, []⟩, after)) :
    (compress B crc32 steamid samples max final backend).1 = ⟨0, []⟩ := by
  have zero := streamEncode_zero B samples (max - 12) final
    (nothing.imp (fun less => show max - 12 < 10 by omega) fun compressed => by
      rwa [show max - 12 - 6 = max - 18 by omega])
  rw [compress]
  split
  · rfl
  · simp only [zero]
    rfl

/-- **The Steam packet round trip.**  Nothing is written where there is no room for a packet.  Where
there is, and the backend keeps to the room that it is given, a packet is not written only when the
backend has no payload; a packet that is written fits, and whoever decodes it sets the sample rate
and is handed the payload, once.  And whatever the bytes are, decoding a stream ends, reads only
inside the stream and hands over a range of it. -/
theorem steam_round_trip (crc32 : List UInt8 → UInt32) :
    (∀ {σ τ : Type} (B : Backend σ) (R : Backend τ) (steamid : UInt64) (samples : List Int16)
      (max : Int) (final : Bool) (backend : σ) (receiver : τ), 12 ≤ max →
      let written := (compress B crc32 steamid samples max final backend).1
      (max < 22 → written.result = 0) ∧
      ∀ (payload : List UInt8) (after : σ), 22 ≤ max →
        B.compress samples (max - 18) final backend = (⟨payload.length, payload⟩, after) →
        (payload.length : Int) ≤ max - 18 → payload.length ≤ 65535 →
        written.result = 0 ∧ payload = [] ∨
        written.result = written.bytes.length ∧ written.result ≤ max ∧
          ∀ maxUncompressed, decompress R crc32 written.bytes maxUncompressed receiver =
            .ok ⟨[.setSampleRate (B.sampleRate backend), .decompress 6 payload],
              (R.decompress payload maxUncompressed
                (R.setSampleRate (B.sampleRate backend) receiver)).1,
              (R.decompress payload maxUncompressed
                (R.setSampleRate (B.sampleRate backend) receiver)).2⟩) ∧
    ∀ {σ : Type} (B : Backend σ) (packet : List UInt8) (max : Int) (backend : σ) (rounds : Nat),
      packet.length < rounds →
        ∃ out, streamDecode B packet max rounds 0 backend = .ok out ∧ out.Inside packet := by
  constructor
  · intro σ τ B R steamid samples max final backend receiver _ written
    constructor
    · intro less
      have none : max < 22 ∨ B.compress samples (max - 18) final backend = (⟨0, []⟩, backend) :=
        .inl less
      simp only [written, compress_zero B crc32 steamid samples final none]
    · intro payload after room compressed fits short
      by_cases empty : payload = []
      · refine .inl ⟨?_, empty⟩
        rw [empty] at compressed
        simp only [written, compress_zero B crc32 steamid samples final (.inr compressed)]
      · have wrote := compress_eq crc32 steamid room compressed empty
          (show payload.length < 65536 by omega)
        have length := length_steamPacket crc32 steamid
          (stream (B.sampleRate backend) B.encoder payload)
        have inner := length_stream (B.sampleRate backend) B.encoder payload
        refine .inr ⟨?_, ?_, fun maxUncompressed => ?_⟩
        · simp only [written, wrote, length, inner]
          omega
        · simp only [written, wrote]
          omega
        · simp only [written, wrote]
          rw [decompress_steamPacket, inner]
          exact streamDecode_stream R (B.sampleRate backend) B.encoder (by omega) maxUncompressed
            (payload.length + 5) receiver
  · intro σ B packet max backend rounds enough
    exact streamDecode_inside B packet max backend (Nat.zero_le _) (by omega)

/-- A backend that sends the three bytes of a tone while there is room. -/
def tone : Backend UInt16 where
  encoder := .opus
  sampleRate rate := rate
  setSampleRate rate _ := rate
  compress _ room _ rate := (if 3 ≤ room then ⟨3, [7, 7, 9]⟩ else ⟨0, []⟩, rate)
  decompress payload _ rate := (⟨payload.length, []⟩, rate)

theorem steam_round_trip_tone :
    let written := (compress tone (fun bytes => .ofNat bytes.length) 5 [] 40 false 24000).1
    written.result = 21 ∧
      decompress tone (fun bytes => .ofNat bytes.length) written.bytes 100 8000 =
        .ok ⟨[.setSampleRate 24000, .decompress 6 [7, 7, 9]], ⟨3, []⟩, 24000⟩ ∧
      ∃ out, streamDecode tone [11, 0] 100 3 0 8000 = .ok out ∧ out.Inside [11, 0] := by
  have holds := steam_round_trip fun bytes => .ofNat bytes.length
  obtain ⟨-, writes⟩ := holds.1 tone tone 5 [] 40 false 24000 8000 (by decide)
  obtain ⟨-, empty⟩ | ⟨-, -, decodes⟩ := writes [7, 7, 9] 24000 (by decide) (by decide) (by decide)
    (by decide)
  · cases empty
  · exact ⟨by decide, decodes 100, holds.2 tone [11, 0] 100 8000 3 (by decide)⟩

end Refsapi.Revoice
