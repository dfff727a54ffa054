/-
# Revoice.Codecs -- the codec objects of a player

`VoiceEncoder_Silk`, `VoiceEncoder_Opus` and `VoiceCodec_Frame` of the voice
transcoder, with what is in their fields; the coders underneath (Silk, Opus,
Speex, the resampler) and the decoding loops of the first two are parameters,
collected in `Libs`.

How samples are cut into the blocks that a coder is handed depends on the queue
and on nothing else, so `Opus.chunks` and `FrameCodec.chunks` say it by
themselves, and the encoding goes through the blocks they give.
-/
import Refsapi.Revoice.SteamP2P

namespace Refsapi.Revoice

set_option autoImplicit false

/-- `VoiceEncoder_Silk`; both states are allocated from the constructor of the
player on. -/
structure Silk (E D : Type) where
  encoder : E
  decoder : D
  samplerate : UInt16
  bitrate : Int
  overflow : List Int16

/-- `VoiceEncoder_Opus` -/
structure Opus (E D : Type) where
  encoder : Option E
  decoder : Option D
  overflow : List Int16
  samplerate : UInt16
  bitrate : Int
  frameSize : Nat
  maxFrameSize : Nat
  encodeSeq : UInt16
  decodeSeq : UInt16
  packetLossConcealment : Bool

/-- `VoiceCodec_Frame` over `VoiceEncoder_Speex`; `encodeBuffer` is the used part
of `m_EncodeBuffer`. -/
structure FrameCodec (S : Type) where
  encodeBuffer : List Int16
  encoder : S

/-- The libraries under the codec objects, the loops that decode a Silk and an
Opus payload, and the subscribers of `g_OnDecompress`. -/
structure Libs where
  SpeexStates : Type
  speexInit : SpeexStates
  speexEncode : List Int16 → SpeexStates → List UInt8 × SpeexStates
  speexDecode : List UInt8 → SpeexStates → List Int16 × SpeexStates
  speexReset : SpeexStates → SpeexStates
  OpusEncoder : Type
  opusEncoderInit : UInt16 → Option OpusEncoder
  opusEncoderCtl : Int → OpusEncoder → OpusEncoder
  opusEncode : List Int16 → Int → Option OpusEncoder → Encoded × Option OpusEncoder
  opusEncoderReset : OpusEncoder → OpusEncoder
  OpusDecoder : Type
  opusDecoderInit : UInt16 → Option OpusDecoder
  opusDecoderReset : OpusDecoder → OpusDecoder
  opusDecompress : List UInt8 → Int → Opus OpusEncoder OpusDecoder →
    Decoded × Opus OpusEncoder OpusDecoder
  SilkEncoder : Type
  silkInitEncoder : SilkEncoder
  SilkDecoder : Type
  silkInitDecoder : SilkDecoder
  silkCompress : List Int16 → Int → Bool → Silk SilkEncoder SilkDecoder →
    Encoded × Silk SilkEncoder SilkDecoder
  silkDecompress : List UInt8 → Int → Silk SilkEncoder SilkDecoder →
    Decoded × Silk SilkEncoder SilkDecoder
  resample : UInt16 → UInt16 → List Int16 → List Int16
  onDecompress : UInt16 → List Int16 → List Int16
  crc32 : List UInt8 → UInt32

variable (L : Libs)

/-- A `float` stored in an `int`. -/
def truncate (x : Rat) : Int := x.num.tdiv x.den

/-! ## `VoiceEncoder_Silk` -/

namespace Silk

abbrev Of (L : Libs) : Type := Silk L.SilkEncoder L.SilkDecoder

/-- The constructor, and `Init`. -/
def new : Of L := ⟨L.silkInitEncoder, L.silkInitDecoder, 24000, 10000, []⟩

/-- `Init` -/
def init (c : Of L) : Of L :=
  { c with encoder := L.silkInitEncoder, decoder := L.silkInitDecoder, bitrate := 10000 }

def resetState (c : Of L) : Of L :=
  { c with encoder := L.silkInitEncoder, decoder := L.silkInitDecoder, overflow := [] }

def setSampleRate (rate : UInt16) (c : Of L) : Of L :=
  if rate ≠ c.samplerate then init L { c with samplerate := rate } else c

def setBitRate (bitRate : Rat) (c : Of L) : Of L :=
  if bitRate ≠ c.bitrate then init L { c with bitrate := truncate bitRate } else c

def backend : Backend (Of L) where
  encoder := .silk
  sampleRate c := c.samplerate
  setSampleRate := setSampleRate L
  compress := L.silkCompress
  decompress := L.silkDecompress

end Silk

/-! ## `VoiceEncoder_Opus` -/

/-- The blocks of `n` samples, one after the other. -/
def blocksOf (n : Nat) (samples : List Int16) : List (List Int16) :=
  (List.range (samples.length / n)).map fun i => (samples.drop (i * n)).take n

namespace Opus

abbrev Of (L : Libs) : Type := Opus L.OpusEncoder L.OpusDecoder

def resetState (c : Of L) : Of L :=
  { c with
    encoder := c.encoder.map L.opusEncoderReset
    decoder := c.decoder.map L.opusDecoderReset
    overflow := [] }

/-- `Init` -/
def init (c : Of L) : Of L :=
  let frameSize := c.samplerate.toNat / 1000 * 20
  let c := { c with
    encodeSeq := 0, decodeSeq := 0, packetLossConcealment := true
    frameSize, maxFrameSize := frameSize * 2 }
  match L.opusEncoderInit c.samplerate with
  | none => { c with encoder := none }
  | some encoder =>
      let c := { c with encoder := some (L.opusEncoderCtl c.bitrate encoder) }
      match L.opusDecoderInit c.samplerate with
      | none => { c with decoder := none }
      | some decoder => resetState L { c with decoder := some decoder }

/-- The constructor, and `Init`. -/
def new : Of L :=
  init L ⟨none, none, [], 24000, 10000, 0, 0, 0, 0, false⟩

def setSampleRate (rate : UInt16) (c : Of L) : Of L :=
  if rate ≠ c.samplerate then
    init L { c with samplerate := rate, encoder := none, decoder := none }
  else c

def setBitRate (bitRate : Rat) (c : Of L) : Of L :=
  if bitRate ≠ c.bitrate then
    init L { c with bitrate := truncate bitRate, encoder := none, decoder := none }
  else c

variable {L} in
/-- The blocks that `Compress` hands to `opus_encode`, and what it leaves in
`m_bufOverflowBytes`.  The remainder by a frame size of zero traps: see
`transcodeVoice`. -/
def chunks (c : Of L) (samples : List Int16) (bFinal : Bool) :
    List (List Int16) × List Int16 :=
  if samples.length + c.overflow.length < c.frameSize && !bFinal then ([], c.overflow ++ samples)
  else
    let nSamplesRemaining := samples.length % c.frameSize
    let silence := if bFinal && nSamplesRemaining ≠ 0 then
      List.replicate (c.frameSize - nSamplesRemaining) 0 else []
    let pUncompressed := c.overflow ++ samples ++ silence
    let nChunks := pUncompressed.length - pUncompressed.length % c.frameSize
    (blocksOf c.frameSize (pUncompressed.take nChunks), pUncompressed.drop nChunks)

/-- The loop of `Compress`: the writes that it makes from the output pointer on,
and where it ends. -/
def encode (maxCompressedBytes : Int) :
    List (List Int16) → Int → Of L → List (Int × List UInt8) × Int × Of L
  | [], writePos, c => ([], writePos, c)
  | block :: rest, writePos, c =>
      let size := writePos
      let writePos := writePos + 2
      let seq :=
        if c.packetLossConcealment then [(writePos, Bytes.ofNat 2 c.encodeSeq.toNat)] else []
      let (writePos, c) := if c.packetLossConcealment then
        (writePos + 2, { c with encodeSeq := c.encodeSeq + 1 }) else (writePos, c)
      let nBytes := min (maxCompressedBytes - writePos) 0x7FFF
      let (written, encoder) := L.opusEncode block nBytes c.encoder
      let (writes, last, c) :=
        encode maxCompressedBytes rest (writePos + written.result) { c with encoder }
      (seq ++ (writePos, written.bytes) :: (size, Bytes.ofNat 2 (written.result % 65536).toNat) ::
        writes, last, c)

/-- `VoiceEncoder_Opus::Compress` -/
def compress (samples : List Int16) (maxCompressedBytes : Int) (bFinal : Bool) (c : Of L) :
    Encoded × Of L :=
  let (blocks, rest) := c.chunks samples bFinal
  let (writes, writePos, c) := encode L maxCompressedBytes blocks 0 c
  let c := { c with overflow := rest }
  if bFinal then
    let c := { resetState L c with encodeSeq := 0 }
    if writePos + 2 < maxCompressedBytes then
      (⟨writePos + 2,
        Bytes.contents (writes ++ [(writePos, [0xFF, 0xFF])]) (writePos + 2).toNat⟩, c)
    else (⟨writePos, Bytes.contents writes writePos.toNat⟩, c)
  else (⟨writePos, Bytes.contents writes writePos.toNat⟩, c)

def backend : Backend (Of L) where
  encoder := .opus
  sampleRate c := c.samplerate
  setSampleRate := setSampleRate L
  compress := compress L
  decompress := L.opusDecompress

end Opus

/-! ## `VoiceCodec_Frame` -/

namespace FrameCodec

abbrev Of (L : Libs) : Type := FrameCodec L.SpeexStates

/-- `m_nRawSamples` after `Init` with `SPEEX_VOICE_QUALITY`. -/
def rawSamples : Nat := 320 / 2

/-- `m_nEncodedBytes` after `Init` with `SPEEX_VOICE_QUALITY`. -/
def encodedBytes : Nat := 0x26

def sampleRate : UInt16 := 8000

def new : Of L := ⟨[], L.speexInit⟩

def resetState (c : Of L) : Of L := { c with encoder := L.speexReset c.encoder }

/-- The loop of `Compress` with room for a number of encoded frames: the blocks,
what is left in the buffer and what is left of the samples. -/
def blocks : Nat → List Int16 → List Int16 → List (List Int16) × List Int16 × List Int16
  | 0, buffer, samples => ([], buffer, samples)
  | room + 1, buffer, samples =>
      if rawSamples ≤ samples.length + buffer.length then
        let taken := rawSamples - buffer.length
        let (rest, left) := blocks room [] (samples.drop taken)
        ((buffer ++ samples.take taken) :: rest, left)
      else ([], buffer, samples)

variable {L} in
/-- The blocks that `Compress` hands to the encoder, and what it leaves in
`m_EncodeBuffer`. -/
def chunks (c : Of L) (samples : List Int16) (maxCompressedBytes : Int) (bFinal : Bool) :
    List (List Int16) × List Int16 :=
  let room := (maxCompressedBytes / encodedBytes).toNat
  let (full, buffer, rest) := blocks room c.encodeBuffer samples
  let nNewSamples := min rest.length (min (rawSamples - buffer.length) rawSamples)
  let buffer := buffer ++ rest.drop (rest.length - nNewSamples)
  if bFinal && !buffer.isEmpty && full.length < room then
    (full ++ [buffer ++ List.replicate (rawSamples - buffer.length) 0], [])
  else (full, buffer)

/-- `EncodeFrame` of one block after the other. -/
def encode : List (List Int16) → Nat → L.SpeexStates → List (Int × List UInt8) × L.SpeexStates
  | [], _, states => ([], states)
  | block :: rest, writePos, states =>
      let (bytes, states) := L.speexEncode block states
      let (writes, states) := encode rest (writePos + encodedBytes) states
      ((writePos, bytes) :: writes, states)

/-- `VoiceCodec_Frame::Compress` -/
def compress (samples : List Int16) (maxCompressedBytes : Int) (bFinal : Bool) (c : Of L) :
    Encoded × Of L :=
  let (blocks, encodeBuffer) := c.chunks samples maxCompressedBytes bFinal
  let (writes, encoder) := encode L blocks 0 c.encoder
  let nCompressedBytes := blocks.length * encodedBytes
  (⟨nCompressedBytes, Bytes.contents writes nCompressedBytes⟩, { encodeBuffer, encoder })

/-- `DecodeFrame` of a number of frames. -/
def decode : Nat → List UInt8 → L.SpeexStates → List Int16 × L.SpeexStates
  | 0, _, states => ([], states)
  | frames + 1, packet, states =>
      let (samples, states) := L.speexDecode (packet.take encodedBytes) states
      let (rest, states) := decode frames (packet.drop encodedBytes) states
      (samples ++ rest, states)

/-- `VoiceCodec_Frame::Decompress` -/
def decompress (packet : List UInt8) (maxUncompressedBytes : Int) (c : Of L) : Decoded × Of L :=
  let rawBytes := rawSamples * 2
  if packet.length < encodedBytes || maxUncompressedBytes < rawBytes then (⟨0, []⟩, c)
  else
    let frames := min (packet.length / encodedBytes) (maxUncompressedBytes / rawBytes).toNat
    let (samples, encoder) := decode L frames packet c.encoder
    (⟨frames * rawSamples, samples⟩, { c with encoder })

end FrameCodec

/-- Stand-ins for the libraries, to run the model with: the coders copy, and the
resampler repeats samples. -/
def Libs.plain : Libs where
  SpeexStates := Unit
  speexInit := ()
  speexEncode _ states := (List.replicate FrameCodec.encodedBytes 0, states)
  speexDecode frame states :=
    (List.replicate FrameCodec.rawSamples (Int16.ofNat (frame.headD 0).toNat), states)
  speexReset states := states
  OpusEncoder := Unit
  opusEncoderInit _ := some ()
  opusEncoderCtl _ encoder := encoder
  opusEncode _ _ encoder := (⟨1, [0]⟩, encoder)
  opusEncoderReset encoder := encoder
  OpusDecoder := Unit
  opusDecoderInit _ := some ()
  opusDecoderReset decoder := decoder
  opusDecompress payload _ c := (⟨payload.length, payload.map fun b => Int16.ofNat b.toNat⟩, c)
  SilkEncoder := Unit
  silkInitEncoder := ()
  SilkDecoder := Unit
  silkInitDecoder := ()
  silkCompress _ _ _ c := (⟨0, []⟩, c)
  silkDecompress payload _ c := (⟨payload.length, payload.map fun b => Int16.ofNat b.toNat⟩, c)
  resample rate target samples :=
    samples.flatMap fun sample => List.replicate (target.toNat / rate.toNat) sample
  onDecompress _ samples := samples
  crc32 _ := 0

end Refsapi.Revoice
