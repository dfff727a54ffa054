/-
# Revoice.Resampling -- what the resampler is allowed to write

`TranscodeVoice` resamples what it decoded for each target with another sample rate, into a buffer
of 32768 bytes.  The length that it passes to `soxr_oneshot` counts samples of two bytes, and is
the size of the buffer in bytes; `outSampleCount`, which the code works out beside it, is not used.
So a buffer's worth of samples, and no more, has room when it is resampled upwards
(`resampled_fits_iff`).
-/
import Refsapi.Revoice.Player

namespace Refsapi.Revoice

set_option autoImplicit false

/-- A call of `soxr_oneshot`: the rates, `numDecodedSamples` and the length of the output. -/
structure SoxrCall where
  inRate : UInt16
  outRate : UInt16
  ilen : Nat
  olen : Nat
  deriving DecidableEq

/-- `sizeof(resampledBuf)` -/
def resampledBufSize : Nat := 32768

/-- The bytes that a call may write, by the number of samples that resampling gives. -/
def SoxrCall.bytes (resampledCount : UInt16 → UInt16 → Nat → Nat) (call : SoxrCall) : Nat :=
  2 * min call.olen (resampledCount call.inRate call.outRate call.ilen)

/-- `outSampleCount`, which is not used. -/
def outSampleCount (inRate outRate : UInt16) (numDecodedSamples : Nat) : Nat :=
  (numDecodedSamples * outRate.toNat + (inRate.toNat - 1)) / inRate.toNat

/-- The call for a target. -/
def soxrCall (rate target : UInt16) (numDecodedSamples : Nat) : List SoxrCall :=
  if target ≠ rate then [⟨rate, target, numDecodedSamples, resampledBufSize⟩] else []

variable (L : Libs)

/-- The calls for the targets, Opus and then Speex. -/
def Codecs.soxrCalls (rate : UInt16) (samples : List Int16) (c : Codecs L) : List SoxrCall :=
  let target := c.opus.backend.samplerate
  let (written, _, _) := c.toOpus L (resampled L rate target samples)
  soxrCall rate target samples.length ++
    if written.result ≤ 0 then [] else soxrCall rate FrameCodec.sampleRate samples.length

/-- The calls of `soxr_oneshot` in `TranscodeVoice`. -/
def transcodeCalls (source : CodecType) (packet : List UInt8) (originalBuf : List Int16)
    (c : Codecs L) : List SoxrCall :=
  match c.decompress L source packet with
  | none => []
  | some (decoded, c) =>
      if decoded.result ≤ 0 then []
      else
        let rate := c.sampleRate L source
        c.soxrCalls L rate (L.onDecompress rate (decoded.heard originalBuf))

/-- The number of samples that the targets are given fits the buffer at each of their rates. -/
structure Codecs.Resamples (resampledCount : UInt16 → UInt16 → Nat → Nat) (rate : UInt16)
    (samples : List Int16) (c : Codecs L) : Prop where
  opus : c.opus.backend.samplerate ≠ rate →
    resampledCount rate c.opus.backend.samplerate samples.length ≤ 16384
  speex : FrameCodec.sampleRate ≠ rate →
    0 < (c.toOpus L (resampled L rate c.opus.backend.samplerate samples)).1.result →
      resampledCount rate FrameCodec.sampleRate samples.length ≤ 16384

variable {L} {resampledCount : UInt16 → UInt16 → Nat → Nat}

theorem soxrCall_fits_iff (rate target : UInt16) (numDecodedSamples : Nat) :
    (∀ call ∈ soxrCall rate target numDecodedSamples,
        call.bytes resampledCount ≤ resampledBufSize) ↔
      (target ≠ rate → resampledCount rate target numDecodedSamples ≤ 16384) := by
  rw [soxrCall]
  split
  · next other =>
      rw [List.forall_mem_singleton, SoxrCall.bytes, resampledBufSize]
      simp only
      constructor
      · intro fits _
        omega
      · intro fits
        have few := fits other
        omega
  · next same =>
      exact iff_of_true (fun call isCall => absurd isCall List.not_mem_nil) fun other =>
        absurd other same

theorem soxrCalls_fits_iff (rate : UInt16) (samples : List Int16) (c : Codecs L) :
    (∀ call ∈ c.soxrCalls L rate samples, call.bytes resampledCount ≤ resampledBufSize) ↔
      c.Resamples L resampledCount rate samples := by
  simp only [Codecs.soxrCalls, List.forall_mem_append, soxrCall_fits_iff]
  split
  · next failed =>
      refine ⟨fun fits => ⟨fits.1, fun _ positive => ?_⟩, fun fits => ⟨fits.opus, fun call isCall =>
        absurd isCall List.not_mem_nil⟩⟩
      omega
  · next written =>
      rw [soxrCall_fits_iff]
      exact ⟨fun fits => ⟨fits.1, fun other _ => fits.2 other⟩,
        fun fits => ⟨fits.opus, fun other => fits.speex other (Int.not_le.1 written)⟩⟩

/-- **Resampling fits its buffer for half as many samples as it is told.**  `soxr_oneshot` may
write at most the size of `resampledBuf` in each of its calls exactly when, for a packet that
decodes, the samples at the rate of each target that is resampled for are at most 16384. -/
theorem resampled_fits_iff (L : Libs) (resampledCount : UInt16 → UInt16 → Nat → Nat)
    (source : CodecType) (packet : List UInt8) (originalBuf : List Int16) (c : Codecs L) :
    (∀ call ∈ transcodeCalls L source packet originalBuf c,
        call.bytes resampledCount ≤ resampledBufSize) ↔
      ∀ decoded c', c.decompress L source packet = some (decoded, c') → 0 < decoded.result →
        c'.Resamples L resampledCount (c'.sampleRate L source)
          (L.onDecompress (c'.sampleRate L source) (decoded.heard originalBuf)) := by
  rw [transcodeCalls]
  cases c.decompress L source packet with
  | none => exact iff_of_true (fun call isCall => absurd isCall List.not_mem_nil) (by simp)
  | some out =>
      obtain ⟨decoded, c'⟩ := out
      simp only [Option.some.injEq, Prod.mk.injEq]
      split
      · next failed =>
          refine iff_of_true (fun call isCall => absurd isCall List.not_mem_nil) ?_
          rintro _ _ ⟨rfl, rfl⟩ positive
          omega
      · next positive =>
          rw [soxrCalls_fits_iff]
          constructor
          · rintro fits _ _ ⟨rfl, rfl⟩ _
            exact fits
          · intro fits
            exact fits _ _ ⟨rfl, rfl⟩ (Int.not_le.1 positive)

/-- A Speex packet of 35 frames. -/
def longPacket : List UInt8 := List.replicate (35 * FrameCodec.encodedBytes) 1

theorem length_decode_plain (frames : Nat) (packet : List UInt8) :
    (FrameCodec.decode Libs.plain frames packet ()).1.length = frames * FrameCodec.rawSamples := by
  induction frames generalizing packet with
  | zero => exact (Nat.zero_mul _).symm
  | succ frames ih =>
      have first : (Libs.plain.speexDecode (packet.take FrameCodec.encodedBytes) ()).1.length =
          FrameCodec.rawSamples := List.length_replicate
      have rest := ih (packet.drop FrameCodec.encodedBytes)
      refine List.length_append.trans ((congrArg₂ (· + ·) first rest).trans ?_)
      rw [Nat.succ_mul, Nat.add_comm]

/-- Its 5600 samples of 8000 Hz are 16800 at 24000 Hz, which are 33600 bytes. -/
theorem not_always_fits : ¬ ∀ call ∈
    transcodeCalls Libs.plain .speex longPacket [] (Player.new Libs.plain).codecs,
      call.bytes outSampleCount ≤ resampledBufSize := by
  intro always
  obtain ⟨samples, isSamples⟩ : ∃ samples,
      (FrameCodec.decode Libs.plain 35 longPacket ()).1 = samples := ⟨_, rfl⟩
  have count : samples.length = 5600 := by rw [← isSamples, length_decode_plain]; rfl
  have decodes : FrameCodec.decompress Libs.plain longPacket bufferSize
      (Player.new Libs.plain).codecs.speex =
        (⟨5600, samples⟩, (Player.new Libs.plain).codecs.speex) := by
    have length : longPacket.length = 1330 := List.length_replicate
    have frames : min (1330 / FrameCodec.encodedBytes)
        (bufferSize / (FrameCodec.rawSamples * 2 : Nat)).toNat = 35 := by decide
    simp only [FrameCodec.decompress, length, frames]
    rw [if_neg (by decide), ← isSamples]
    rfl
  have isCall : (⟨8000, 24000, 5600, 32768⟩ : SoxrCall) ∈
      transcodeCalls Libs.plain .speex longPacket [] (Player.new Libs.plain).codecs := by
    have heard : ((⟨5600, samples⟩ : Decoded).heard []).length = 5600 := by
      simp [Decoded.heard, count]
    have source : (Player.new Libs.plain).codecs.decompress Libs.plain .speex longPacket =
        some (⟨5600, samples⟩, (Player.new Libs.plain).codecs) := by
      simp only [Codecs.decompress, decodes]
      rfl
    rw [transcodeCalls, source]
    simp only
    rw [if_neg (by decide)]
    refine List.mem_append_left _ ?_
    rw [soxrCall, if_pos (by decide)]
    exact List.mem_singleton.2 (congrArg (SoxrCall.mk 8000 24000 · 32768) heard.symm)
  exact absurd (always _ isCall) (by decide)

end Refsapi.Revoice
