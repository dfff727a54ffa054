/-
# Revoice.Reports -- what the decoders report

`Decompress` of each codec returns the number of samples that it wrote, and `TranscodeVoice` takes
that many from a buffer in which the samples of an earlier packet still lie.

`VoiceEncoder_Silk::Decompress` has one return in the middle of its loop, for a payload that the
library cannot decode, and that one returns bytes.  So it reports too much exactly when a payload
fails behind samples (`FailsLate`); the other two decoders always report what they wrote
(`decoders_report_iff`).
-/
import Refsapi.Revoice.OpusPacket
import Refsapi.Revoice.Player

namespace Refsapi.Revoice

set_option autoImplicit false

/-! ## `VoiceEncoder_Silk::Decompress` -/

/-- What the calls of `SKP_Silk_SDK_Decode` for one payload gave: the frames until there were no
more, or until a call failed. -/
structure SilkAnswer where
  frames : List (List Int16)
  failed : Bool

/-- `SKP_Silk_SDK_Decode` of a payload, at a sample rate and with room for a number of samples. -/
abbrev SilkDecode (L : Libs) : Type :=
  List UInt8 → UInt16 → Int → L.SilkDecoder → SilkAnswer × L.SilkDecoder

/-- An `int` stored in a `short`. -/
def shortOf (n : Int) : Int := n.bmod 65536

namespace Silk

variable {L : Libs} (silkDecode : SilkDecode L) (maxUncompressedBytes : Int)

/-- The room for samples behind a write position. -/
def room (writePos : Nat) : Int := shortOf ((maxUncompressedBytes - writePos).tdiv 2)

/-- The samples of a lost or silent frame. -/
def samplesPerFrame (c : Of L) : Nat := c.samplerate.toNat / 50

/-- A number of rounds of the loop of `Decompress`, from the rest of the packet on; `samples` are
those in front of `pWritePos`. -/
def decodeLoop : Nat → List UInt8 → Nat → List Int16 → Of L → Decoded × Of L
  | rounds + 1, low :: high :: rest, writePos, samples, c =>
      let nPayloadSize := Bytes.toNat [low, high]
      let nSamples := room maxUncompressedBytes writePos
      if nPayloadSize = 0xFFFF then (⟨(writePos / 2 : Nat), samples⟩, resetState L c)
      else if nPayloadSize = 0 then
        -- DTX (discontinued transmission)
        let numEmptySamples := samplesPerFrame c
        if nSamples < numEmptySamples then (⟨(writePos / 2 : Nat), samples⟩, c)
        else decodeLoop rounds rest (writePos + numEmptySamples * 2)
          (samples ++ List.replicate numEmptySamples 0) c
      else if rest.length < nPayloadSize then (⟨(writePos / 2 : Nat), samples⟩, c)
      else
        let (answer, decoder) :=
          silkDecode (rest.take nPayloadSize) c.samplerate nSamples c.decoder
        let written := answer.frames.flatten
        let writePos := writePos + written.length * 2
        if answer.failed then (⟨writePos, samples ++ written⟩, { c with decoder })
        else decodeLoop rounds (rest.drop nPayloadSize) writePos (samples ++ written)
          { c with decoder }
  | _, _, writePos, samples, c => (⟨(writePos / 2 : Nat), samples⟩, c)

/-- `VoiceEncoder_Silk::Decompress` -/
def decompress (packet : List UInt8) (c : Of L) : Decoded × Of L :=
  decodeLoop silkDecode maxUncompressedBytes packet.length packet 0 [] c

/-- The rest of a packet comes to a payload that fails behind samples, from a write position
on. -/
inductive FailsLate : List UInt8 → Nat → Of L → Prop where
  | fails (low high : UInt8) (rest : List UInt8) (writePos : Nat) (c : Of L) (answer : SilkAnswer)
      (decoder : L.SilkDecoder) :
      0 < Bytes.toNat [low, high] → Bytes.toNat [low, high] < 0xFFFF →
      Bytes.toNat [low, high] ≤ rest.length →
      silkDecode (rest.take (Bytes.toNat [low, high])) c.samplerate
        (room maxUncompressedBytes writePos) c.decoder = (answer, decoder) →
      answer.failed = true → 0 < writePos + answer.frames.flatten.length →
      FailsLate (low :: high :: rest) writePos c
  | silent (low high : UInt8) (rest : List UInt8) (writePos : Nat) (c : Of L) :
      Bytes.toNat [low, high] = 0 →
      samplesPerFrame c ≤ room maxUncompressedBytes writePos →
      FailsLate rest (writePos + samplesPerFrame c * 2) c →
      FailsLate (low :: high :: rest) writePos c
  | decodes (low high : UInt8) (rest : List UInt8) (writePos : Nat) (c : Of L)
      (answer : SilkAnswer) (decoder : L.SilkDecoder) :
      0 < Bytes.toNat [low, high] → Bytes.toNat [low, high] < 0xFFFF →
      Bytes.toNat [low, high] ≤ rest.length →
      silkDecode (rest.take (Bytes.toNat [low, high])) c.samplerate
        (room maxUncompressedBytes writePos) c.decoder = (answer, decoder) →
      answer.failed = false →
      FailsLate (rest.drop (Bytes.toNat [low, high]))
        (writePos + answer.frames.flatten.length * 2) { c with decoder } →
      FailsLate (low :: high :: rest) writePos c

end Silk

/-! ## Reports -/

/-- As many samples were written as are reported. -/
def Decoded.Exact (decoded : Decoded) : Prop := decoded.result = decoded.samples.length

instance (decoded : Decoded) : Decidable decoded.Exact := inferInstanceAs (Decidable (_ = _))

/-- Whatever the buffer held, what is heard of it was written. -/
def Decoded.Fresh (decoded : Decoded) : Prop :=
  ∀ originalBuf, decoded.heard originalBuf = decoded.samples

/-- What is heard of an exact report was written. -/
theorem Decoded.Exact.fresh {decoded : Decoded} (exact : decoded.Exact) : decoded.Fresh := by
  intro originalBuf
  have count : decoded.result.toNat = decoded.samples.length := by rw [exact, Int.toNat_natCast]
  rw [Decoded.heard, count, List.take_left]

/-- Twice as many samples are reported as were written: their bytes. -/
structure Decoded.Doubled (decoded : Decoded) : Prop where
  result : decoded.result = 2 * decoded.samples.length
  some : 0 < decoded.samples.length

theorem Decoded.Doubled.not_exact {decoded : Decoded} (doubled : decoded.Doubled) :
    ¬ decoded.Exact := by
  intro exact
  have result := doubled.result
  have some := doubled.some
  rw [Decoded.Exact] at exact
  omega

/-- What is heard of a doubled report has samples that an earlier packet left. -/
theorem Decoded.Doubled.not_fresh {decoded : Decoded} (doubled : decoded.Doubled) :
    ¬ decoded.Fresh := by
  intro fresh
  have heard := congrArg List.length (fresh (List.replicate decoded.result.toNat 0))
  have result := doubled.result
  have some := doubled.some
  simp only [Decoded.heard, List.length_take, List.length_append, List.length_drop,
    List.length_replicate] at heard
  omega

/-- A report is doubled when a payload fails late, and else exact. -/
structure Decoded.Reports (decoded : Decoded) (late : Prop) : Prop where
  doubled : late → decoded.Doubled
  exact : ¬ late → decoded.Exact

namespace Decoded.Reports

variable {decoded : Decoded} {late : Prop}

theorem of_exact (never : ¬ late) (exact : decoded.Exact) : decoded.Reports late :=
  ⟨fun isLate => absurd isLate never, fun _ => exact⟩

theorem exact_iff (reports : decoded.Reports late) : decoded.Exact ↔ ¬ late :=
  ⟨fun exact isLate => (reports.doubled isLate).not_exact exact, reports.exact⟩

theorem fresh_iff (reports : decoded.Reports late) : decoded.Fresh ↔ ¬ late :=
  ⟨fun fresh isLate => (reports.doubled isLate).not_fresh fresh,
    fun never => (reports.exact never).fresh⟩

end Decoded.Reports

/-- The report of a write position, with two bytes for each sample in front of it. -/
theorem exact_of_count {writePos : Nat} {samples : List Int16}
    (count : writePos = 2 * samples.length) :
    Decoded.Exact ⟨(writePos / 2 : Nat), samples⟩ := by
  show ((writePos / 2 : Nat) : Int) = samples.length
  omega

/-- The return in the middle of the loop: the write position, in bytes. -/
theorem reports_of_failure {writePos : Nat} (samples written : List Int16)
    (count : writePos = 2 * samples.length) :
    Decoded.Reports ⟨(writePos + written.length * 2 : Nat), samples ++ written⟩
      (0 < writePos + written.length) := by
  have length : (samples ++ written).length = samples.length + written.length :=
    List.length_append
  refine ⟨fun late => ⟨?_, ?_⟩, fun never => ?_⟩
  · simp only [length]
    omega
  · simp only [length]
    omega
  · simp only [Decoded.Exact, length]
    omega

/-! ## The Silk decoder -/

namespace Silk

variable {L : Libs} {silkDecode : SilkDecode L} {maxUncompressedBytes : Int}

theorem not_failsLate_of_short {rest : List UInt8} {writePos : Nat} {c : Of L}
    (short : rest.length < 2) : ¬ FailsLate silkDecode maxUncompressedBytes rest writePos c := by
  intro fails
  cases fails <;> simp only [List.length_cons] at short <;> omega

theorem decodeLoop_of_short {rounds : Nat} {rest : List UInt8} {writePos : Nat}
    {samples : List Int16} {c : Of L} (short : rest.length < 2) :
    decodeLoop silkDecode maxUncompressedBytes rounds rest writePos samples c =
      (⟨(writePos / 2 : Nat), samples⟩, c) := by
  match rounds, rest, short with
  | 0, _, _ | _ + 1, [], _ | _ + 1, [_], _ => simp [decodeLoop]

section Round

variable (low high : UInt8) (rest : List UInt8) (writePos : Nat) (c : Of L)

/-- An end marker. -/
theorem not_failsLate_of_marker (marker : Bytes.toNat [low, high] = 0xFFFF) :
    ¬ FailsLate silkDecode maxUncompressedBytes (low :: high :: rest) writePos c := by
  intro fails
  cases fails <;> omega

/-- A silent frame. -/
theorem failsLate_silent_iff (silent : Bytes.toNat [low, high] = 0) :
    FailsLate silkDecode maxUncompressedBytes (low :: high :: rest) writePos c ↔
      samplesPerFrame c ≤ room maxUncompressedBytes writePos ∧
        FailsLate silkDecode maxUncompressedBytes rest (writePos + samplesPerFrame c * 2) c := by
  constructor
  · intro fails
    cases fails with
    | fails => omega
    | silent _ _ _ _ _ _ fits later => exact ⟨fits, later⟩
    | decodes => omega
  · rintro ⟨fits, later⟩
    exact .silent low high rest writePos c silent fits later

/-- A payload that the packet does not have. -/
theorem not_failsLate_of_cut (voice : 0 < Bytes.toNat [low, high])
    (cut : rest.length < Bytes.toNat [low, high]) :
    ¬ FailsLate silkDecode maxUncompressedBytes (low :: high :: rest) writePos c := by
  intro fails
  cases fails <;> omega

/-- A payload. -/
theorem failsLate_voice_iff {answer : SilkAnswer} {decoder : L.SilkDecoder}
    (voice : 0 < Bytes.toNat [low, high]) (short : Bytes.toNat [low, high] < 0xFFFF)
    (inside : Bytes.toNat [low, high] ≤ rest.length)
    (called : silkDecode (rest.take (Bytes.toNat [low, high])) c.samplerate
      (room maxUncompressedBytes writePos) c.decoder = (answer, decoder)) :
    FailsLate silkDecode maxUncompressedBytes (low :: high :: rest) writePos c ↔
      if answer.failed then 0 < writePos + answer.frames.flatten.length
      else FailsLate silkDecode maxUncompressedBytes (rest.drop (Bytes.toNat [low, high]))
        (writePos + answer.frames.flatten.length * 2) { c with decoder } := by
  constructor
  · intro fails
    cases fails with
    | fails _ _ _ _ _ other _ _ _ _ same failed late =>
        obtain ⟨rfl, rfl⟩ := Prod.mk.inj (called.symm.trans same)
        rwa [if_pos failed]
    | silent => omega
    | decodes _ _ _ _ _ other _ _ _ _ same decoded later =>
        obtain ⟨rfl, rfl⟩ := Prod.mk.inj (called.symm.trans same)
        rwa [if_neg (by rw [decoded]; exact Bool.false_ne_true)]
  · intro late
    split at late
    · next failed =>
        exact .fails low high rest writePos c answer decoder voice short inside called failed late
    · next decoded =>
        exact .decodes low high rest writePos c answer decoder voice short inside called
          (Bool.not_eq_true _ ▸ decoded) late

end Round

/-- The loop reports what was written, unless a payload fails behind samples. -/
theorem decodeLoop_reports (rounds : Nat) {rest : List UInt8} {writePos : Nat}
    {samples : List Int16} {c : Of L} (count : writePos = 2 * samples.length)
    (enough : rest.length ≤ rounds) :
    (decodeLoop silkDecode maxUncompressedBytes rounds rest writePos samples c).1.Reports
      (FailsLate silkDecode maxUncompressedBytes rest writePos c) := by
  induction rounds generalizing rest writePos samples c with
  | zero =>
      have short : rest.length < 2 := by omega
      rw [decodeLoop_of_short short]
      exact .of_exact (not_failsLate_of_short short) (exact_of_count count)
  | succ rounds ih =>
      match rest, enough with
      | [], _ | [_], _ =>
          rw [decodeLoop_of_short (by simp)]
          exact .of_exact (not_failsLate_of_short (by simp)) (exact_of_count count)
      | low :: high :: rest, enough =>
          have behind : rest.length ≤ rounds := by simp only [List.length_cons] at enough; omega
          rw [decodeLoop]
          dsimp only
          split
          · next marker =>
              exact .of_exact (not_failsLate_of_marker _ _ _ _ _ marker) (exact_of_count count)
          · next notMarker =>
              split
              · next silent =>
                  rw [failsLate_silent_iff _ _ _ _ _ silent]
                  split
                  · next full =>
                      exact .of_exact (fun late => absurd late.1 (Int.not_le.2 full))
                        (exact_of_count count)
                  · next fits =>
                      rw [and_iff_right (Int.not_lt.1 fits)]
                      apply ih _ behind
                      rw [List.length_append, List.length_replicate]
                      omega
              · next voice =>
                  split
                  · next cut =>
                      exact .of_exact
                        (not_failsLate_of_cut _ _ _ _ _ (Nat.pos_of_ne_zero voice) cut)
                        (exact_of_count count)
                  · next inside =>
                      have word := Bytes.toNat_lt [low, high]
                      have short : Bytes.toNat [low, high] < 0xFFFF := by
                        simp only [List.length_cons, List.length_nil] at word
                        omega
                      generalize called : silkDecode (rest.take (Bytes.toNat [low, high]))
                        c.samplerate (room maxUncompressedBytes writePos) c.decoder = call
                      obtain ⟨answer, decoder⟩ := call
                      rw [failsLate_voice_iff low high rest writePos c (Nat.pos_of_ne_zero voice)
                        short (Nat.not_lt.1 inside) called]
                      dsimp only
                      split
                      · exact reports_of_failure samples answer.frames.flatten count
                      · apply ih _ (by rw [List.length_drop]; omega)
                        rw [List.length_append]
                        omega

/-- `Decompress` reports what it wrote, unless a payload fails behind samples. -/
theorem decompress_reports (packet : List UInt8) (c : Of L) :
    (decompress silkDecode maxUncompressedBytes packet c).1.Reports
      (FailsLate silkDecode maxUncompressedBytes packet 0 c) :=
  decodeLoop_reports packet.length rfl (Nat.le_refl _)

end Silk

/-! ## The Opus and the Speex decoder -/

/-- The library returns the number of samples that it decoded. -/
def OpusDecode.Counts {L : Libs} (opusDecode : OpusDecode L) : Prop :=
  ∀ payload frameSize decoder, 0 < (opusDecode payload frameSize decoder).1.result →
    (opusDecode payload frameSize decoder).1.Exact

namespace OpusLoop

variable {L : Libs} {opusDecode : OpusDecode L} {input : OpusInput}

/-- The frames are of their size, and two bytes lie in front of the write position for each
sample. -/
structure Counted (s : Of L) : Prop where
  sized : s.codec.Sized
  count : s.writePos = 2 * s.samples.length

theorem kept_counted (counts : opusDecode.Counts) : Kept opusDecode input (Counted (L := L)) where
  load _ _ counted := ⟨counted.sized, counted.count⟩
  reset _ counted := ⟨counted.sized, counted.count⟩
  decodeSeq _ _ counted := ⟨counted.sized, counted.count⟩
  leave _ counted := ⟨counted.sized, counted.count⟩
  decode payload s counted _ := by
    obtain ⟨decoder, decoded, called, same⟩ := decode_eq opusDecode payload s
    have counts := counts payload s.codec.frameSize s.codec.decoder
    have before := counted.count
    rw [called] at counts
    rw [same]
    refine ⟨counted.sized, ?_⟩
    show s.writePos + decoded.result.toNat * 2 = _
    split
    · next failed =>
        rw [Int.toNat_of_nonpos failed, List.append_nil]
        exact counted.count
    · next good =>
        have exact : decoded.result = decoded.samples.length := counts (Int.not_le.1 good)
        rw [List.length_append]
        omega
  fill _ counted _ := ⟨counted.sized, counted.count⟩
  silence s counted _ := by
    have sized : s.codec.frameSize * 2 = s.codec.maxFrameSize := counted.sized
    have before := counted.count
    refine ⟨counted.sized, ?_⟩
    show s.writePos + s.codec.maxFrameSize = _
    simp only [advance, List.length_append, List.length_replicate]
    omega

/-- The Opus decoder reports what it wrote. -/
theorem decoded_exact (counts : opusDecode.Counts) {c : Opus.Of L} (sized : c.Sized) :
    (run opusDecode input c).decoded.Exact :=
  exact_of_count ((kept_counted counts).rounds _ ⟨sized, rfl⟩).count

end OpusLoop

namespace FrameCodec

variable {L : Libs}

theorem length_decode (whole : ∀ frame states, (L.speexDecode frame states).1.length = rawSamples)
    (frames : Nat) (packet : List UInt8) (states : L.SpeexStates) :
    (decode L frames packet states).1.length = frames * rawSamples := by
  induction frames generalizing packet states with
  | zero => exact (Nat.zero_mul _).symm
  | succ frames ih =>
      rw [decode, List.length_append, whole, ih, Nat.succ_mul, Nat.add_comm]

/-- The Speex decoder reports what it wrote. -/
theorem decompress_exact
    (whole : ∀ frame states, (L.speexDecode frame states).1.length = rawSamples)
    (packet : List UInt8) (maxUncompressedBytes : Int) (c : Of L) :
    (decompress L packet maxUncompressedBytes c).1.Exact := by
  simp only [decompress]
  split
  · rfl
  · simp only [Decoded.Exact, length_decode whole, Int.natCast_mul]

end FrameCodec

/-! ## The three decoders -/

/-- What the three decoders report of a packet, with the memory behind it. -/
def decoderReports {L : Libs} (silkDecode : SilkDecode L) (opusDecode : OpusDecode L)
    (input : OpusInput) (silk : Silk.Of L) (opus : Opus.Of L) (speex : FrameCodec.Of L) :
    List Decoded :=
  [(Silk.decompress silkDecode input.maxUncompressedBytes input.packet silk).1,
    (OpusLoop.run opusDecode input opus).decoded,
    (FrameCodec.decompress L input.packet input.maxUncompressedBytes speex).1]

/-- **The decoders report what they wrote, unless a Silk payload fails behind samples.**  For every
packet, whatever the libraries answer and whatever state the codecs are in, each decoder returns the
number of samples that it wrote, and nothing is heard but these, exactly when the Silk decoder does
not come to an error with samples in front of it. -/
theorem decoders_report_iff {L : Libs} (silkDecode : SilkDecode L) (opusDecode : OpusDecode L)
    (counts : opusDecode.Counts)
    (whole : ∀ frame states, (L.speexDecode frame states).1.length = FrameCodec.rawSamples)
    (input : OpusInput) (silk : Silk.Of L) (opus : Opus.Of L) (sized : opus.Sized)
    (speex : FrameCodec.Of L) :
    ((∀ decoded ∈ decoderReports silkDecode opusDecode input silk opus speex, decoded.Exact) ↔
      ¬ Silk.FailsLate silkDecode input.maxUncompressedBytes input.packet 0 silk) ∧
    ((∀ decoded ∈ decoderReports silkDecode opusDecode input silk opus speex, decoded.Fresh) ↔
      ¬ Silk.FailsLate silkDecode input.maxUncompressedBytes input.packet 0 silk) := by
  have reports : (Silk.decompress silkDecode input.maxUncompressedBytes input.packet silk).1.Reports
      (Silk.FailsLate silkDecode input.maxUncompressedBytes input.packet 0 silk) :=
    Silk.decompress_reports input.packet silk
  have exact : (OpusLoop.run opusDecode input opus).decoded.Exact :=
    OpusLoop.decoded_exact counts sized
  have frames := FrameCodec.decompress_exact whole input.packet input.maxUncompressedBytes speex
  simp only [decoderReports, List.forall_mem_cons]
  constructor
  · rw [reports.exact_iff]
    exact and_iff_left ⟨exact, frames, List.forall_mem_nil _⟩
  · rw [reports.fresh_iff]
    exact and_iff_left ⟨exact.fresh, frames.fresh, List.forall_mem_nil _⟩

/-- A Silk library that copies, and fails for a payload that begins with a byte of ones. -/
def SilkDecode.picky : SilkDecode Libs.plain := fun payload _ _ decoder =>
  if payload.headD 0 = 0xFF then (⟨[], true⟩, decoder)
  else (⟨[payload.map fun b => Int16.ofNat b.toNat], false⟩, decoder)

/-- A packet with a payload of two samples. -/
def twoSamples : OpusInput := ⟨[2, 0, 7, 8], fun _ => 0, 32768⟩

/-- A packet with a payload of two samples, and then one that fails. -/
def lateError : OpusInput := ⟨[2, 0, 7, 8, 1, 0, 0xFF], fun _ => 0, 32768⟩

theorem counts_plain : OpusDecode.plain.Counts := by
  intro payload frameSize decoder _
  show (frameSize : Int) = (List.replicate frameSize (0 : Int16)).length
  rw [List.length_replicate]

theorem decoders_report_iff_two :
    (∀ decoded ∈ decoderReports .picky .plain twoSamples (Silk.new Libs.plain)
      (Opus.new Libs.plain) (FrameCodec.new Libs.plain), decoded.Exact) ∧
    ∀ decoded ∈ decoderReports .picky .plain twoSamples (Silk.new Libs.plain)
      (Opus.new Libs.plain) (FrameCodec.new Libs.plain), decoded.Fresh := by
  have never : ¬ Silk.FailsLate .picky 32768 twoSamples.packet 0 (Silk.new Libs.plain) :=
    (Silk.decompress_reports twoSamples.packet _).exact_iff.1 (by decide +kernel)
  have reports := decoders_report_iff .picky .plain counts_plain
    (fun _ _ => List.length_replicate) twoSamples (Silk.new Libs.plain) (Opus.new Libs.plain)
    (Opus.sized_init _) (FrameCodec.new Libs.plain)
  exact ⟨reports.1.2 never, reports.2.2 never⟩

/-- The Silk decoder reports four samples where it wrote two. -/
theorem not_always_reported : ¬ ∀ (input : OpusInput) (silk : Silk.Of Libs.plain)
    (opus : Opus.Of Libs.plain) (speex : FrameCodec.Of Libs.plain), opus.Sized →
    ∀ decoded ∈ decoderReports .picky .plain input silk opus speex, decoded.Exact := by
  intro always
  have exact := always lateError (Silk.new Libs.plain) (Opus.new Libs.plain)
    (FrameCodec.new Libs.plain) (Opus.sized_init _) _ List.mem_cons_self
  exact absurd exact (by decide +kernel)

end Refsapi.Revoice
