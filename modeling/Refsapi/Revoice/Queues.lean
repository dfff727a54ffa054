/-
# Revoice.Queues -- what the Opus and the Speex codec do with the samples they are given

Both keep the samples that fill no frame in a queue, and cut the queue and the next piece into
frames.  `chunks` of either is the cut of the two (`Opus.chunks_cut`, `FrameCodec.chunks_cut`), so
no sample is lost however long the pieces are (`queues_lossless`).

With the last piece the rest is filled up with silence.  `VoiceCodec_Frame` fills up what is in
its queue; `VoiceEncoder_Opus` counts the silence by the piece alone, and loses what its queue
has too much (`final_flushes_iff`).
-/
import Refsapi.Lib.Blocks
import Refsapi.Revoice.Codecs

namespace Refsapi.Revoice

set_option autoImplicit false

/-! ## Pieces of a stream -/

/-- What a call of `Compress` is given. -/
structure Piece where
  samples : List Int16
  maxCompressedBytes : Int

/-- All the samples that the pieces have. -/
def input (pieces : List Piece) : List Int16 := (pieces.map Piece.samples).flatten

/-- The frames have every sample of the stream, with less than a frame of silence after it, and
nothing is left in the queue. -/
structure Flushes (n : Nat) (stream : List Int16) (frames : List (List Int16))
    (queue : List Int16) : Prop where
  full : ∀ frame ∈ frames, frame.length = n
  padded : ∃ silence < n, frames.flatten = stream ++ List.replicate silence 0
  empty : queue = []

namespace Opus

/-- The frames that calls which are not the last hand to `opus_encode`, and the codec after
them. -/
def compressAll (L : Libs) : List Piece → Of L → List (List Int16) × Of L
  | [], c => ([], c)
  | piece :: rest, c =>
      let frames := (c.chunks piece.samples false).1
      let (later, c) :=
        compressAll L rest (compress L piece.samples piece.maxCompressedBytes false c).2
      (frames ++ later, c)

end Opus

namespace FrameCodec

/-- The frames that calls which are not the last hand to the encoder, and the codec after
them. -/
def compressAll (L : Libs) : List Piece → Of L → List (List Int16) × Of L
  | [], c => ([], c)
  | piece :: rest, c =>
      let frames := (c.chunks piece.samples piece.maxCompressedBytes false).1
      let (later, c) :=
        compressAll L rest (compress L piece.samples piece.maxCompressedBytes false c).2
      (frames ++ later, c)

/-- The output has room for a number of frames. -/
def Room (piece : Piece) (frames : Nat) : Prop :=
  frames * encodedBytes ≤ piece.maxCompressedBytes

instance (piece : Piece) (frames : Nat) : Decidable (Room piece frames) :=
  inferInstanceAs (Decidable (_ ≤ _))

/-- Each call has room for the frames that its samples fill. -/
def Rooms (L : Libs) : List Piece → Of L → Prop
  | [], _ => True
  | piece :: rest, c =>
      Room piece ((c.encodeBuffer.length + piece.samples.length) / rawSamples) ∧
        Rooms L rest (compress L piece.samples piece.maxCompressedBytes false c).2

end FrameCodec

/-- The blocks of the samples that fill blocks. -/
theorem blocksOf_cut {n : Nat} (positive : 0 < n) (samples : List Int16) :
    Cut n samples (blocksOf n (samples.take (samples.length - samples.length % n)))
      (samples.drop (samples.length - samples.length % n)) := by
  have multiple : (samples.length - samples.length % n) % n = 0 :=
    Nat.sub_mod_eq_zero_of_mod_eq (Nat.mod_mod _ _).symm
  generalize isChunks : samples.length - samples.length % n = nChunks at multiple ⊢
  have length : (samples.take nChunks).length = nChunks := by rw [List.length_take]; omega
  have cut := Cut.blocks_range positive (samples.take nChunks)
  rw [List.drop_of_length_le (by rw [length, Nat.div_mul_cancel (Nat.dvd_of_mod_eq_zero multiple)])]
    at cut
  have short : (samples.drop nChunks).length < n := by
    have less := Nat.mod_lt samples.length positive
    rw [List.length_drop]
    omega
  have excess : Cut n (samples.drop nChunks) [] (samples.drop nChunks) := Cut.nil short
  have both := cut.append excess
  rwa [List.take_append_drop, List.append_nil] at both

variable {L : Libs}

/-! ## `VoiceEncoder_Opus` -/

namespace Opus

variable {c : Of L}

theorem encode_frameSize (max : Int) (blocks : List (List Int16)) (writePos : Int) (c : Of L) :
    (encode L max blocks writePos c).2.2.frameSize = c.frameSize := by
  induction blocks generalizing writePos c with
  | nil => rfl
  | cons block rest ih =>
      simp only [encode]
      rw [ih]
      split <;> rfl

theorem compress_false (samples : List Int16) (max : Int) (c : Of L) :
    (compress L samples max false c).2.overflow = (c.chunks samples false).2 ∧
      (compress L samples max false c).2.frameSize = c.frameSize := by
  refine ⟨rfl, ?_⟩
  simp only [compress]
  exact encode_frameSize max _ 0 c

theorem compress_true (samples : List Int16) (max : Int) (c : Of L) :
    (compress L samples max true c).2.overflow = [] := by
  simp only [compress, if_true]
  split <;> rfl

/-- What is handed over when the queue and the samples fill a frame, or the call is the last. -/
theorem chunks_eq (samples : List Int16) (bFinal : Bool) (silence : List Int16)
    (calls : ¬ (samples.length + c.overflow.length < c.frameSize ∧ bFinal = false))
    (isSilence : silence = if bFinal && samples.length % c.frameSize ≠ 0 then
      List.replicate (c.frameSize - samples.length % c.frameSize) 0 else [])
    (positive : 0 < c.frameSize) :
    Cut c.frameSize (c.overflow ++ samples ++ silence) (c.chunks samples bFinal).1
      (c.chunks samples bFinal).2 := by
  have branch : ¬ (samples.length + c.overflow.length < c.frameSize && !bFinal) = true := by
    simpa using calls
  subst isSilence
  simp only [chunks, if_neg branch]
  exact blocksOf_cut positive _

/-- A piece that is not the last is cut together with the queue. -/
theorem chunks_cut (short : c.overflow.length < c.frameSize) (samples : List Int16) :
    Cut c.frameSize (c.overflow ++ samples) (c.chunks samples false).1
      (c.chunks samples false).2 := by
  by_cases few : samples.length + c.overflow.length < c.frameSize
  · have waits : c.chunks samples false = ([], c.overflow ++ samples) := by simp [chunks, few]
    rw [waits]
    exact Cut.nil (by rw [List.length_append]; omega)
  · have cut := chunks_eq samples false [] (fun both => few both.1) rfl (by omega)
    simpa using cut

theorem compressAll_cut (pieces : List Piece) (short : c.overflow.length < c.frameSize) :
    Cut c.frameSize (c.overflow ++ input pieces) (compressAll L pieces c).1
        (compressAll L pieces c).2.overflow ∧
      (compressAll L pieces c).2.frameSize = c.frameSize := by
  induction pieces generalizing c with
  | nil => exact ⟨by simpa [input, compressAll] using Cut.nil short, rfl⟩
  | cons piece rest ih =>
      have cut := chunks_cut short piece.samples
      obtain ⟨overflow, frameSize⟩ :=
        compress_false piece.samples piece.maxCompressedBytes c
      have later : _ < _ := overflow ▸ frameSize ▸ cut.short
      obtain ⟨next, same⟩ := ih later
      rw [overflow, frameSize] at next
      refine ⟨?_, same.trans frameSize⟩
      have whole := cut.append next
      rwa [List.append_assoc] at whole

end Opus

/-! ## `VoiceCodec_Frame` -/

namespace FrameCodec

variable {c : Of L}

theorem Room.le {piece : Piece} {frames : Nat} (room : Room piece frames) :
    frames ≤ (piece.maxCompressedBytes / encodedBytes).toNat := by
  have le := Int.le_ediv_of_mul_le (by decide) room
  omega

theorem Room.of_le {piece : Piece} {few frames : Nat} (room : Room piece frames)
    (le : few ≤ frames) : Room piece few :=
  Int.le_trans (Int.mul_le_mul_of_nonneg_right (Int.ofNat_le.2 le) (by decide)) room

/-- The loop of `Compress` cuts what the output has room for. -/
theorem blocks_cut {buffer samples : List Int16} {room : Nat}
    (short : buffer.length < rawSamples)
    (fits : (buffer.length + samples.length) / rawSamples ≤ room) :
    ∃ left rest, (blocks room buffer samples).2 = (left, rest) ∧
      Cut rawSamples (buffer ++ samples) (blocks room buffer samples).1 (left ++ rest) := by
  induction room generalizing buffer samples with
  | zero =>
      refine ⟨buffer, samples, rfl, Cut.nil ?_⟩
      rw [List.length_append]
      exact Nat.lt_of_div_eq_zero (by decide) (Nat.le_zero.1 fits)
  | succ room ih =>
      simp only [blocks]
      split
      · next whole =>
          have taken : samples = samples.take (rawSamples - buffer.length) ++
            samples.drop (rawSamples - buffer.length) := (List.take_append_drop _ _).symm
          have full : (buffer ++ samples.take (rawSamples - buffer.length)).length =
              rawSamples := by
            rw [List.length_append, List.length_take]
            omega
          have less : (([] : List Int16).length +
              (samples.drop (rawSamples - buffer.length)).length) / rawSamples ≤ room := by
            rw [List.length_drop, List.length_nil]
            rw [show rawSamples = 160 from rfl] at fits whole ⊢
            omega
          have empty : ([] : List Int16).length < rawSamples := by decide
          obtain ⟨left, rest, ends, cut⟩ := ih empty less
          refine ⟨left, rest, ends, ?_⟩
          have both := cut.cons full
          rwa [List.nil_append, List.append_assoc, ← taken] at both
      · next few =>
          exact ⟨buffer, samples, rfl, Cut.nil (by rw [List.length_append]; omega)⟩

/-- A piece is cut together with the queue, up to the silence of the last one. -/
theorem chunks_eq (short : c.encodeBuffer.length < rawSamples) {piece : Piece} (bFinal : Bool)
    (room : Room piece ((c.encodeBuffer.length + piece.samples.length) / rawSamples)) :
    ∃ full queue, Cut rawSamples (c.encodeBuffer ++ piece.samples) full queue ∧
      c.chunks piece.samples piece.maxCompressedBytes bFinal =
        if bFinal && !queue.isEmpty &&
            full.length < (piece.maxCompressedBytes / encodedBytes).toNat then
          (full ++ [queue ++ List.replicate (rawSamples - queue.length) 0], [])
        else (full, queue) := by
  obtain ⟨left, rest, ends, cut⟩ := blocks_cut short room.le
  refine ⟨_, left ++ rest, cut, ?_⟩
  have few := cut.short
  rw [List.length_append] at few
  have all : min rest.length (min (rawSamples - left.length) rawSamples) = rest.length := by omega
  simp only [chunks, ends, all, Nat.sub_self, List.drop_zero]

theorem chunks_cut (short : c.encodeBuffer.length < rawSamples) {piece : Piece}
    (room : Room piece ((c.encodeBuffer.length + piece.samples.length) / rawSamples)) :
    Cut rawSamples (c.encodeBuffer ++ piece.samples)
      (c.chunks piece.samples piece.maxCompressedBytes false).1
      (c.chunks piece.samples piece.maxCompressedBytes false).2 := by
  obtain ⟨full, queue, cut, same⟩ := chunks_eq short false room
  rw [same]
  exact cut

theorem compressAll_cut {pieces : List Piece} (short : c.encodeBuffer.length < rawSamples)
    (rooms : Rooms L pieces c) :
    Cut rawSamples (c.encodeBuffer ++ input pieces) (compressAll L pieces c).1
      (compressAll L pieces c).2.encodeBuffer := by
  induction pieces generalizing c with
  | nil => simpa [input, compressAll] using Cut.nil short
  | cons piece rest ih =>
      obtain ⟨room, rooms⟩ := rooms
      have cut := chunks_cut short room
      have whole := cut.append (ih cut.short rooms)
      rwa [List.append_assoc] at whole

end FrameCodec

/-! ## No sample is lost -/

/-- **No audio is lost.**  Whatever the pieces are, the frames that were handed over and the
queue are the samples that came in, and the queue is shorter than a frame. -/
theorem queues_lossless (L : Libs) (pieces : List Piece) (opus : Opus.Of L)
    (speex : FrameCodec.Of L) (opusShort : opus.overflow.length < opus.frameSize)
    (speexShort : speex.encodeBuffer.length < FrameCodec.rawSamples)
    (rooms : FrameCodec.Rooms L pieces speex) :
    Cut opus.frameSize (opus.overflow ++ input pieces) (Opus.compressAll L pieces opus).1
        (Opus.compressAll L pieces opus).2.overflow ∧
      Cut FrameCodec.rawSamples (speex.encodeBuffer ++ input pieces)
        (FrameCodec.compressAll L pieces speex).1
        (FrameCodec.compressAll L pieces speex).2.encodeBuffer :=
  ⟨(Opus.compressAll_cut pieces opusShort).1, FrameCodec.compressAll_cut speexShort rooms⟩

/-- Two pieces, of 100 and of 500 samples. -/
theorem queues_lossless_two :
    let pieces : List Piece := [⟨List.replicate 100 1, 1024⟩, ⟨List.replicate 500 2, 1024⟩]
    Cut (Opus.new Libs.plain).frameSize ((Opus.new Libs.plain).overflow ++ input pieces)
        (Opus.compressAll Libs.plain pieces (Opus.new Libs.plain)).1
        (Opus.compressAll Libs.plain pieces (Opus.new Libs.plain)).2.overflow ∧
      Cut FrameCodec.rawSamples ((FrameCodec.new Libs.plain).encodeBuffer ++ input pieces)
        (FrameCodec.compressAll Libs.plain pieces (FrameCodec.new Libs.plain)).1
        (FrameCodec.compressAll Libs.plain pieces (FrameCodec.new Libs.plain)).2.encodeBuffer :=
  queues_lossless Libs.plain _ (Opus.new Libs.plain) (FrameCodec.new Libs.plain) (by decide)
    (by decide) ⟨by decide +kernel, by decide +kernel, trivial⟩

/-! ## The last piece -/

/-- The last piece flushes the queue of `VoiceEncoder_Opus` when the silence, which is counted
by the piece alone, is as long as the queue. -/
theorem Opus.flushes_iff {c : Opus.Of L} (short : c.overflow.length < c.frameSize)
    (last : Piece) :
    Flushes c.frameSize (c.overflow ++ last.samples) (c.chunks last.samples true).1
        (compress L last.samples last.maxCompressedBytes true c).2.overflow ↔
      c.overflow.length = 0 ∨ (last.samples.length % c.frameSize ≠ 0 ∧
        c.overflow.length + last.samples.length % c.frameSize ≤ c.frameSize) := by
  have positive : 0 < c.frameSize := by omega
  have less := Nat.mod_lt last.samples.length positive
  -- the silence fills up the piece, so the rest is as long as the queue was
  obtain ⟨silence, isSilence, fills⟩ : ∃ silence,
      silence = (if last.samples.length % c.frameSize ≠ 0 then
        c.frameSize - last.samples.length % c.frameSize else 0) ∧
      (last.samples.length + silence) % c.frameSize = 0 := by
    refine ⟨_, rfl, ?_⟩
    split
    · next some =>
        rw [← Nat.mod_add_mod, Nat.add_sub_cancel' (Nat.le_of_lt less), Nat.mod_self]
    · next none => simpa using none
  have cut := chunks_eq last.samples true (List.replicate silence 0) (by simp)
    (by subst isSilence; split <;> simp_all) positive
  have rest : (c.chunks last.samples true).2.length = c.overflow.length := by
    rw [cut.length_rest, List.length_append, List.length_append, List.length_replicate,
      Nat.add_assoc, Nat.add_mod, fills, Nat.add_zero, Nat.mod_mod, Nat.mod_eq_of_lt short]
  constructor
  · rintro ⟨-, ⟨padding, -, flat⟩, -⟩
    have lengths := congrArg List.length cut.whole
    rw [List.length_append, flat, rest] at lengths
    simp only [List.length_append, List.length_replicate] at lengths
    split at isSilence <;> omega
  · intro enough
    have covers : c.overflow.length ≤ silence := by split at isSilence <;> omega
    refine ⟨cut.full, ⟨silence - c.overflow.length, by split at isSilence <;> omega, ?_⟩,
      compress_true last.samples last.maxCompressedBytes c⟩
    have whole := cut.whole
    rw [← Nat.sub_add_cancel covers, List.replicate_add, ← List.append_assoc] at whole
    exact (List.append_inj' whole (by rw [rest, List.length_replicate])).1

/-- The last piece flushes the queue of `VoiceCodec_Frame`. -/
theorem FrameCodec.flushes {c : FrameCodec.Of L} (short : c.encodeBuffer.length < rawSamples)
    {last : Piece} (room : Room last
      ((c.encodeBuffer.length + last.samples.length + rawSamples - 1) / rawSamples)) :
    Flushes rawSamples (c.encodeBuffer ++ last.samples)
      (c.chunks last.samples last.maxCompressedBytes true).1
      (compress L last.samples last.maxCompressedBytes true c).2.encodeBuffer := by
  have less : (c.encodeBuffer.length + last.samples.length) / rawSamples ≤
      (c.encodeBuffer.length + last.samples.length + rawSamples - 1) / rawSamples :=
    Nat.div_le_div_right (by rw [show rawSamples = 160 from rfl]; omega)
  obtain ⟨full, queue, cut, same⟩ := chunks_eq short true (room.of_le less)
  change Flushes _ _ _ (c.chunks last.samples last.maxCompressedBytes true).2
  rw [same]
  cases queue with
  | nil =>
      refine ⟨cut.full, ⟨0, by decide, ?_⟩, rfl⟩
      simpa using cut.whole
  | cons sample queue =>
      -- there is room for the rest too
      have fits : full.length < (last.maxCompressedBytes / encodedBytes).toNat := by
        refine Nat.lt_of_lt_of_le ?_ room.le
        have lengths := cut.length
        rw [List.length_append, List.length_cons] at lengths
        rw [Nat.lt_div_iff_mul_lt (by decide), lengths]
        rw [show rawSamples = 160 from rfl]
        omega
      have filled := cut.fill 0
      rw [if_pos (by simpa only [List.isEmpty_cons, Bool.not_false, Bool.and_true,
        Bool.true_and, decide_eq_true_eq] using fits)]
      refine ⟨filled.full, ⟨rawSamples - (sample :: queue).length, ?_, ?_⟩, rfl⟩
      · rw [List.length_cons]
        exact Nat.sub_lt (by decide) (Nat.succ_pos _)
      · simpa only [List.append_nil] using filled.whole

/-- Both codecs, after any pieces, are flushed by the last one. -/
def FinalFlushes (L : Libs) (pieces : List Piece) (last : Piece) (opus : Opus.Of L)
    (speex : FrameCodec.Of L) : Prop :=
  let opus := (Opus.compressAll L pieces opus).2
  let speex := (FrameCodec.compressAll L pieces speex).2
  Flushes opus.frameSize (opus.overflow ++ last.samples) (opus.chunks last.samples true).1
      (Opus.compress L last.samples last.maxCompressedBytes true opus).2.overflow ∧
    Flushes FrameCodec.rawSamples (speex.encodeBuffer ++ last.samples)
      (speex.chunks last.samples last.maxCompressedBytes true).1
      (FrameCodec.compress L last.samples last.maxCompressedBytes true speex).2.encodeBuffer

/-- The frames that the last piece needs, with the one that is filled up. -/
def FrameCodec.lastFrames (L : Libs) (pieces : List Piece) (last : Piece)
    (speex : FrameCodec.Of L) : Nat :=
  ((compressAll L pieces speex).2.encodeBuffer.length + last.samples.length + rawSamples - 1) /
    rawSamples

/-- **The last piece.**  It flushes both codecs exactly when no sample was left over by the
pieces before, or when what is left over fits in the frame that the last piece does not fill. -/
theorem final_flushes_iff (L : Libs) (pieces : List Piece) (last : Piece) (opus : Opus.Of L)
    (speex : FrameCodec.Of L) (opusShort : opus.overflow.length < opus.frameSize)
    (speexShort : speex.encodeBuffer.length < FrameCodec.rawSamples)
    (rooms : FrameCodec.Rooms L pieces speex)
    (room : FrameCodec.Room last (FrameCodec.lastFrames L pieces last speex)) :
    FinalFlushes L pieces last opus speex ↔
      let queued := (opus.overflow.length + (input pieces).length) % opus.frameSize
      let excess := last.samples.length % opus.frameSize
      queued = 0 ∨ (excess ≠ 0 ∧ queued + excess ≤ opus.frameSize) := by
  obtain ⟨cut, frameSize⟩ := Opus.compressAll_cut pieces opusShort
  have opusLater : _ < _ := frameSize.symm ▸ cut.short
  have speexLater := (FrameCodec.compressAll_cut speexShort rooms).short
  have queued := cut.length_rest
  rw [List.length_append] at queued
  rw [FinalFlushes, and_iff_left (FrameCodec.flushes speexLater room),
    Opus.flushes_iff opusLater, frameSize, queued]

/-- After a piece of 100 samples a last piece of 300 fills a frame with 80 samples of silence. -/
theorem final_flushes_short :
    FinalFlushes Libs.plain [⟨List.replicate 100 1, 1024⟩] ⟨List.replicate 300 2, 1024⟩
      (Opus.new Libs.plain) (FrameCodec.new Libs.plain) :=
  (final_flushes_iff Libs.plain [⟨List.replicate 100 1, 1024⟩] ⟨List.replicate 300 2, 1024⟩
    (Opus.new Libs.plain) (FrameCodec.new Libs.plain) (by decide) (by decide)
    ⟨by decide +kernel, trivial⟩ (by decide +kernel)).2 (by decide +kernel)

/-- After a piece of 100 samples a last piece of 480 is one frame, and 100 samples are lost,
though there is room for all of them. -/
theorem final_not_flushed :
    let before : List Piece := [⟨List.replicate 100 1, 1024⟩]
    let last : Piece := ⟨List.replicate 480 2, 1024⟩
    FrameCodec.Rooms Libs.plain before (FrameCodec.new Libs.plain) ∧
      FrameCodec.Room last
        (FrameCodec.lastFrames Libs.plain before last (FrameCodec.new Libs.plain)) ∧
      ¬ FinalFlushes Libs.plain before last (Opus.new Libs.plain) (FrameCodec.new Libs.plain) := by
  refine ⟨⟨by decide +kernel, trivial⟩, by decide +kernel, ?_⟩
  rintro ⟨opus, -⟩
  have short : (Opus.compressAll Libs.plain [⟨List.replicate 100 1, 1024⟩]
    (Opus.new Libs.plain)).2.overflow.length < 480 := by decide +kernel
  have flushed := (Opus.flushes_iff short _).1 opus
  revert flushed
  decide +kernel

end Refsapi.Revoice
