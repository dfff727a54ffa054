/-
# Revoice.SilkQueue -- what the Silk encoder does with the samples it is given

`VoiceEncoder_Silk::Compress` with its loop; `SKP_Silk_SDK_Encode` and the two states are a
parameter.

The queue and the samples of a call are read as one stream.  Afterwards the queue is cleared,
and what fills no frame is put back from the samples of the call alone: when there is more of it
than the call had samples, all of it is lost.  The samples of a run come through exactly when no
call leaves more over than it was given (`silk_lossless_iff`).
-/
import Refsapi.Revoice.Queues

namespace Refsapi.Revoice

set_option autoImplicit false

/-- `SKP_SILK_SDK_EncControlStruct` -/
structure EncControl where
  apiSampleRate : Int
  maxInternalSampleRate : Int
  packetSize : Int
  bitRate : Int
  packetLossPercentage : Int
  complexity : Int
  useInBandFEC : Int
  useDTX : Int
  deriving DecidableEq, Repr

/-- The Silk library: the bytes that `SKP_Silk_SDK_Encode` writes, and `nBytesOut`. -/
structure SilkLib where
  Encoder : Type
  Decoder : Type
  initEncoder : Encoder
  initDecoder : Decoder
  encode : EncControl → List Int16 → Int16 → Encoder → (List UInt8 × Int16) × Encoder

namespace SilkLib

variable (S : SilkLib)

abbrev Codec : Type := Silk S.Encoder S.Decoder

/-! ## `VoiceEncoder_Silk::Compress` -/

/-- The constructor, and `Init`. -/
def new : S.Codec := ⟨S.initEncoder, S.initDecoder, 24000, 10000, []⟩

def resetState (c : S.Codec) : S.Codec :=
  { c with encoder := S.initEncoder, decoder := S.initDecoder, overflow := [] }

variable {S} in
/-- `m_encControl`, as each round of the loop sets it; `m_packetLoss_perc` is always 0. -/
def encControl (c : S.Codec) : EncControl where
  useDTX := 0
  maxInternalSampleRate := c.samplerate.toNat
  useInBandFEC := 0
  apiSampleRate := c.samplerate.toNat
  complexity := 2
  packetSize := c.samplerate.toNat / 50
  packetLossPercentage := 0
  bitRate := if 0 ≤ c.bitrate then c.bitrate else 0

variable {S} in
def samplesPerFrame (c : S.Codec) : Nat := c.samplerate.toNat / 50

variable {S} in
/-- The blocks that `Compress` hands to `SKP_Silk_SDK_Encode`, and what it puts into
`m_bufOverflowBytes` after it has cleared it; nothing when the remainder traps. -/
def chunks (c : S.Codec) (samples : List Int16) : Option (List (List Int16) × List Int16) :=
  let samplesToUse := if c.overflow.isEmpty then samples else c.overflow ++ samples
  if samplesPerFrame c = 0 then none
  else
    let nSamplesRemaining := samplesToUse.length % samplesPerFrame c
    let nSamples := samplesToUse.length - nSamplesRemaining
    some (blocksOf (samplesPerFrame c) (samplesToUse.take nSamples),
      if nSamplesRemaining ≤ samples.length ∧ nSamplesRemaining ≠ 0 then
        samples.drop (samples.length - nSamplesRemaining)
      else [])

/-- The loop of `Compress`: the writes that it makes from the output pointer on, and where it
ends. -/
def encodeAll (maxCompressedBytes : Int) :
    List (List Int16) → Int → S.Codec → List (Int × List UInt8) × Int × S.Codec
  | [], writePos, c => ([], writePos, c)
  | block :: rest, writePos, c =>
      let size := writePos
      let writePos := writePos + 2
      let originalNBytes :=
        if maxCompressedBytes - writePos > 0xFFFF then -1 else maxCompressedBytes - writePos
      let ((bytes, nBytes), encoder) :=
        S.encode (encControl c) block (Int16.ofInt originalNBytes) c.encoder
      let (writes, last, c) :=
        encodeAll maxCompressedBytes rest (writePos + nBytes.toInt) { c with encoder }
      ((writePos, bytes) :: (size, Bytes.ofNat 2 (nBytes.toInt % 65536).toNat) :: writes, last, c)

/-- `VoiceEncoder_Silk::Compress` -/
def compress (samples : List Int16) (maxCompressedBytes : Int) (bFinal : Bool) (c : S.Codec) :
    Option (Encoded × S.Codec) := do
  let (blocks, overflow) ← chunks c samples
  let (writes, writePos, c) := S.encodeAll maxCompressedBytes blocks 0 c
  let c := { c with overflow }
  if bFinal then
    let c := S.resetState c
    if writePos + 2 < maxCompressedBytes then
      return (⟨writePos + 2,
        Bytes.contents (writes ++ [(writePos, [0xFF, 0xFF])]) (writePos + 2).toNat⟩, c)
    else return (⟨writePos, Bytes.contents writes writePos.toNat⟩, c)
  else return (⟨writePos, Bytes.contents writes writePos.toNat⟩, c)

/-- The frames that calls which are not the last hand to `SKP_Silk_SDK_Encode`, and the codec
after them. -/
def compressAll : List Piece → S.Codec → Option (List (List Int16) × S.Codec)
  | [], c => some ([], c)
  | piece :: rest, c => do
      let (frames, _) ← chunks c piece.samples
      let (_, c) ← S.compress piece.samples piece.maxCompressedBytes false c
      let (later, c) ← compressAll rest c
      return (frames ++ later, c)

/-- The frames that a run handed over and the queue it left are the samples that came in. -/
def Lossless (pieces : List Piece) (c : S.Codec) : Prop :=
  ∃ frames later, S.compressAll pieces c = some (frames, later) ∧
    frames.flatten ++ later.overflow = c.overflow ++ input pieces

/-! ## One call -/

variable {S} {c : S.Codec}

theorem encodeAll_samplerate (max : Int) (blocks : List (List Int16)) (writePos : Int)
    (c : S.Codec) : (S.encodeAll max blocks writePos c).2.2.samplerate = c.samplerate := by
  induction blocks generalizing writePos c with
  | nil => rfl
  | cons block rest ih =>
      simp only [encodeAll]
      rw [ih]

theorem compress_false {samples : List Int16} {blocks : List (List Int16)} {rest : List Int16}
    (cut : chunks c samples = some (blocks, rest)) (max : Int) :
    ∃ encoded later, S.compress samples max false c = some (encoded, later) ∧
      later.overflow = rest ∧ later.samplerate = c.samplerate := by
  let run := S.encodeAll max blocks 0 c
  refine ⟨⟨run.2.1, Bytes.contents run.1 run.2.1.toNat⟩, { run.2.2 with overflow := rest }, ?_,
    rfl, encodeAll_samplerate max blocks 0 c⟩
  rw [compress, cut]
  rfl

/-- The stream of a call is cut, and what is over is kept when the call had as many samples. -/
theorem chunks_cut (positive : 0 < samplesPerFrame c) (samples : List Int16) :
    ∃ blocks rest, Cut (samplesPerFrame c) (c.overflow ++ samples) blocks rest ∧
      chunks c samples = some (blocks, if rest.length ≤ samples.length then rest else []) := by
  have stream : (if c.overflow.isEmpty then samples else c.overflow ++ samples) =
      c.overflow ++ samples := by
    split
    · next empty => rw [List.isEmpty_iff.1 empty, List.nil_append]
    · rfl
  have cut := blocksOf_cut positive (c.overflow ++ samples)
  refine ⟨_, _, cut, ?_⟩
  rw [chunks, if_neg (Nat.ne_of_gt positive)]
  simp only [stream]
  rw [cut.length_rest]
  generalize isOver : (c.overflow ++ samples).length % samplesPerFrame c = excess
  by_cases kept : excess ≤ samples.length
  · have tail : (c.overflow ++ samples).drop ((c.overflow ++ samples).length - excess) =
        samples.drop (samples.length - excess) := by
      rw [List.length_append, Nat.add_sub_assoc kept, List.drop_append]
      simp
    rw [if_pos kept, tail]
    by_cases none : excess = 0
    · simp [none]
    · rw [if_pos ⟨kept, none⟩]
  · rw [if_neg kept, if_neg fun both => kept both.1]

/-! ## A run -/

variable {piece : Piece} {rest : List Piece}

/-- A run makes its first call, and goes on with what that left. -/
theorem compressAll_cons (piece : Piece) (rest : List Piece) (positive : 0 < samplesPerFrame c) :
    ∃ blocks excess later, Cut (samplesPerFrame c) (c.overflow ++ piece.samples) blocks excess ∧
      later.overflow = (if excess.length ≤ piece.samples.length then excess else []) ∧
      later.samplerate = c.samplerate ∧
      S.compressAll (piece :: rest) c =
        (S.compressAll rest later).map fun run => (blocks ++ run.1, run.2) := by
  obtain ⟨blocks, excess, cut, chunked⟩ := chunks_cut positive piece.samples
  obtain ⟨encoded, later, compressed, overflow, samplerate⟩ :=
    compress_false chunked piece.maxCompressedBytes
  refine ⟨blocks, excess, later, cut, overflow, samplerate, ?_⟩
  rw [compressAll, chunked]
  change (S.compress piece.samples piece.maxCompressedBytes false c).bind _ = _
  rw [compressed]
  change (S.compressAll rest later).bind _ = _
  cases S.compressAll rest later <;> rfl

/-- A run hands over and keeps no more than it was given. -/
theorem compressAll_length {pieces : List Piece} {frames : List (List Int16)} {later : S.Codec}
    (positive : 0 < samplesPerFrame c) (run : S.compressAll pieces c = some (frames, later)) :
    (frames.flatten ++ later.overflow).length ≤ (c.overflow ++ input pieces).length := by
  induction pieces generalizing c frames with
  | nil =>
      cases run
      simp [input]
  | cons piece rest ih =>
      obtain ⟨blocks, excess, next, cut, overflow, samplerate, goesOn⟩ :=
        compressAll_cons piece rest positive
      rw [goesOn, Option.map_eq_some_iff] at run
      obtain ⟨⟨frames, last⟩, run, same⟩ := run
      cases same
      have samePositive : 0 < samplesPerFrame next := by rwa [samplesPerFrame, samplerate]
      have fewer := ih samePositive run
      have lengths := congrArg List.length cut.whole
      have kept : next.overflow.length ≤ excess.length := by
        rw [overflow]
        split
        · exact Nat.le_refl _
        · exact Nat.zero_le _
      simp only [List.length_append, List.flatten_append, input, List.map_cons,
        List.flatten_cons] at fewer lengths ⊢
      omega

/-- Of a call that keeps what is over the run is lossless when the rest of it is. -/
theorem lossless_cons {blocks : List (List Int16)} {excess : List Int16} {later : S.Codec}
    (cut : Cut (samplesPerFrame c) (c.overflow ++ piece.samples) blocks excess)
    (overflow : later.overflow = excess)
    (run : S.compressAll (piece :: rest) c =
      (S.compressAll rest later).map fun run => (blocks ++ run.1, run.2)) :
    S.Lossless (piece :: rest) c ↔ S.Lossless rest later := by
  have whole : c.overflow ++ input (piece :: rest) =
      blocks.flatten ++ (later.overflow ++ input rest) := by
    rw [overflow, ← List.append_assoc, cut.whole, List.append_assoc]
    rfl
  constructor
  · rintro ⟨frames, last, ran, same⟩
    rw [run, Option.map_eq_some_iff] at ran
    obtain ⟨⟨frames, last⟩, ran, same'⟩ := ran
    cases same'
    refine ⟨frames, last, ran, ?_⟩
    rw [whole, List.flatten_append, List.append_assoc] at same
    exact List.append_cancel_left same
  · rintro ⟨frames, last, ran, same⟩
    refine ⟨blocks ++ frames, last, by rw [run, ran]; rfl, ?_⟩
    rw [whole, List.flatten_append, List.append_assoc, same]

/-- A call that does not keep what is over loses it for the run. -/
theorem not_lossless_cons {blocks : List (List Int16)} {excess : List Int16} {later : S.Codec}
    (positive : 0 < samplesPerFrame c)
    (cut : Cut (samplesPerFrame c) (c.overflow ++ piece.samples) blocks excess)
    (overflow : later.overflow = []) (lost : excess ≠ [])
    (samplerate : later.samplerate = c.samplerate)
    (run : S.compressAll (piece :: rest) c =
      (S.compressAll rest later).map fun run => (blocks ++ run.1, run.2)) :
    ¬ S.Lossless (piece :: rest) c := by
  rintro ⟨frames, last, ran, same⟩
  rw [run, Option.map_eq_some_iff] at ran
  obtain ⟨⟨frames, last⟩, ran, same'⟩ := ran
  cases same'
  have samePositive : 0 < samplesPerFrame later := by rwa [samplesPerFrame, samplerate]
  have fewer := compressAll_length samePositive ran
  have some := List.length_pos_iff.2 lost
  have lengths := congrArg List.length cut.whole
  have total := congrArg List.length same
  simp only [List.length_append, List.flatten_append, input, List.map_cons, overflow,
    List.flatten_cons, List.length_nil] at fewer lengths total
  omega

/-- Each call has at least the samples that are over, after whole frames of all that came in. -/
def Covers (queued frame : Nat) (pieces : List Piece) : Prop :=
  ∀ before piece after, pieces = before ++ piece :: after →
    (queued + (input (before ++ [piece])).length) % frame ≤ piece.samples.length

theorem covers_cons {queued frame : Nat} :
    Covers queued frame (piece :: rest) ↔
      (queued + piece.samples.length) % frame ≤ piece.samples.length ∧
        Covers ((queued + piece.samples.length) % frame) frame rest := by
  have first : (input ([] ++ [piece])).length = piece.samples.length := by simp [input]
  have later (before : List Piece) (call : Piece) :
      (queued + (input (piece :: before ++ [call])).length) % frame =
        ((queued + piece.samples.length) % frame + (input (before ++ [call])).length) % frame := by
    rw [Nat.mod_add_mod, Nat.add_assoc, ← List.length_append]
    rfl
  constructor
  · intro covers
    refine ⟨first ▸ covers [] piece rest rfl, ?_⟩
    rintro before call after rfl
    rw [← later]
    exact covers (piece :: before) call after rfl
  · rintro ⟨here, after⟩ before call tail same
    cases before with
    | nil =>
        obtain ⟨rfl, rfl⟩ := List.cons.inj same
        rwa [first]
    | cons head before =>
        obtain ⟨rfl, rfl⟩ := List.cons.inj same
        rw [later]
        exact after before call tail rfl

theorem lossless_iff_covers {pieces : List Piece} (positive : 0 < samplesPerFrame c) :
    S.Lossless pieces c ↔ Covers c.overflow.length (samplesPerFrame c) pieces := by
  induction pieces generalizing c with
  | nil =>
      refine ⟨fun _ before piece after same => ?_, fun _ => ⟨[], c, rfl, by simp [input]⟩⟩
      exact absurd same.symm (List.append_ne_nil_of_right_ne_nil _ (List.cons_ne_nil _ _))
  | cons piece rest ih =>
      obtain ⟨blocks, excess, later, cut, overflow, samplerate, run⟩ :=
        compressAll_cons piece rest positive
      have frame : samplesPerFrame later = samplesPerFrame c := by
        rw [samplesPerFrame, samplerate]
        rfl
      have length := cut.length_rest
      rw [List.length_append] at length
      rw [covers_cons, ← length]
      by_cases kept : excess.length ≤ piece.samples.length
      · rw [if_pos kept] at overflow
        rw [lossless_cons cut overflow run, ih (frame ▸ positive), frame, overflow,
          and_iff_right kept]
      · rw [if_neg kept] at overflow
        have lost : excess ≠ [] := by
          rintro rfl
          exact kept (Nat.zero_le _)
        exact iff_of_false (not_lossless_cons positive cut overflow lost samplerate run)
          fun both => kept both.1

end SilkLib

/-! ## No sample is lost -/

/-- **The Silk encoder.**  From an empty queue the samples of a run come through exactly when
the sample rate has a frame, and each call has at least the samples that are over. -/
theorem silk_lossless_iff (S : SilkLib) (pieces : List Piece) (c : S.Codec)
    (empty : c.overflow = []) :
    S.Lossless pieces c ↔
      (pieces = [] ∨ 50 ≤ c.samplerate.toNat) ∧
        ∀ before piece after, pieces = before ++ piece :: after →
          (input (before ++ [piece])).length % (c.samplerate.toNat / 50) ≤
            piece.samples.length := by
  by_cases positive : 0 < SilkLib.samplesPerFrame c
  · have rate : 50 ≤ c.samplerate.toNat := by
      rw [SilkLib.samplesPerFrame] at positive
      omega
    rw [SilkLib.lossless_iff_covers positive, SilkLib.Covers, empty, and_iff_right (.inr rate)]
    simp only [List.length_nil, Nat.zero_add, SilkLib.samplesPerFrame]
  · have none : SilkLib.samplesPerFrame c = 0 := Nat.eq_zero_of_not_pos positive
    have rate : ¬ 50 ≤ c.samplerate.toNat := by
      rw [SilkLib.samplesPerFrame] at none
      omega
    cases pieces with
    | nil =>
        refine iff_of_true ⟨[], c, rfl, by simp [input]⟩ ⟨.inl rfl, ?_⟩
        intro before piece after same
        exact absurd same.symm (List.append_ne_nil_of_right_ne_nil _ (List.cons_ne_nil _ _))
    | cons piece rest =>
        refine iff_of_false ?_ fun both => both.1.elim (List.cons_ne_nil _ _) rate
        -- the first remainder traps
        rintro ⟨frames, later, run, -⟩
        have traps : SilkLib.chunks c piece.samples = .none := by rw [SilkLib.chunks, if_pos none]
        rw [SilkLib.compressAll, traps] at run
        cases run

/-- A stand-in for the library, to run the model with. -/
def SilkLib.plain : SilkLib where
  Encoder := Unit
  Decoder := Unit
  initEncoder := ()
  initDecoder := ()
  encode _ _ _ encoder := (([0], 1), encoder)

/-- A piece of 100 samples, and one of 500. -/
theorem silk_lossless_two :
    SilkLib.plain.Lossless [⟨List.replicate 100 1, 1024⟩, ⟨List.replicate 500 2, 1024⟩]
      SilkLib.plain.new := by
  refine (silk_lossless_iff SilkLib.plain _ SilkLib.plain.new rfl).2 ⟨.inr (by decide), ?_⟩
  intro before piece after same
  rcases before with _ | ⟨first, _ | ⟨second, before⟩⟩
  · obtain ⟨rfl, -⟩ := List.cons.inj same
    decide +kernel
  · obtain ⟨rfl, tail⟩ := List.cons.inj same
    obtain ⟨rfl, -⟩ := List.cons.inj tail
    decide +kernel
  · have lengths := congrArg List.length same
    simp only [List.length_cons, List.length_append, List.length_nil] at lengths
    omega

/-- Of a piece of 100 samples and one of 50 nothing is left. -/
theorem silk_loses :
    ¬ SilkLib.plain.Lossless [⟨List.replicate 100 1, 1024⟩, ⟨List.replicate 50 2, 1024⟩]
      SilkLib.plain.new := by
  intro lossless
  have covers := (SilkLib.lossless_iff_covers (by decide)).1 lossless
  exact absurd (covers [⟨List.replicate 100 1, 1024⟩] _ [] rfl) (by decide +kernel)

end Refsapi.Revoice
