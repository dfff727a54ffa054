/-
# Revoice.OpusEncoder -- where the Opus encoder writes

The loop of `VoiceEncoder_Opus::Compress` seen as the calls that it makes of `opus_encode`: where
each frame begins, the room that the call is given and what it gave (`encode_eq`).

The header of a frame is written before any room is asked for, and an error is added to the write
position as if it were a length.  `compress_bounded_iff` says for which results the writes stay
inside the output.
-/
import Refsapi.Revoice.Codecs

namespace Refsapi.Revoice

set_option autoImplicit false

/-- A call of `opus_encode`: where its frame begins, the sequence number of the frame, the room
that it was given, and what it returned and wrote. -/
structure OpusEncodeCall where
  writePos : Int
  seq : Option UInt16
  room : Int
  written : Encoded

namespace OpusEncodeCall

/-- The bytes in front of the payload. -/
def header (call : OpusEncodeCall) : Int := if call.seq.isSome then 4 else 2

/-- The size of the frame, as it is stored. -/
def size (call : OpusEncodeCall) : List UInt8 :=
  Bytes.ofNat 2 (call.written.result % 65536).toNat

def writes (call : OpusEncodeCall) : List (Int × List UInt8) :=
  (call.seq.elim [] fun nEncodeSeq => [(call.writePos + 2, Bytes.ofNat 2 nEncodeSeq.toNat)]) ++
    [(call.writePos + call.header, call.written.bytes), (call.writePos, call.size)]

end OpusEncodeCall

namespace Opus

variable (L : Libs)

/-- The bytes in front of a payload. -/
def header (packetLossConcealment : Bool) : Int := if packetLossConcealment then 4 else 2

/-- The call of `opus_encode` for a frame at a write position. -/
def encodeCall (maxCompressedBytes : Int) (block : List Int16) (writePos : Int) (c : Of L) :
    OpusEncodeCall × Of L :=
  let room := min (maxCompressedBytes - (writePos + header c.packetLossConcealment)) 0x7FFF
  let (written, encoder) := L.opusEncode block room c.encoder
  if c.packetLossConcealment then
    (⟨writePos, some c.encodeSeq, room, written⟩,
      { c with encoder, encodeSeq := c.encodeSeq + 1 })
  else (⟨writePos, none, room, written⟩, { c with encoder })

/-- The calls of `opus_encode` in the loop of `Compress`. -/
def encodeCalls (maxCompressedBytes : Int) :
    List (List Int16) → Int → Of L → List OpusEncodeCall
  | [], _, _ => []
  | block :: rest, writePos, c =>
      let (call, c) := encodeCall L maxCompressedBytes block writePos c
      call :: encodeCalls maxCompressedBytes rest (writePos + call.header + call.written.result) c

/-- Where a frame begins, by the results of `opus_encode` for those before it. -/
def frameStart (header : Int) (results : List Int) (k : Nat) : Int :=
  header * k + (results.take k).foldr (· + ·) 0

/-- All that `Compress` writes. -/
def compressWrites (samples : List Int16) (maxCompressedBytes : Int) (bFinal : Bool) (c : Of L) :
    List (Int × List UInt8) :=
  let (writes, writePos, _) := encode L maxCompressedBytes (c.chunks samples bFinal).1 0 c
  writes ++ if bFinal && writePos + 2 < maxCompressedBytes then [(writePos, [0xFF, 0xFF])] else []

/-- The calls of `opus_encode` that `Compress` makes. -/
def compressCalls (samples : List Int16) (maxCompressedBytes : Int) (bFinal : Bool) (c : Of L) :
    List OpusEncodeCall :=
  encodeCalls L maxCompressedBytes (c.chunks samples bFinal).1 0 c

variable {L}

theorem frameStart_zero (header : Int) (results : List Int) : frameStart header results 0 = 0 := by
  simp [frameStart]

theorem frameStart_succ (header result : Int) (results : List Int) (k : Nat) :
    frameStart header (result :: results) (k + 1) =
      header + result + frameStart header results k := by
  have split := Int.mul_add header k 1
  simp only [frameStart, List.take_succ_cons, List.foldr_cons, Int.natCast_add,
    Int.cast_ofNat_Int]
  omega

/-- What a call is given. -/
theorem encodeCall_spec (max : Int) (block : List Int16) (writePos : Int) (c : Of L) :
    ∃ call c', encodeCall L max block writePos c = (call, c') ∧
      call.writePos = writePos ∧ call.header = header c.packetLossConcealment ∧
      call.room = min (max - (writePos + call.header)) 0x7FFF ∧
      c'.packetLossConcealment = c.packetLossConcealment ∧
      call.seq = (if c.packetLossConcealment then some c.encodeSeq else none) ∧
      c'.encodeSeq = (if c.packetLossConcealment then c.encodeSeq + 1 else c.encodeSeq) ∧
      (∀ rest, encodeCalls L max (block :: rest) writePos c = call ::
        encodeCalls L max rest (writePos + call.header + call.written.result) c') ∧
      ∀ rest, encode L max (block :: rest) writePos c =
        let (writes, last, c') := encode L max rest
          (writePos + call.header + call.written.result) c'
        (call.writes ++ writes, last, c') := by
  obtain ⟨encoder, decoder, overflow, samplerate, bitrate, frameSize, maxFrameSize, encodeSeq,
    decodeSeq, packetLossConcealment⟩ := c
  cases packetLossConcealment with
  | false => exact ⟨_, _, rfl, rfl, rfl, rfl, rfl, rfl, rfl, fun _ => rfl, fun _ => rfl⟩
  | true =>
      refine ⟨_, _, rfl, rfl, rfl, rfl, rfl, rfl, rfl, fun _ => rfl, fun _ => ?_⟩
      have both : writePos + 2 + 2 = writePos + 4 := Int.add_assoc ..
      simp only [encode, if_true, both]
      rfl

variable {max writePos : Int} {c : Of L}

/-- **The loop is its calls.**  It writes what the calls write, and ends behind the last frame. -/
theorem encode_eq (max : Int) (blocks : List (List Int16)) (writePos : Int) (c : Of L) :
    (encode L max blocks writePos c).1 =
        (encodeCalls L max blocks writePos c).flatMap OpusEncodeCall.writes ∧
      (encode L max blocks writePos c).2.1 = writePos + frameStart (header c.packetLossConcealment)
        ((encodeCalls L max blocks writePos c).map (·.written.result)) blocks.length := by
  induction blocks generalizing writePos c with
  | nil => exact ⟨rfl, by simp [encode, encodeCalls, frameStart_zero]⟩
  | cons block rest ih =>
      obtain ⟨call, c', -, -, headed, -, lossy, -, -, calls, same⟩ :=
        encodeCall_spec max block writePos c
      obtain ⟨writes, ends⟩ := ih (writePos + call.header + call.written.result) c'
      rw [same, calls]
      refine ⟨congrArg (call.writes ++ ·) writes, ?_⟩
      rw [List.map_cons, List.length_cons, frameStart_succ]
      rw [lossy] at ends
      refine ends.trans ?_
      rw [← headed]
      omega

theorem length_encodeCalls (max : Int) (blocks : List (List Int16)) (writePos : Int) (c : Of L) :
    (encodeCalls L max blocks writePos c).length = blocks.length := by
  induction blocks generalizing writePos c with
  | nil => rfl
  | cons block rest ih => exact congrArg (· + 1) (ih _ _)

/-- Where the calls are, and the room that they are given. -/
theorem encodeCalls_getElem (blocks : List (List Int16)) (k : Nat)
    (within : k < (encodeCalls L max blocks writePos c).length) :
    ∃ call, (encodeCalls L max blocks writePos c)[k] = call ∧
      call.header = header c.packetLossConcealment ∧
      call.writePos = writePos + frameStart (header c.packetLossConcealment)
        ((encodeCalls L max blocks writePos c).map (·.written.result)) k ∧
      call.room = min (max - (call.writePos + call.header)) 0x7FFF := by
  refine ⟨_, rfl, ?_⟩
  induction blocks generalizing k writePos c with
  | nil => exact absurd within (Nat.not_lt_zero k)
  | cons block rest ih =>
      obtain ⟨call, c', -, starts, headed, room, lossy, -, -, calls, -⟩ :=
        encodeCall_spec max block writePos c
      simp only [calls] at within ⊢
      cases k with
      | zero =>
          simp only [List.getElem_cons_zero, frameStart_zero, Int.add_zero]
          exact ⟨headed, starts, starts ▸ room⟩
      | succ k =>
          simp only [List.getElem_cons_succ, List.map_cons, frameStart_succ]
          obtain ⟨headed', starts', room'⟩ := ih k (Nat.lt_of_succ_lt_succ within)
          rw [lossy] at headed' starts'
          refine ⟨headed', starts'.trans ?_, room'⟩
          rw [headed]
          omega

end Opus

/-! ## Inside the output -/

/-- `opus_encode` fails with a negative error, or writes a number of bytes that it has room for. -/
structure OpusEncodeCall.Answers (call : OpusEncodeCall) : Prop where
  fits : call.written.result < 0 ∨ 1 ≤ call.written.result ∧ call.written.result ≤ call.room
  bytes : (call.written.bytes.length : Int) = max call.written.result 0

instance (call : OpusEncodeCall) : Decidable call.Answers :=
  decidable_of_iff (_ ∧ _) ⟨fun ⟨fits, bytes⟩ => ⟨fits, bytes⟩, fun ⟨fits, bytes⟩ => ⟨fits, bytes⟩⟩

/-- A write inside an output of so many bytes. -/
def Within (maxCompressedBytes : Int) (write : Int × List UInt8) : Prop :=
  ∀ i : Nat, i < write.2.length → 0 ≤ write.1 + i ∧ write.1 + i < maxCompressedBytes

/-- A write that has bytes is inside when both its ends are. -/
theorem within_iff {maxCompressedBytes writePos : Int} {bytes : List UInt8}
    (some : 0 < bytes.length) :
    Within maxCompressedBytes (writePos, bytes) ↔
      0 ≤ writePos ∧ writePos + bytes.length ≤ maxCompressedBytes := by
  constructor
  · intro within
    have first := within 0 some
    have last := within (bytes.length - 1) (Nat.sub_lt some Nat.one_pos)
    simp only at first last
    omega
  · rintro ⟨low, high⟩ i short
    simp only at short ⊢
    omega

namespace OpusEncodeCall

variable {call : OpusEncodeCall} {maxCompressedBytes : Int}

theorem length_size (call : OpusEncodeCall) : call.size.length = 2 := Bytes.length_ofNat ..

/-- The stored size is the end marker for results that are -1 up to the wrap. -/
theorem size_eq_marker_iff (call : OpusEncodeCall) :
    call.size = [0xFF, 0xFF] ↔ call.written.result % 65536 = 0xFFFF := by
  have marker : Bytes.ofNat 2 0xFFFF = [0xFF, 0xFF] := by decide
  rw [size, ← marker]
  constructor
  · intro same
    have wraps : (call.written.result % 65536).toNat < 256 ^ 2 := by
      rw [show 256 ^ 2 = 65536 from rfl]
      omega
    have equal := Bytes.ofNat_inj wraps (by decide) same
    omega
  · intro same
    rw [same]
    rfl

/-- The writes of a call are inside the output when its header is, and its room is not
negative. -/
theorem writes_within (answers : call.Answers) (low : 0 ≤ call.writePos)
    (high : call.writePos + call.header ≤ maxCompressedBytes)
    (room : call.room ≤ maxCompressedBytes - (call.writePos + call.header)) :
    ∀ write ∈ call.writes, Within maxCompressedBytes write := by
  have fits := answers.fits
  have length := answers.bytes
  intro write isWrite
  rw [writes, List.mem_append] at isWrite
  rcases isWrite with isSeq | isRest
  · cases numbered : call.seq with
    | none =>
        rw [numbered] at isSeq
        exact absurd isSeq List.not_mem_nil
    | some nEncodeSeq =>
        rw [numbered, Option.elim_some, List.mem_singleton] at isSeq
        rw [header, numbered] at high
        rw [isSeq, within_iff (by rw [Bytes.length_ofNat]; decide), Bytes.length_ofNat]
        simp at high
        omega
  · have two : 2 ≤ call.header := by
      rw [header]
      split <;> decide
    rcases List.mem_cons.1 isRest with rfl | isSize
    · intro i short
      simp only at short ⊢
      omega
    · rw [List.mem_singleton.1 isSize, within_iff (by rw [length_size]; decide), length_size]
      omega

end OpusEncodeCall

namespace Opus

variable {L : Libs}

/-- `Compress` writes inside the output, gives `opus_encode` no negative room, and stores the end
marker for no frame that failed. -/
structure Bounded (samples : List Int16) (maxCompressedBytes : Int) (bFinal : Bool) (c : Of L) :
    Prop where
  writes : ∀ write ∈ compressWrites L samples maxCompressedBytes bFinal c,
    Within maxCompressedBytes write
  rooms : ∀ call ∈ compressCalls L samples maxCompressedBytes bFinal c, 0 ≤ call.room
  marks : ∀ call ∈ compressCalls L samples maxCompressedBytes bFinal c,
    call.written.result < 0 → call.size ≠ [0xFF, 0xFF]

/-- The results of `opus_encode`, by which each header finds its place in the output, no error is
-1 up to the wrap, and the end marker is not written in front of the output. -/
structure Fitting (header maxCompressedBytes : Int) (bFinal : Bool) (results : List Int) :
    Prop where
  starts : ∀ k < results.length, 0 ≤ frameStart header results k ∧
    frameStart header results k + header ≤ maxCompressedBytes
  errors : ∀ result ∈ results, result < 0 → result % 65536 ≠ 0xFFFF
  ends : bFinal = true → frameStart header results results.length + 2 < maxCompressedBytes →
    0 ≤ frameStart header results results.length

/-- What `Compress` returns, and the bytes behind the output pointer, are those of its writes. -/
theorem compress_eq (samples : List Int16) (max : Int) (bFinal : Bool) (c : Of L) :
    (compress L samples max bFinal c).1.bytes =
      Bytes.contents (compressWrites L samples max bFinal c)
        (compress L samples max bFinal c).1.result.toNat := by
  cases bFinal with
  | false => simp [compress, compressWrites]
  | true =>
      simp only [compress, compressWrites, if_true, Bool.true_and, decide_eq_true_eq]
      split
      · rfl
      · rw [List.append_nil]

theorem compressCalls_getElem {samples : List Int16} {max : Int} {bFinal : Bool} {c : Of L}
    {call : OpusEncodeCall} (isCall : call ∈ compressCalls L samples max bFinal c) :
    ∃ k, ∃ within : k < (compressCalls L samples max bFinal c).length,
      (compressCalls L samples max bFinal c)[k] = call ∧
      call.header = header c.packetLossConcealment ∧
      call.writePos = frameStart (header c.packetLossConcealment)
        ((compressCalls L samples max bFinal c).map (·.written.result)) k ∧
      call.room = min (max - (call.writePos + call.header)) 0x7FFF := by
  obtain ⟨k, within, same⟩ := List.getElem_of_mem isCall
  obtain ⟨call, here, headed, starts, room⟩ := encodeCalls_getElem _ k within
  rw [Int.zero_add] at starts
  obtain rfl := here.symm.trans same
  exact ⟨k, within, same, headed, starts, room⟩

/-- The results of the calls of `opus_encode`. -/
def compressResults (L : Libs) (samples : List Int16) (max : Int) (bFinal : Bool) (c : Of L) :
    List Int :=
  (compressCalls L samples max bFinal c).map (·.written.result)

theorem length_compressResults (samples : List Int16) (max : Int) (bFinal : Bool) (c : Of L) :
    (compressResults L samples max bFinal c).length = (c.chunks samples bFinal).1.length := by
  rw [compressResults, List.length_map, compressCalls, length_encodeCalls]

theorem compressWrites_eq (samples : List Int16) (max : Int) (bFinal : Bool) (c : Of L) :
    compressWrites L samples max bFinal c =
      let results := compressResults L samples max bFinal c
      let ends := frameStart (header c.packetLossConcealment) results results.length
      (compressCalls L samples max bFinal c).flatMap OpusEncodeCall.writes ++
        if bFinal && ends + 2 < max then [(ends, [0xFF, 0xFF])] else [] := by
  obtain ⟨writes, ends⟩ := encode_eq max (c.chunks samples bFinal).1 0 c
  rw [Int.zero_add] at ends
  simp only [length_compressResults, compressWrites, writes, ends]
  rfl

end Opus

/-- **The output of the Opus encoder is bounded for results that fit.**  When every call of
`opus_encode` fails with a negative error or stays inside its room, then `Compress` stays inside
its output, gives no negative room and stores no end marker for a failed frame exactly when the
results leave room for each header, none of the errors is -1, and they do not lead the end marker
in front of the output. -/
theorem compress_bounded_iff (L : Libs) (samples : List Int16) (max : Int) (bFinal : Bool)
    (c : Opus.Of L) (answers : ∀ call ∈ Opus.compressCalls L samples max bFinal c, call.Answers) :
    Opus.Bounded samples max bFinal c ↔
      Opus.Fitting (Opus.header c.packetLossConcealment) max bFinal
        (Opus.compressResults L samples max bFinal c) := by
  have isWrites := Opus.compressWrites_eq samples max bFinal c
  generalize isHeader : Opus.header c.packetLossConcealment = header at isWrites ⊢
  constructor
  · rintro ⟨writes, rooms, marks⟩
    refine ⟨fun k within => ?_, fun result isResult failed => ?_, fun final room => ?_⟩
    · have within : k < (Opus.compressCalls L samples max bFinal c).length := by
        rwa [Opus.compressResults, List.length_map] at within
      have isCall := List.getElem_mem within
      obtain ⟨call, here, headed, starts, room⟩ := Opus.encodeCalls_getElem _ k within
      rw [isHeader, Int.zero_add] at starts
      rw [isHeader] at headed
      have isCall : call ∈ Opus.compressCalls L samples max bFinal c := here ▸ isCall
      have low := rooms call isCall
      have size : (call.writePos, call.size) ∈ Opus.compressWrites L samples max bFinal c := by
        rw [isWrites]
        refine List.mem_append_left _ (List.mem_flatMap.2 ⟨call, isCall, ?_⟩)
        exact List.mem_append_right _ (List.mem_cons_of_mem _ (List.mem_singleton_self _))
      have inside := (within_iff (by rw [call.length_size]; decide)).1 (writes _ size)
      have starts : call.writePos =
        Opus.frameStart header (Opus.compressResults L samples max bFinal c) k := starts
      rw [← starts, ← headed]
      omega
    · obtain ⟨call, isCall, rfl⟩ := List.mem_map.1 isResult
      exact fun wraps => marks call isCall failed (call.size_eq_marker_iff.2 wraps)
    · have marker := writes (Opus.frameStart header (Opus.compressResults L samples max bFinal c)
        (Opus.compressResults L samples max bFinal c).length, [0xFF, 0xFF])
      refine ((within_iff (by decide)).1 (marker ?_)).1
      rw [isWrites]
      refine List.mem_append_right _ ?_
      rw [if_pos (by simpa only [final, Bool.true_and, decide_eq_true_eq] using room)]
      exact List.mem_singleton_self _
  · rintro ⟨starts, errors, ends⟩
    have placed {call : OpusEncodeCall}
        (isCall : call ∈ Opus.compressCalls L samples max bFinal c) :
        0 ≤ call.writePos ∧ call.writePos + call.header ≤ max ∧
          call.room = min (max - (call.writePos + call.header)) 0x7FFF := by
      obtain ⟨k, within, -, headed, start, room⟩ := Opus.compressCalls_getElem isCall
      have place := starts k (by rwa [Opus.compressResults, List.length_map])
      rw [isHeader, ← Opus.compressResults] at start
      rw [isHeader] at headed
      rw [← start] at place
      exact ⟨place.1, headed ▸ place.2, room⟩
    refine ⟨fun write isWrite => ?_, fun call isCall => ?_, fun call isCall failed isMarker => ?_⟩
    · rw [isWrites, List.mem_append] at isWrite
      rcases isWrite with isWrite | isMarker
      · obtain ⟨call, isCall, isWrite⟩ := List.mem_flatMap.1 isWrite
        obtain ⟨low, high, room⟩ := placed isCall
        exact call.writes_within (answers call isCall) low high (by omega) write isWrite
      · split at isMarker
        · next final =>
            obtain ⟨final, room⟩ : bFinal = true ∧ _ := by
              simpa only [Bool.and_eq_true, decide_eq_true_eq] using final
            have low := ends final room
            rw [List.mem_singleton.1 isMarker, within_iff (by decide)]
            simp only [List.length_cons, List.length_nil]
            omega
        · exact absurd isMarker List.not_mem_nil
    · obtain ⟨low, high, room⟩ := placed isCall
      omega
    · exact errors _ (List.mem_map_of_mem isCall) failed (call.size_eq_marker_iff.1 isMarker)

/-- A frame of silence at 24000 Hz. -/
def oneFrame : List Int16 := List.replicate 480 0

theorem compress_bounded_iff_one : Opus.Bounded oneFrame 1024 true (Opus.new Libs.plain) :=
  (compress_bounded_iff Libs.plain oneFrame 1024 true (Opus.new Libs.plain)
    (by decide +kernel)).2 ⟨by decide +kernel, by decide +kernel, by decide +kernel⟩

/-- Libraries whose Opus encoder fails with `OPUS_BAD_ARG`. -/
def Libs.failing : Libs :=
  { Libs.plain with opusEncode := fun _ _ encoder => (⟨-1, []⟩, encoder) }

/-- The error is stored as the end marker. -/
theorem not_always_marked : ¬ ∀ (L : Libs) (samples : List Int16) (max : Int) (bFinal : Bool)
    (c : Opus.Of L), 0 ≤ max →
    (∀ call ∈ Opus.compressCalls L samples max bFinal c, call.Answers) →
    Opus.Bounded samples max bFinal c := by
  intro always
  have bounded := always Libs.failing oneFrame 1024 false (Opus.new Libs.failing) (by decide)
    (by decide +kernel)
  have failed : ∃ call ∈ Opus.compressCalls Libs.failing oneFrame 1024 false
      (Opus.new Libs.failing), call.written.result < 0 ∧ call.size = [0xFF, 0xFF] := by
    decide +kernel
  obtain ⟨call, isCall, negative, marker⟩ := failed
  exact bounded.marks call isCall negative marker

end Refsapi.Revoice
