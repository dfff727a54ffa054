/-
# Revoice.OpusRoundTrip -- what the Opus encoder sends is what the decoder is given

`VoiceEncoder_Opus::Compress` lays out the frames of its calls side by side, each numbered one more
than the one before, over the end of a packet and into the next (`compress_frames`).
`VoiceEncoder_Opus::Decompress` takes such a packet apart again without a frame that it thinks
lost (`run_frames`).  Together they round-trip for any number of packets (`framing_roundTrip`).
-/
import Refsapi.Revoice.OpusEncoder
import Refsapi.Revoice.OpusPacket
import Refsapi.Revoice.Queues

namespace Refsapi.Revoice

set_option autoImplicit false

/-! ## Frames in a row -/

/-- The frames are numbered one after the other, when they are numbered at all. -/
def Numbered (packetLossConcealment : Bool) : List OpusFrame → UInt16 → Prop
  | [], _ => True
  | f :: rest, seq =>
      f.seq = (if packetLossConcealment then some seq else none) ∧
        Numbered packetLossConcealment rest (if packetLossConcealment then seq + 1 else seq)

theorem length_le_flatMap (frames : List OpusFrame) :
    frames.length ≤ (frames.flatMap OpusFrame.bytes).length := by
  induction frames with
  | nil => exact Nat.le_refl 0
  | cons f rest ih =>
      have long := OpusFrame.two_le_length_header f.payload.length f.seq
      rw [List.flatMap_cons, List.length_append, List.length_cons, OpusFrame.bytes,
        List.length_append]
      omega

/-- The sequence number behind a number of frames. -/
def seqAfter (packetLossConcealment : Bool) (seq : UInt16) (frames : Nat) : UInt16 :=
  if packetLossConcealment then seq + UInt16.ofNat frames else seq

theorem seqAfter_zero (packetLossConcealment : Bool) (seq : UInt16) :
    seqAfter packetLossConcealment seq 0 = seq := by
  simp [seqAfter]

theorem seqAfter_succ (packetLossConcealment : Bool) (seq : UInt16) (frames : Nat) :
    seqAfter packetLossConcealment seq (frames + 1) =
      seqAfter packetLossConcealment (if packetLossConcealment then seq + 1 else seq) frames := by
  cases packetLossConcealment with
  | false => rfl
  | true =>
      simp only [seqAfter, if_true]
      rw [UInt16.add_assoc, UInt16.add_comm 1, UInt16.ofNat_add]
      rfl

/-- `opus_encode` wrote a number of bytes that it had room for. -/
structure OpusEncodeCall.Succeeds (call : OpusEncodeCall) : Prop where
  positive : 1 ≤ call.written.result
  fits : call.written.result ≤ call.room
  bytes : (call.written.bytes.length : Int) = call.written.result

instance (call : OpusEncodeCall) : Decidable call.Succeeds :=
  decidable_of_iff (_ ∧ _ ∧ _)
    ⟨fun ⟨positive, fits, bytes⟩ => ⟨positive, fits, bytes⟩,
      fun ⟨positive, fits, bytes⟩ => ⟨positive, fits, bytes⟩⟩

def OpusEncodeCall.frame (call : OpusEncodeCall) : OpusFrame := ⟨call.seq, call.written.bytes⟩

/-! ## The encoder -/

/-- The writes of a call lay out its frame. -/
theorem OpusEncodeCall.lays_frame {call : OpusEncodeCall} (succeeds : call.Succeeds)
    (small : call.room ≤ 0x7FFF) :
    Bytes.Lays call.writes call.writePos call.frame.bytes ∧
      (call.frame.bytes.length : Int) = call.header + call.written.result := by
  obtain ⟨positive, fits, bytes⟩ := succeeds
  have stored : call.size = Bytes.ofNat 2 call.written.bytes.length := by
    rw [size]
    congr 1
    omega
  have header : (OpusFrame.header call.written.bytes.length call.seq).length = call.header := by
    rw [OpusFrame.length_header, OpusEncodeCall.header]
    split <;> rfl
  refine ⟨?_, ?_⟩
  · have size : Bytes.Lays [(call.writePos, call.size)] call.writePos _ := .single _ _
    have seq : Bytes.Lays (call.seq.elim [] fun n => [(call.writePos + 2, Bytes.ofNat 2 n.toNat)])
        (call.writePos + 2) (call.seq.elim [] fun n => Bytes.ofNat 2 n.toNat) := by
      cases call.seq with
      | none => exact .nil _
      | some n => exact .single _ _
    rw [OpusFrame.header, List.length_append, Bytes.length_ofNat] at header
    have payload : Bytes.Lays [(call.writePos + call.header, call.written.bytes)] _ _ :=
      .single _ _
    have tail := (seq.parts payload (by omega)).1
    have whole := (size.parts tail (by rw [length_size]; rfl)).2
    rw [List.append_assoc] at whole
    rw [writes, OpusFrame.bytes, OpusFrame.header, List.append_assoc]
    simp only [frame, ← stored]
    exact whole
  · rw [OpusFrame.bytes, List.length_append]
    simp only [frame]
    omega

namespace Opus

variable {L : Libs}

/-- The calls of the loop lay out their frames side by side, and number them. -/
theorem encodeCalls_frames (max : Int) (blocks : List (List Int16)) (writePos : Int) (c : Of L)
    (succeed : ∀ call ∈ encodeCalls L max blocks writePos c, call.Succeeds) :
    let calls := encodeCalls L max blocks writePos c
    let frames := calls.map OpusEncodeCall.frame
    let out := encode L max blocks writePos c
    Bytes.Lays out.1 writePos (frames.flatMap OpusFrame.bytes) ∧
      out.2.1 = writePos + (frames.flatMap OpusFrame.bytes).length ∧
      Numbered c.packetLossConcealment frames c.encodeSeq ∧
      out.2.2.packetLossConcealment = c.packetLossConcealment ∧
      out.2.2.encodeSeq = seqAfter c.packetLossConcealment c.encodeSeq calls.length := by
  induction blocks generalizing writePos c with
  | nil => exact ⟨.nil _, (Int.add_zero _).symm, trivial, rfl, (seqAfter_zero _ _).symm⟩
  | cons block rest ih =>
      obtain ⟨call, c', -, starts, headed, room, lossy, seq, next, calls, same⟩ :=
        encodeCall_spec max block writePos c
      rw [calls] at succeed
      have small : call.room ≤ 0x7FFF := room ▸ Int.min_le_right ..
      obtain ⟨lays, length⟩ :=
        OpusEncodeCall.lays_frame (succeed call (List.mem_cons_self ..)) small
      obtain ⟨later, ends, numbered, lossy', seq'⟩ := ih (writePos + call.header +
        call.written.result) c' fun call' later => succeed call' (List.mem_cons_of_mem _ later)
      rw [starts] at lays
      simp only [calls, same, List.map_cons, List.flatMap_cons, List.length_cons]
      rw [lossy] at numbered seq' lossy'
      refine ⟨(lays.parts later (by omega)).1, ?_, ⟨seq, ?_⟩, lossy', ?_⟩
      · rw [ends, List.length_append]
        omega
      · rwa [next] at numbered
      · rw [seqAfter_succ, ← next]
        exact seq'

/-- What a call that is not the last returns are the frames, one behind the other. -/
theorem compress_frames (samples : List Int16) (max : Int) (c : Of L)
    (succeed : ∀ call ∈ compressCalls L samples max false c, call.Succeeds) :
    let frames := (compressCalls L samples max false c).map OpusEncodeCall.frame
    let out := compress L samples max false c
    out.1.bytes = frames.flatMap OpusFrame.bytes ∧
      Numbered c.packetLossConcealment frames c.encodeSeq ∧
      out.2.packetLossConcealment = c.packetLossConcealment ∧
      out.2.encodeSeq = seqAfter c.packetLossConcealment c.encodeSeq frames.length := by
  obtain ⟨lays, ends, numbered, lossy, seq⟩ := encodeCalls_frames max _ 0 c succeed
  have contents := lays.contents
  rw [Int.zero_add] at ends
  refine ⟨?_, numbered, lossy, by rwa [List.length_map]⟩
  simp only [compress, Bool.false_eq_true, if_false, ends, Int.toNat_natCast]
  exact contents

/-- The payloads are neither empty nor as long as the end marker says. -/
theorem compress_payloads (samples : List Int16) (max : Int) (c : Of L)
    (succeed : ∀ call ∈ compressCalls L samples max false c, call.Succeeds) :
    ∀ f ∈ (compressCalls L samples max false c).map OpusEncodeCall.frame,
      0 < f.payload.length ∧ f.payload.length < 0xFFFF := by
  intro f isFrame
  obtain ⟨call, isCall, rfl⟩ := List.mem_map.1 isFrame
  obtain ⟨positive, fits, bytes⟩ := succeed call isCall
  obtain ⟨k, within, -, -, -, room⟩ := compressCalls_getElem isCall
  simp only [OpusEncodeCall.frame]
  omega

end Opus

/-! ## The decoder -/

/-- What `Decompress` asks of its decoder. -/
inductive OpusAsked where
  | payload (bytes : List UInt8)
  | lost
  | reset
  deriving DecidableEq

def OpusAction.asked? {D : Type} : OpusAction D → Option OpusAsked
  | .decode (some payload) _ _ _ => some (.payload payload)
  | .decode none _ _ _ => some .lost
  | .reset => some .reset
  | _ => none

namespace OpusLoop

variable {L : Libs} {opusDecode : OpusDecode L} {input : OpusInput}

def asked (s : Of L) : List OpusAsked := s.actions.filterMap OpusAction.asked?

theorem asked_act (s : Of L) (action : OpusAction L.OpusDecoder) :
    (s.actions ++ [action]).filterMap OpusAction.asked? = s.asked ++ action.asked?.toList := by
  rw [List.filterMap_append, asked]
  cases asks : action.asked? <;> simp [asks]

theorem asked_load (len : Nat) (s : Of L) : (s.load len).asked = s.asked :=
  (asked_act s _).trans (List.append_nil _)

theorem asked_decode (payload : List UInt8) (s : Of L) :
    (s.decode opusDecode (some payload)).asked = s.asked ++ [.payload payload] := by
  obtain ⟨decoder, decoded, -, same⟩ := decode_eq opusDecode (some payload) s
  rw [same]
  exact asked_act s _

/-- A frame that the decoder waits for is not taken for anything else. -/
theorem sequence_expected (s : Of L) :
    s.sequence opusDecode input s.codec.decodeSeq =
      { s with codec := { s.codec with decodeSeq := s.codec.decodeSeq + 1 } } := by
  rw [sequence, if_neg (UInt16.lt_irrefl _), if_neg (not_not.2 rfl)]

variable (opusDecode input) in
/-- The header of a frame that the decoder waits for. -/
theorem header_expected {s : Of L} {seq : Option UInt16}
    (expected : seq = if s.codec.packetLossConcealment then some s.codec.decodeSeq else none) :
    (s.header opusDecode input seq).asked = s.asked ∧
      (s.header opusDecode input seq).writePos = s.writePos ∧
      (s.header opusDecode input seq).codec = { s.codec with
        decodeSeq := if s.codec.packetLossConcealment then s.codec.decodeSeq + 1
          else s.codec.decodeSeq } := by
  subst expected
  cases lossy : s.codec.packetLossConcealment with
  | false => exact ⟨asked_load 2 s, rfl, rfl⟩
  | true =>
      have expects : s.header opusDecode input (some s.codec.decodeSeq) =
          ((s.load 2).load 2).sequence opusDecode input ((s.load 2).load 2).codec.decodeSeq := rfl
      simp only [if_true]
      rw [expects, sequence_expected]
      exact ⟨(asked_load 2 _).trans (asked_load 2 s), rfl, rfl⟩

/-- A payload that is delivered is handed to the decoder, and takes no more than a frame. -/
theorem deliver_payload {payload : List UInt8} (positive : 0 < payload.length) {s : Of L}
    (sized : s.codec.Sized) (short : ∀ payload frameSize decoder,
      (opusDecode payload frameSize decoder).1.result ≤ frameSize) :
    (s.deliver opusDecode payload).asked = s.asked ++ [.payload payload] ∧
      (s.deliver opusDecode payload).writePos ≤ s.writePos + s.codec.maxFrameSize ∧
      ∃ decoder, (s.deliver opusDecode payload).codec = { s.codec with decoder } := by
  have filled : OpusLoop.asked { s with
      actions := s.actions ++ [.fill s.writePos s.codec.maxFrameSize] } = s.asked :=
    (asked_act s _).trans (List.append_nil _)
  generalize isFilled : ({ s with
    actions := s.actions ++ [.fill s.writePos s.codec.maxFrameSize] } : Of L) = t at filled
  obtain ⟨decoder, decoded, answers, same⟩ :=
    decode_eq opusDecode (some payload) (t.load payload.length)
  have size : s.codec.frameSize * 2 = s.codec.maxFrameSize := sized
  have few : decoded.result ≤ s.codec.frameSize := by
    subst isFilled
    exact (congrArg (·.1.result) answers) ▸ short (some payload) s.codec.frameSize s.codec.decoder
  have delivers : s.deliver opusDecode payload =
      (t.load payload.length).decode opusDecode (some payload) := by
    rw [deliver, if_neg (Nat.ne_of_gt positive), isFilled]
  refine ⟨?_, ?_, decoder, ?_⟩
  · rw [delivers, asked_decode, asked_load, filled]
  · rw [delivers, same, ← isFilled]
    simp only [load_writePos]
    omega
  · rw [delivers, same, ← isFilled]
    rfl

/-- A frame that the decoder waits for, and the state behind it. -/
theorem round_expected {s : Of L} {f : OpusFrame} {tail : List UInt8}
    (sized : s.codec.Sized) (short : ∀ payload frameSize decoder,
      (opusDecode payload frameSize decoder).1.result ≤ frameSize)
    (payload : 0 < f.payload.length ∧ f.payload.length < 0xFFFF)
    (expected : f.seq = if s.codec.packetLossConcealment then some s.codec.decodeSeq else none)
    (lies : input.packet.drop s.readPos = f.bytes ++ tail) (room : s.Room input) :
    ∃ t, s.round opusDecode input = t ∧ t.left = s.left ∧ input.packet.drop t.readPos = tail ∧
      t.readPos = s.readPos + f.bytes.length ∧
      t.asked = s.asked ++ [.payload f.payload] ∧
      t.writePos ≤ s.writePos + s.codec.maxFrameSize ∧
      ∃ decoder, t.codec = { s.codec with
        decoder
        decodeSeq := if s.codec.packetLossConcealment then s.codec.decodeSeq + 1
          else s.codec.decodeSeq } := by
  have fits : f.Fits s.codec.packetLossConcealment := by
    refine ⟨payload.2, ?_⟩
    rw [expected]
    cases s.codec.packetLossConcealment <;> rfl
  obtain ⟨asked, writePos, codec⟩ := header_expected opusDecode input expected
  have headed : (s.header opusDecode input f.seq).Room input := by
    rw [Room, writePos, codec]
    exact room
  have sized' : (s.header opusDecode input f.seq).codec.Sized := by
    rw [codec]
    exact sized
  obtain ⟨asked', writePos', decoder, codec'⟩ := deliver_payload payload.1 sized' short
  refine ⟨_, round_frame fits lies, ?_⟩
  rw [if_pos headed, deliver_left, header_left, deliver_readPos, header_readPos f.payload.length]
  have lies' := lies
  rw [OpusFrame.bytes, List.append_assoc] at lies'
  refine ⟨rfl, drop_add (drop_add lies'), ?_, ?_, ?_, decoder, ?_⟩
  · rw [OpusFrame.bytes, List.length_append, Nat.add_assoc]
  · rw [asked', asked]
  · rw [writePos, codec] at writePos'
    exact writePos'
  · rw [codec', codec]

/-- The frames that the decoder waits for are handed to it, one after the other. -/
theorem rounds_frames {frames : List OpusFrame} {s : Of L} {n : Nat} (sized : s.codec.Sized)
    (short : ∀ payload frameSize decoder,
      (opusDecode payload frameSize decoder).1.result ≤ frameSize)
    (payloads : ∀ f ∈ frames, 0 < f.payload.length ∧ f.payload.length < 0xFFFF)
    (numbered : Numbered s.codec.packetLossConcealment frames s.codec.decodeSeq)
    (goes : s.left = false) (lies : input.packet.drop s.readPos = frames.flatMap OpusFrame.bytes)
    (room : (s.writePos + frames.length * s.codec.maxFrameSize : Nat) ≤
      input.maxUncompressedBytes)
    (enough : frames.length ≤ n) :
    (s.rounds opusDecode input n).asked = s.asked ++ frames.map (.payload ·.payload) ∧
      ∃ decoder, (s.rounds opusDecode input n).codec = { s.codec with
        decoder
        decodeSeq :=
          seqAfter s.codec.packetLossConcealment s.codec.decodeSeq frames.length } := by
  induction frames generalizing s n with
  | nil =>
      have done : ¬ s.GoesOn input := fun goesOn =>
        Nat.not_le.2 goesOn.2 (List.drop_eq_nil_iff.1 lies)
      rw [rounds_of_done done, List.length_nil, seqAfter_zero]
      exact ⟨(List.append_nil _).symm, s.codec.decoder, rfl⟩
  | cons f rest ih =>
      obtain ⟨expected, numbered⟩ := numbered
      rw [List.flatMap_cons] at lies
      rw [List.length_cons, Nat.succ_mul] at room
      have first : s.Room input := by
        rw [Room]
        omega
      obtain ⟨t, same, left, drop, readPos, asked, writePos, decoder, codec⟩ :=
        round_expected sized short (payloads f (List.mem_cons_self ..)) expected lies first
      obtain ⟨n, rfl⟩ : ∃ more, n = more + 1 := ⟨n - 1, by rw [List.length_cons] at enough; omega⟩
      have long : 0 < f.bytes.length := by
        have header := OpusFrame.two_le_length_header f.payload.length f.seq
        rw [OpusFrame.bytes, List.length_append]
        omega
      have goesOn : s.GoesOn input := by
        refine ⟨goes, ?_⟩
        have lengths := congrArg List.length lies
        rw [List.length_drop, List.length_append] at lengths
        omega
      rw [rounds_succ n goesOn, same]
      have sized' : t.codec.Sized := by
        rw [codec]
        exact sized
      obtain ⟨asked', decoder', codec'⟩ := ih sized'
        (fun g later => payloads g (List.mem_cons_of_mem _ later)) (by rw [codec]; exact numbered)
        (left.trans goes) drop (by rw [codec]; simp only; omega) (Nat.le_of_succ_le_succ enough)
      refine ⟨?_, decoder', ?_⟩
      · rw [asked', asked, List.append_assoc, List.map_cons, List.singleton_append]
      · rw [codec', codec, List.length_cons, seqAfter_succ]

/-- A packet of frames that the decoder waits for. -/
theorem run_frames {frames : List OpusFrame} {c : Opus.Of L} (sized : c.Sized)
    (short : ∀ payload frameSize decoder,
      (opusDecode payload frameSize decoder).1.result ≤ frameSize)
    (payloads : ∀ f ∈ frames, 0 < f.payload.length ∧ f.payload.length < 0xFFFF)
    (numbered : Numbered c.packetLossConcealment frames c.decodeSeq)
    (packet : input.packet = frames.flatMap OpusFrame.bytes)
    (room : (frames.length * c.maxFrameSize : Nat) ≤ input.maxUncompressedBytes) :
    (run opusDecode input c).asked = frames.map (.payload ·.payload) ∧
      ∃ decoder, (run opusDecode input c).codec = { c with
        decoder
        decodeSeq := seqAfter c.packetLossConcealment c.decodeSeq frames.length } := by
  have enough : frames.length ≤ input.packet.length := by
    rw [packet]
    exact length_le_flatMap frames
  have starts : (start c).writePos = 0 := rfl
  refine rounds_frames sized short payloads numbered rfl packet ?_ enough
  rw [starts, Nat.zero_add]
  exact room

end OpusLoop

/-! ## The round trip -/

/-- What a call of `Compress` asked of `opus_encode`, and what it returned and wrote. -/
structure OpusSent where
  calls : List OpusEncodeCall
  out : Encoded

namespace Opus

variable {L : Libs}

/-- Calls of `Compress` that are not the last, one after the other. -/
def compressEach (L : Libs) : List Piece → Of L → List OpusSent
  | [], _ => []
  | piece :: rest, c =>
      let (out, next) := compress L piece.samples piece.maxCompressedBytes false c
      ⟨compressCalls L piece.samples piece.maxCompressedBytes false c, out⟩ ::
        compressEach L rest next

/-- What calls of `Decompress` ask of the decoder, one after the other. -/
def decompressEach (opusDecode : OpusDecode L) : List OpusInput → Of L → List OpusAsked
  | [], _ => []
  | input :: rest, c =>
      let s := OpusLoop.run opusDecode input c
      s.asked ++ decompressEach opusDecode rest s.codec

end Opus

/-- The packet was received, and its frames of so many bytes have room in the output. -/
structure OpusReceives (maxFrameSize : Nat) (input : OpusInput) (sent : OpusSent) : Prop where
  packet : input.packet = sent.out.bytes
  room : (sent.calls.length * maxFrameSize : Nat) ≤ input.maxUncompressedBytes

/-- **Opus framing round-trips.**  When the encoder succeeds in all its calls, a decoder that
starts at its sequence number and is given the packets in their order hands exactly the payloads
of the encoder to `opus_decode`, in their order, with no lost frame and no reset among them. -/
theorem framing_roundTrip (L : Libs) (opusDecode : OpusDecode L) (pieces : List Piece)
    (inputs : List OpusInput) (encoder decoder : Opus.Of L)
    (succeed : ∀ sent ∈ Opus.compressEach L pieces encoder, ∀ call ∈ sent.calls, call.Succeeds)
    (short : ∀ payload frameSize decoder,
      (opusDecode payload frameSize decoder).1.result ≤ frameSize)
    (sized : decoder.Sized)
    (lossy : decoder.packetLossConcealment = encoder.packetLossConcealment)
    (seq : decoder.decodeSeq = encoder.encodeSeq)
    (received : List.Forall₂ (OpusReceives decoder.maxFrameSize) inputs
      (Opus.compressEach L pieces encoder)) :
    Opus.decompressEach opusDecode inputs decoder =
      (Opus.compressEach L pieces encoder).flatMap fun sent =>
        sent.calls.map fun call => .payload call.written.bytes := by
  induction pieces generalizing inputs encoder decoder with
  | nil =>
      rw [Opus.compressEach] at received
      cases received
      rfl
  | cons piece rest ih =>
      rw [Opus.compressEach] at received
      cases received with
      | @cons input _ others _ first received =>
          obtain ⟨packet, room⟩ := first
          have succeeds := succeed _ (List.mem_cons_self ..)
          obtain ⟨bytes, numbered, lossy', seq'⟩ := Opus.compress_frames _ _ _ succeeds
          rw [← lossy, ← seq] at numbered
          simp only at packet room
          rw [← List.length_map OpusEncodeCall.frame] at room
          obtain ⟨asked, state, codec⟩ := OpusLoop.run_frames sized short
            (Opus.compress_payloads _ _ _ succeeds) numbered (packet.trans bytes) room
          have next := ih others
            (Opus.compress L piece.samples piece.maxCompressedBytes false encoder).2
            (OpusLoop.run opusDecode input decoder).codec
            (fun sent later => succeed sent (List.mem_cons_of_mem _ later)) (codec ▸ sized)
            (by rw [codec, lossy', ← lossy]) (by rw [codec, seq', lossy, seq])
            (by rw [codec]; exact received)
          rw [Opus.decompressEach, asked, next, Opus.compressEach, List.flatMap_cons, List.map_map]
          rfl

/-- A piece that waits in the queue, and one that makes two frames. -/
def twoPieces : List Piece := [⟨List.replicate 100 1, 1024⟩, ⟨List.replicate 900 2, 1024⟩]

theorem framing_roundTrip_two :
    Opus.decompressEach OpusDecode.plain
        [⟨[], fun _ => 0, 32768⟩, ⟨[1, 0, 0, 0, 0, 1, 0, 1, 0, 0], fun _ => 0, 32768⟩]
        (Opus.new Libs.plain) =
      (Opus.compressEach Libs.plain twoPieces (Opus.new Libs.plain)).flatMap fun sent =>
        sent.calls.map fun call => .payload call.written.bytes := by
  refine framing_roundTrip Libs.plain OpusDecode.plain twoPieces _ (Opus.new Libs.plain)
    (Opus.new Libs.plain) (by decide +kernel) (fun _ _ _ => Int.le_refl _) (Opus.sized_init _) rfl
    rfl ?_
  simp only [twoPieces, Opus.compressEach]
  exact .cons ⟨by decide +kernel, by decide +kernel⟩
    (.cons ⟨by decide +kernel, by decide +kernel⟩ .nil)

end Refsapi.Revoice
