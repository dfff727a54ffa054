/-
# Revoice.OpusPacket -- the frames of an Opus payload

A payload is a row of frames, each a size, with loss concealment a sequence number, and as many
bytes as the size says; the size 0xFFFF ends it.  A round of `VoiceEncoder_Opus::Decompress` at a
whole frame delivers it (`round_frame`).

The loop asks whether a frame is in the packet only behind its header.  So it reads inside the
packet unless it comes to a header that breaks off (`decompress_safe_iff`).
-/
import Refsapi.Revoice.OpusDecoder

namespace Refsapi.Revoice

set_option autoImplicit false

/-- A frame of a payload; it has a sequence number with loss concealment. -/
structure OpusFrame where
  seq : Option UInt16
  payload : List UInt8

namespace OpusFrame

/-- The header of a frame. -/
def header (size : Nat) (seq : Option UInt16) : List UInt8 :=
  Bytes.ofNat 2 size ++ seq.elim [] fun n => Bytes.ofNat 2 n.toNat

def bytes (f : OpusFrame) : List UInt8 := header f.payload.length f.seq ++ f.payload

/-- The frame can be told from the end of the payload, and its header is of the kind that the
codec reads. -/
structure Fits (packetLossConcealment : Bool) (f : OpusFrame) : Prop where
  sized : f.payload.length < 0xFFFF
  numbered : f.seq.isSome = packetLossConcealment

theorem length_header (size : Nat) (seq : Option UInt16) :
    (header size seq).length = if seq.isSome then 4 else 2 := by
  cases seq <;> simp [header]

theorem two_le_length_header (size : Nat) (seq : Option UInt16) :
    2 ≤ (header size seq).length := by
  rw [length_header]
  split <;> decide

end OpusFrame

/-- The header of a frame that breaks off at the end of the packet. -/
def CutHeader (packetLossConcealment : Bool) (rest : List UInt8) : Prop :=
  rest.length = 1 ∨ packetLossConcealment = true ∧ (rest.length = 2 ∨ rest.length = 3) ∧
    rest.take 2 ≠ [0xFF, 0xFF]

instance (packetLossConcealment : Bool) (rest : List UInt8) :
    Decidable (CutHeader packetLossConcealment rest) := inferInstanceAs (Decidable (_ ∨ _))

/-- What the rest of a packet begins with. -/
inductive Heads (packetLossConcealment : Bool) : List UInt8 → Prop where
  | cut {rest : List UInt8} : CutHeader packetLossConcealment rest →
      Heads packetLossConcealment rest
  | ends (tail : List UInt8) : Heads packetLossConcealment (0xFF :: 0xFF :: tail)
  | frame (size : Nat) (seq : Option UInt16) (tail : List UInt8) : size < 0xFFFF →
      seq.isSome = packetLossConcealment →
      Heads packetLossConcealment (OpusFrame.header size seq ++ tail)

theorem ofNat_toNat_two (a b : UInt8) : Bytes.ofNat 2 (Bytes.toNat [a, b]) = [a, b] :=
  Bytes.ofNat_toNat [a, b]

theorem toNat_two_lt (a b : UInt8) : Bytes.toNat [a, b] < 65536 := by
  have bound := Bytes.toNat_lt [a, b]
  rwa [show 256 ^ [a, b].length = 65536 by rw [List.length_cons, List.length_singleton]; rfl]
    at bound

theorem heads (packetLossConcealment : Bool) {rest : List UInt8} (more : rest ≠ []) :
    Heads packetLossConcealment rest := by
  match rest, more with
  | [_], _ => exact .cut (.inl rfl)
  | a :: b :: tail, _ =>
      have bound := toNat_two_lt a b
      by_cases marker : Bytes.toNat [a, b] = 0xFFFF
      · have same := ofNat_toNat_two a b
        rw [marker, show Bytes.ofNat 2 0xFFFF = [0xFF, 0xFF] by decide] at same
        obtain ⟨rfl, rfl⟩ : 0xFF = a ∧ 0xFF = b := by simpa using same
        exact .ends tail
      · have size : Bytes.toNat [a, b] < 0xFFFF := by omega
        have other : [a, b] ≠ [0xFF, 0xFF] := by
          intro same
          exact marker (congrArg Bytes.toNat same)
        cases packetLossConcealment with
        | false =>
            have whole : Heads false _ := .frame _ none tail size rfl
            rwa [OpusFrame.header, ofNat_toNat_two] at whole
        | true =>
            match tail with
            | [] => exact .cut (.inr ⟨rfl, .inl rfl, other⟩)
            | [c] => exact .cut (.inr ⟨rfl, .inr rfl, other⟩)
            | c :: d :: tail =>
                have number : (UInt16.ofNat (Bytes.toNat [c, d])).toNat = Bytes.toNat [c, d] :=
                  UInt16.toNat_ofNat_of_lt' (toNat_two_lt c d)
                have whole : Heads true _ :=
                  .frame _ (some (UInt16.ofNat (Bytes.toNat [c, d]))) tail size rfl
                rwa [OpusFrame.header, ofNat_toNat_two, Option.elim_some, number,
                  ofNat_toNat_two] at whole

theorem ofNat_two_inj {m n : Nat} (small : m < 65536) (small' : n < 65536)
    (same : Bytes.ofNat 2 m = Bytes.ofNat 2 n) : m = n :=
  Bytes.ofNat_inj (show m < 256 ^ 2 from small) small' same

/-- Headers of one kind are told apart by their bytes. -/
theorem header_inj {m n : Nat} {seq seq' : Option UInt16} {tail tail' : List UInt8}
    (small : m < 65536) (small' : n < 65536) (kind : seq.isSome = seq'.isSome)
    (same : OpusFrame.header m seq ++ tail = OpusFrame.header n seq' ++ tail') :
    m = n ∧ seq = seq' ∧ tail = tail' := by
  have lengths : (OpusFrame.header m seq).length = (OpusFrame.header n seq').length := by
    rw [OpusFrame.length_header, OpusFrame.length_header, kind]
  obtain ⟨headers, tails⟩ := List.append_inj same lengths
  have widths : (Bytes.ofNat 2 m).length = (Bytes.ofNat 2 n).length := by
    rw [Bytes.length_ofNat, Bytes.length_ofNat]
  obtain ⟨sizes, numbers⟩ := List.append_inj headers widths
  refine ⟨ofNat_two_inj small small' sizes, ?_, tails⟩
  cases seq with
  | none => exact (Option.isNone_iff_eq_none.1 (by simpa using kind)).symm
  | some n =>
      obtain ⟨n', rfl⟩ := Option.isSome_iff_exists.1 kind.symm
      exact congrArg some (UInt16.toNat_inj.1 (ofNat_two_inj n.toNat_lt n'.toNat_lt numbers))

/-- Behind a number of whole frames the packet has a header that breaks off. -/
structure Breaks (packetLossConcealment : Bool) (frames : List OpusFrame)
    (cut packet : List UInt8) : Prop where
  whole : packet = frames.flatMap OpusFrame.bytes ++ cut
  fits : ∀ f ∈ frames, f.Fits packetLossConcealment
  cut : CutHeader packetLossConcealment cut

namespace Breaks

variable {packetLossConcealment : Bool} {frames : List OpusFrame} {cut tail : List UInt8}

theorem ne_nil : ¬ Breaks packetLossConcealment frames cut [] := by
  rintro ⟨whole, -, header⟩
  rw [(List.append_eq_nil_iff.1 whole.symm).2] at header
  rcases header with one | ⟨-, two | three, -⟩ <;> contradiction

theorem ne_marker : ¬ Breaks packetLossConcealment frames cut (0xFF :: 0xFF :: tail) := by
  rintro ⟨whole, fits, header⟩
  have marker : Bytes.ofNat 2 0xFFFF = [0xFF, 0xFF] := by decide
  cases frames with
  | nil =>
      rw [List.flatMap_nil, List.nil_append] at whole
      subst whole
      rcases header with one | ⟨-, -, other⟩
      · simp at one
      · exact other rfl
  | cons f more =>
      have sized := (fits f (List.mem_cons_self ..)).sized
      rw [List.flatMap_cons, OpusFrame.bytes, OpusFrame.header] at whole
      simp only [List.append_assoc] at whole
      have widths : [(0xFF : UInt8), 0xFF].length = (Bytes.ofNat 2 f.payload.length).length := rfl
      have whole : [(0xFF : UInt8), 0xFF] ++ tail = Bytes.ofNat 2 f.payload.length ++ _ := whole
      have same := (List.append_inj whole widths).1
      rw [← marker] at same
      have size := ofNat_two_inj (by decide) (Nat.lt_succ_of_lt sized) same
      omega

/-- A packet that begins with the header of a frame has the rest of the frame, and breaks off
behind it. -/
theorem cons {size : Nat} {seq : Option UInt16} (small : size < 0xFFFF)
    (numbered : seq.isSome = packetLossConcealment) :
    Breaks packetLossConcealment frames cut (OpusFrame.header size seq ++ tail) ↔
      ∃ payload more packet, tail = payload ++ packet ∧ payload.length = size ∧
        frames = ⟨seq, payload⟩ :: more ∧ Breaks packetLossConcealment more cut packet := by
  constructor
  · rintro ⟨whole, fits, header⟩
    cases frames with
    | nil =>
        have lengths := congrArg List.length whole
        rw [List.length_append, OpusFrame.length_header, numbered, List.flatMap_nil,
          List.nil_append] at lengths
        rcases header with one | ⟨rfl, few, -⟩
        · split at lengths <;> omega
        · rw [if_pos rfl] at lengths
          omega
    | cons f more =>
        obtain ⟨sized, kind⟩ := fits f (List.mem_cons_self ..)
        rw [List.flatMap_cons, OpusFrame.bytes, List.append_assoc, List.append_assoc] at whole
        obtain ⟨rfl, rfl, rfl⟩ := header_inj (Nat.lt_succ_of_lt small) (Nat.lt_succ_of_lt sized)
          (numbered.trans kind.symm) whole
        exact ⟨f.payload, more, _, rfl, rfl, rfl, rfl,
          fun g member => fits g (List.mem_cons_of_mem _ member), header⟩
  · rintro ⟨payload, more, packet, rfl, rfl, rfl, whole, fits, header⟩
    refine ⟨?_, fun f member => ?_, header⟩
    · rw [whole, List.flatMap_cons, OpusFrame.bytes, List.append_assoc, List.append_assoc]
    · rcases List.mem_cons.1 member with rfl | member
      · exact ⟨small, numbered⟩
      · exact fits f member

end Breaks

/-! ## A round at a frame -/

namespace OpusLoop

variable {L : Libs} {opusDecode : OpusDecode L} {input : OpusInput} {s : Of L}

/-- What is stored in the packet is loaded. -/
theorem bytes_of_drop {readPos : Nat} {part tail : List UInt8}
    (lies : input.packet.drop readPos = part ++ tail) :
    input.bytes readPos part.length = part := by
  have lengths := congrArg List.length lies
  rw [List.length_drop, List.length_append] at lengths
  by_cases empty : part.length = 0
  · rw [List.length_eq_zero_iff.1 empty]
    rfl
  · rw [OpusInput.bytes_eq (by omega), lies, List.take_left]

theorem uint16_of_drop {readPos n : Nat} {tail : List UInt8} (small : n < 65536)
    (lies : input.packet.drop readPos = Bytes.ofNat 2 n ++ tail) :
    input.uint16 readPos = UInt16.ofNat n := by
  have stored := bytes_of_drop lies
  rw [Bytes.length_ofNat] at stored
  rw [OpusInput.uint16, stored, Bytes.toNat_ofNat_of_lt (show n < 256 ^ 2 from small)]

theorem drop_add {readPos : Nat} {part tail : List UInt8}
    (lies : input.packet.drop readPos = part ++ tail) :
    input.packet.drop (readPos + part.length) = tail := by
  rw [← List.drop_drop, lies, List.drop_left]

variable (opusDecode input) in
/-- The part of a round that reads the header of a frame. -/
def header (seq : Option UInt16) (s : Of L) : Of L :=
  match seq with
  | none => s.load 2
  | some nCurSeq => ((s.load 2).load 2).sequence opusDecode input nCurSeq

/-- A round that comes to the end marker. -/
theorem round_ends {tail : List UInt8} (lies : input.packet.drop s.readPos = 0xFF :: 0xFF :: tail) :
    s.round opusDecode input =
      { (s.load 2).reset with
        codec := { (s.load 2).reset.codec with decodeSeq := 0 }
        left := true } := by
  have lies : input.packet.drop s.readPos = Bytes.ofNat 2 0xFFFF ++ tail := by
    rw [lies, show Bytes.ofNat 2 0xFFFF = [0xFF, 0xFF] by decide]
    rfl
  have marker : input.uint16 s.readPos = 0xFFFF := uint16_of_drop (by decide) lies
  simp only [round, marker, if_true]

/-- A round that comes to the header of a frame. -/
theorem round_header {size : Nat} {seq : Option UInt16} {tail : List UInt8}
    (small : size < 0xFFFF) (numbered : seq.isSome = s.codec.packetLossConcealment)
    (lies : input.packet.drop s.readPos = OpusFrame.header size seq ++ tail) :
    s.round opusDecode input =
      (s.header opusDecode input seq).body opusDecode input (UInt16.ofNat size) := by
  rw [OpusFrame.header, List.append_assoc] at lies
  have first : input.uint16 s.readPos = UInt16.ofNat size := uint16_of_drop (by omega) lies
  have goesOn : UInt16.ofNat size ≠ 0xFFFF := by
    intro same
    have same := congrArg UInt16.toNat same
    rw [UInt16.toNat_ofNat_of_lt' (Nat.lt_succ_of_lt small)] at same
    exact Nat.ne_of_lt small same
  cases seq with
  | none => simp only [round, first, goesOn, load_codec, ← numbered, header]; rfl
  | some nCurSeq =>
      have second : input.uint16 (s.readPos + 2) = nCurSeq := by
        have lies := drop_add lies
        rw [Bytes.length_ofNat] at lies
        rw [uint16_of_drop nCurSeq.toNat_lt lies, UInt16.ofNat_toNat]
      simp only [round, first, goesOn, load_codec, load_readPos, ← numbered, header, second]
      rfl

theorem header_readPos (size : Nat) (seq : Option UInt16) (s : Of L) :
    (s.header opusDecode input seq).readPos = s.readPos + (OpusFrame.header size seq).length := by
  rw [OpusFrame.length_header]
  cases seq with
  | none => rfl
  | some nCurSeq => exact (like_sequence nCurSeq _).readPos

theorem header_left (seq : Option UInt16) (s : Of L) :
    (s.header opusDecode input seq).left = s.left := by
  cases seq with
  | none => rfl
  | some nCurSeq => exact (like_sequence nCurSeq _).left

theorem header_packetLossConcealment (seq : Option UInt16) (s : Of L) :
    (s.header opusDecode input seq).codec.packetLossConcealment =
      s.codec.packetLossConcealment := by
  cases seq with
  | none => rfl
  | some nCurSeq => exact (like_sequence nCurSeq _).packetLossConcealment

theorem deliver_packetLossConcealment (payload : List UInt8) (s : Of L) :
    (s.deliver opusDecode payload).codec.packetLossConcealment =
      s.codec.packetLossConcealment := by
  rw [deliver]
  split
  · rfl
  · exact (like_decode ..).packetLossConcealment

theorem deliver_left (payload : List UInt8) (s : Of L) :
    (s.deliver opusDecode payload).left = s.left := by
  rw [deliver]
  split
  · rfl
  · exact (like_decode ..).left

/-- A frame that is whole is delivered when there is room for it. -/
theorem round_frame {f : OpusFrame} {tail : List UInt8}
    (fits : f.Fits s.codec.packetLossConcealment)
    (lies : input.packet.drop s.readPos = f.bytes ++ tail) :
    s.round opusDecode input =
      if (s.header opusDecode input f.seq).Room input then
        (s.header opusDecode input f.seq).deliver opusDecode f.payload
      else { s.header opusDecode input f.seq with left := true } := by
  rw [OpusFrame.bytes, List.append_assoc] at lies
  have start : (s.header opusDecode input f.seq).readPos = _ := header_readPos f.payload.length ..
  have behind := drop_add lies
  rw [← start] at behind
  have size : (UInt16.ofNat f.payload.length).toNat = f.payload.length :=
    UInt16.toNat_ofNat_of_lt' (Nat.lt_succ_of_lt fits.sized)
  have inside : ¬ input.packet.length <
      (s.header opusDecode input f.seq).readPos + f.payload.length := by
    have lengths := congrArg List.length behind
    rw [List.length_drop, List.length_append] at lengths
    by_cases empty : f.payload.length = 0
    · have header := congrArg List.length lies
      rw [List.length_drop, List.length_append, List.length_append] at header
      have long := OpusFrame.two_le_length_header f.payload.length f.seq
      rw [start]
      omega
    · omega
  rw [round_header fits.sized fits.numbered lies, body, size, if_neg inside, bytes_of_drop behind,
    ite_not]

/-- A frame whose payload is not all in the packet ends the loop. -/
theorem round_short {size : Nat} {seq : Option UInt16} {tail : List UInt8}
    (small : size < 0xFFFF) (numbered : seq.isSome = s.codec.packetLossConcealment)
    (lies : input.packet.drop s.readPos = OpusFrame.header size seq ++ tail)
    (short : tail.length < size) :
    s.round opusDecode input = { s.header opusDecode input seq with left := true } := by
  have start : (s.header opusDecode input seq).readPos = _ := header_readPos size ..
  have behind := congrArg List.length (drop_add lies)
  rw [← start, List.length_drop] at behind
  rw [round_header small numbered lies, body,
    UInt16.toNat_ofNat_of_lt' (Nat.lt_succ_of_lt small), if_pos (by omega)]

/-! ## What a round reads -/

variable (input) in
def ReadsInside (s : Of L) : Prop :=
  ∀ range ∈ s.reads, range.1 + range.2 ≤ input.packet.length

theorem reads_load (len : Nat) (s : Of L) :
    (s.load len).reads = s.reads ++ [(s.readPos, len)] := List.filterMap_append

theorem ReadsInside.load {len : Nat} (inside : s.ReadsInside input)
    (room : s.readPos + len ≤ input.packet.length) : (s.load len).ReadsInside input := by
  intro range isRead
  rw [reads_load, List.mem_append, List.mem_singleton] at isRead
  rcases isRead with earlier | rfl
  · exact inside range earlier
  · exact room

theorem Like.readsInside {t : Of L} (like : Like s t) (inside : s.ReadsInside input) :
    t.ReadsInside input := by
  rw [ReadsInside, like.reads]
  exact inside

theorem ReadsInside.header {size : Nat} {seq : Option UInt16} (inside : s.ReadsInside input)
    (room : s.readPos + (OpusFrame.header size seq).length ≤ input.packet.length) :
    (s.header opusDecode input seq).ReadsInside input := by
  rw [OpusFrame.length_header] at room
  cases seq with
  | none => exact inside.load room
  | some nCurSeq =>
      have room : s.readPos + 4 ≤ input.packet.length := room
      exact (like_sequence nCurSeq _).readsInside
        ((inside.load (by omega)).load (show s.readPos + 2 + 2 ≤ _ by omega))

theorem ReadsInside.deliver {payload : List UInt8} (inside : s.ReadsInside input)
    (room : s.readPos + payload.length ≤ input.packet.length) :
    (s.deliver opusDecode payload).ReadsInside input := by
  have filled : OpusLoop.ReadsInside input { s with
      actions := s.actions ++ [.fill s.writePos s.codec.maxFrameSize] } := by
    rw [ReadsInside, reads, reads_append s rfl]
    exact inside
  rw [OpusLoop.deliver]
  split
  · exact filled
  · exact (like_decode ..).readsInside (filled.load room)

theorem kept_read (range : Nat × Nat) : Kept opusDecode input fun s => range ∈ s.reads where
  load len s isRead := by
    rw [reads_load]
    exact List.mem_append_left _ isRead
  reset s isRead := by rwa [(like_reset s).reads]
  decodeSeq _ _ isRead := isRead
  leave _ isRead := isRead
  decode payload s isRead _ := by rwa [(like_decode payload s).reads]
  fill s isRead _ := by rwa [reads, reads_append s rfl]
  silence _ isRead _ := isRead

theorem mem_reads_load (len : Nat) (s : Of L) : (s.readPos, len) ∈ (s.load len).reads := by
  rw [reads_load]
  exact List.mem_append_right _ (List.mem_singleton_self _)

/-- A round reads a size. -/
theorem mem_reads_round (s : Of L) : (s.readPos, 2) ∈ (s.round opusDecode input).reads := by
  have first := mem_reads_load 2 s
  have kept : Kept opusDecode input _ := kept_read (s.readPos, 2)
  rw [round]
  repeat' split
  · exact kept.leave _ (kept.decodeSeq 0 _ (kept.reset _ first))
  · exact kept.body _ (kept.sequence _ (kept.load 2 _ first))
  · exact kept.body _ first

/-- With loss concealment it reads a sequence number, too. -/
theorem mem_reads_round_next {s : Of L} (goesOn : input.uint16 s.readPos ≠ 0xFFFF)
    (numbered : s.codec.packetLossConcealment = true) :
    (s.readPos + 2, 2) ∈ (s.round opusDecode input).reads := by
  have second := mem_reads_load 2 (s.load 2)
  have kept : Kept opusDecode input _ := kept_read (s.readPos + 2, 2)
  have numbered : (s.load 2).codec.packetLossConcealment = true := numbered
  simp only [round, if_neg goesOn, if_pos numbered]
  exact kept.body _ (kept.sequence _ second)

/-- A round reads outside the packet when it comes to a header that breaks off. -/
theorem round_cut (cut : CutHeader s.codec.packetLossConcealment (input.packet.drop s.readPos)) :
    ¬ (s.round opusDecode input).ReadsInside input := by
  intro inside
  have lengths : (input.packet.drop s.readPos).length = input.packet.length - s.readPos :=
    List.length_drop
  rcases cut with one | ⟨numbered, few, other⟩
  · have within := inside _ (mem_reads_round s)
    simp only at within
    omega
  · match rest : input.packet.drop s.readPos with
    | [] | [_] => rw [rest] at few; exact absurd few (by simp)
    | a :: b :: tail =>
        have lies : input.packet.drop s.readPos = Bytes.ofNat 2 (Bytes.toNat [a, b]) ++ tail := by
          rw [ofNat_toNat_two, rest]
          rfl
        have goesOn : input.uint16 s.readPos ≠ 0xFFFF := by
          rw [uint16_of_drop (toNat_two_lt a b) lies]
          intro marker
          have marker := congrArg UInt16.toNat marker
          rw [UInt16.toNat_ofNat_of_lt' (toNat_two_lt a b)] at marker
          have same := ofNat_toNat_two a b
          rw [marker] at same
          rw [rest] at other
          exact other same.symm
        have within := inside _ (mem_reads_round_next goesOn numbered)
        simp only at within
        omega

/-! ## Reading inside the packet -/

variable (opusDecode input) in
/-- The output has room for one frame after the other. -/
def Rooms : List OpusFrame → Of L → Prop
  | [], _ => True
  | f :: rest, s =>
      (s.header opusDecode input f.seq).Room input ∧
        Rooms rest ((s.header opusDecode input f.seq).deliver opusDecode f.payload)

variable (opusDecode input) in
/-- What is left of the packet breaks off behind frames that the output has room for. -/
def BreaksOff (s : Of L) : Prop :=
  ∃ frames cut, Breaks s.codec.packetLossConcealment frames cut (input.packet.drop s.readPos) ∧
    s.Rooms opusDecode input frames

theorem not_breaksOff_ends {tail : List UInt8}
    (lies : input.packet.drop s.readPos = 0xFF :: 0xFF :: tail) :
    ¬ s.BreaksOff opusDecode input := by
  rintro ⟨frames, cut, breaks, -⟩
  rw [lies] at breaks
  exact breaks.ne_marker

theorem not_breaksOff_short {size : Nat} {seq : Option UInt16} {tail : List UInt8}
    (small : size < 0xFFFF) (numbered : seq.isSome = s.codec.packetLossConcealment)
    (lies : input.packet.drop s.readPos = OpusFrame.header size seq ++ tail)
    (short : tail.length < size) : ¬ s.BreaksOff opusDecode input := by
  rintro ⟨frames, cut, breaks, -⟩
  rw [lies] at breaks
  obtain ⟨payload, _, _, rfl, rfl, -⟩ := (Breaks.cons small numbered).1 breaks
  rw [List.length_append] at short
  omega

theorem breaksOff_frame_iff {f : OpusFrame} {tail : List UInt8}
    (fits : f.Fits s.codec.packetLossConcealment)
    (lies : input.packet.drop s.readPos = f.bytes ++ tail) :
    s.BreaksOff opusDecode input ↔ (s.header opusDecode input f.seq).Room input ∧
      ((s.header opusDecode input f.seq).deliver opusDecode f.payload).BreaksOff
        opusDecode input := by
  have lies' := lies
  rw [OpusFrame.bytes, List.append_assoc] at lies'
  have behind : input.packet.drop
      ((s.header opusDecode input f.seq).deliver opusDecode f.payload).readPos = tail := by
    rw [deliver_readPos, header_readPos f.payload.length]
    exact drop_add (drop_add lies')
  simp only [BreaksOff, behind, deliver_packetLossConcealment, header_packetLossConcealment, lies']
  simp only [Breaks.cons fits.sized fits.numbered]
  constructor
  · rintro ⟨frames, cut, ⟨payload, more, packet, same, length, rfl, breaks⟩, room, rooms⟩
    obtain ⟨rfl, rfl⟩ := List.append_inj same length.symm
    exact ⟨room, more, cut, breaks, rooms⟩
  · rintro ⟨room, more, cut, breaks, rooms⟩
    exact ⟨f :: more, cut, ⟨f.payload, more, tail, rfl, rfl, rfl, breaks⟩, room, rooms⟩

theorem rounds_succ (n : Nat) {s : Of L} (goesOn : s.GoesOn input) :
    s.rounds opusDecode input (n + 1) =
      (s.round opusDecode input).rounds opusDecode input n := if_pos goesOn

theorem readsInside_of_rounds {n : Nat} {s : Of L}
    (inside : (s.rounds opusDecode input n).ReadsInside input) : s.ReadsInside input :=
  fun range isRead => inside range ((kept_read range).rounds n isRead)

theorem rounds_of_left (n : Nat) (isLeft : s.left = true) :
    s.rounds opusDecode input n = s :=
  rounds_of_done fun goesOn => absurd (goesOn.1.symm.trans isLeft) (by decide)

/-- From a state that has read inside the packet so far, the loop reads inside it exactly when
what is left of the packet does not break off. -/
theorem readsInside_rounds_iff (n : Nat) {s : Of L} (goes : s.left = false)
    (inside : s.ReadsInside input) (enough : input.packet.length ≤ s.readPos + 2 * n) :
    (s.rounds opusDecode input n).ReadsInside input ↔ ¬ s.BreaksOff opusDecode input := by
  induction n generalizing s with
  | zero =>
      refine iff_of_true inside ?_
      rintro ⟨frames, cut, breaks, -⟩
      rw [List.drop_eq_nil_of_le (by omega)] at breaks
      exact breaks.ne_nil
  | succ n ih =>
      by_cases more : input.packet.drop s.readPos = []
      · have done : ¬ s.GoesOn input := fun goesOn =>
          Nat.not_le.2 goesOn.2 (List.drop_eq_nil_iff.1 more)
        rw [rounds_of_done done, BreaksOff, more]
        exact iff_of_true inside fun ⟨_, _, breaks, _⟩ => breaks.ne_nil
      rw [rounds_succ n ⟨goes, by simpa using more⟩]
      have within : (input.packet.drop s.readPos).length = input.packet.length - s.readPos :=
        List.length_drop
      generalize lies : input.packet.drop s.readPos = rest at more within
      cases heads s.codec.packetLossConcealment more with
      | cut cut =>
          refine iff_of_false (fun reads => ?_) fun none => none ?_
          · exact round_cut (lies ▸ cut) (readsInside_of_rounds reads)
          · exact ⟨[], rest, ⟨lies, fun f member => absurd member List.not_mem_nil, cut⟩, trivial⟩
      | ends tail =>
          rw [round_ends lies, rounds_of_left n rfl]
          refine iff_of_true ((like_reset _).readsInside (inside.load ?_)) (not_breaksOff_ends lies)
          rw [List.length_cons, List.length_cons] at within
          omega
      | frame size seq tail small numbered =>
          rw [List.length_append] at within
          have long := OpusFrame.two_le_length_header size seq
          have header : (s.header opusDecode input seq).ReadsInside input :=
            inside.header (show s.readPos + (OpusFrame.header size seq).length ≤ _ by omega)
          by_cases short : tail.length < size
          · rw [round_short small numbered lies short, rounds_of_left n rfl]
            exact iff_of_true header (not_breaksOff_short small numbered lies short)
          · obtain ⟨payload, tail, rfl, rfl⟩ : ∃ payload post, tail = payload ++ post ∧
                payload.length = size :=
              ⟨tail.take size, tail.drop size, (List.take_append_drop size tail).symm,
                List.length_take_of_le (Nat.le_of_not_lt short)⟩
            have fits : OpusFrame.Fits s.codec.packetLossConcealment ⟨seq, payload⟩ :=
              ⟨small, numbered⟩
            have lies : input.packet.drop s.readPos = OpusFrame.bytes ⟨seq, payload⟩ ++ tail := by
              rw [lies, OpusFrame.bytes, List.append_assoc]
            rw [round_frame fits lies, breaksOff_frame_iff fits lies]
            split
            · next room =>
                rw [List.length_append] at within
                have start : (s.header opusDecode input seq).readPos =
                    s.readPos + (OpusFrame.header payload.length seq).length := header_readPos ..
                have inside : (s.header opusDecode input seq).readPos + payload.length ≤
                    input.packet.length := by omega
                have enough : input.packet.length ≤
                    ((s.header opusDecode input seq).deliver opusDecode payload).readPos +
                      2 * n := by
                  rw [deliver_readPos]
                  omega
                rw [ih ((deliver_left ..).trans ((header_left ..).trans goes))
                  (header.deliver inside) enough]
                simp only [room, true_and]
            · next full =>
                rw [rounds_of_left n rfl]
                exact iff_of_true header fun both => full both.1

variable (input) in
/-- The loop is at its end, and was inside the packet and the output. -/
structure Safe (s : Of L) : Prop where
  ends : ¬ s.GoesOn input
  reads : s.ReadsInside input
  writes : ∀ range ∈ s.writes, (range.1 + range.2 : Nat) ≤ input.maxUncompressedBytes

instance (s : Of L) : Decidable (s.Safe input) :=
  decidable_of_iff (¬ s.GoesOn input ∧
      (∀ range ∈ s.reads, range.1 + range.2 ≤ input.packet.length) ∧
      ∀ range ∈ s.writes, (range.1 + range.2 : Nat) ≤ input.maxUncompressedBytes)
    ⟨fun ⟨ends, reads, writes⟩ => ⟨ends, reads, writes⟩,
      fun ⟨ends, reads, writes⟩ => ⟨ends, reads, writes⟩⟩

end OpusLoop

/-- **A packet is parsed inside its bytes unless a header breaks off.**  Whatever the library
answers, the loop of `Decompress` ends and writes inside the output; and it reads inside the packet
exactly when it does not come, behind whole frames that the output has room for, to a header that
is not all there. -/
theorem decompress_safe_iff (L : Libs) (opusDecode : OpusDecode L) (input : OpusInput)
    (c : Opus.Of L) (sized : c.Sized) :
    (OpusLoop.run opusDecode input c).Safe input ↔
      ¬ (OpusLoop.start c).BreaksOff opusDecode input := by
  have none : (OpusLoop.start c).reads = [] ∧ (OpusLoop.start c).writes = [] := ⟨rfl, rfl⟩
  have starts : (OpusLoop.start c).ReadsInside input := by
    intro range isRead
    rw [none.1] at isRead
    exact absurd isRead List.not_mem_nil
  have writes : (OpusLoop.run opusDecode input c).WritesInside input := by
    refine OpusLoop.kept_writes.rounds _ ⟨sized, fun range written => ?_⟩
    rw [none.2] at written
    exact absurd written List.not_mem_nil
  have enough : input.packet.length ≤ (OpusLoop.start c).readPos + 2 * input.packet.length := by
    omega
  have reads : (OpusLoop.run opusDecode input c).ReadsInside input ↔ _ :=
    OpusLoop.readsInside_rounds_iff input.packet.length rfl starts enough
  rw [← reads]
  exact ⟨OpusLoop.Safe.reads, fun inside => ⟨OpusLoop.done_rounds _ enough, inside, writes.inside⟩⟩

/-- An `opus_decode` that is silent. -/
def OpusDecode.plain : OpusDecode Libs.plain :=
  fun _ frameSize decoder => (⟨frameSize, List.replicate frameSize 0⟩, decoder)

/-- A packet with the first bytes of a header. -/
def brokenOff : OpusInput := ⟨[5, 0], fun _ => 0, 32768⟩

theorem decompress_safe_iff_one :
    (∃ input : OpusInput, ¬ (OpusLoop.start (Opus.new Libs.plain)).BreaksOff .plain input) ∧
      ¬ (OpusLoop.run .plain brokenOff (Opus.new Libs.plain)).Safe brokenOff := by
  refine ⟨⟨⟨[1, 0, 0, 0, 7], fun _ => 0, 32768⟩, ?_⟩, fun safe => ?_⟩
  · exact (decompress_safe_iff Libs.plain .plain _ (Opus.new Libs.plain) (Opus.sized_init _)).1
      (by decide +kernel)
  · refine (decompress_safe_iff Libs.plain .plain _ (Opus.new Libs.plain) (Opus.sized_init _)).1
      safe ⟨[], [5, 0], ⟨rfl, fun f member => absurd member List.not_mem_nil, ?_⟩, trivial⟩
    decide

/-- A packet of two bytes has its sequence number read from behind it. -/
theorem not_always_parsed_inside : ¬ ∀ (input : OpusInput) (c : Opus.Of Libs.plain), c.Sized →
    (OpusLoop.run .plain input c).Safe input := by
  intro always
  exact absurd (always brokenOff (Opus.new Libs.plain) (Opus.sized_init _)) (by decide +kernel)

end Refsapi.Revoice
