/-
# Revoice.OpusDecoder -- the loop that decodes an Opus payload

`VoiceEncoder_Opus::Decompress`, round after round, over a library that decodes one frame.  A run
lists what it asks of memory and of the library, in the order in which it asks.

A round reads the header of a frame before it asks whether the packet has it all, so it may read
what lies behind the packet.  That is a parameter, and every run has a value.
-/
import Refsapi.Revoice.Codecs

namespace Refsapi.Revoice

set_option autoImplicit false

/-- `opus_decode`: of a payload, or of a frame that was lost, into a number of samples. -/
abbrev OpusDecode (L : Libs) : Type :=
  Option (List UInt8) → Nat → Option L.OpusDecoder → Decoded × Option L.OpusDecoder

/-- What `Decompress` is given, with the memory behind it. -/
structure OpusInput where
  packet : List UInt8
  behind : Nat → UInt8
  maxUncompressedBytes : Int

namespace OpusInput

def byteAt (input : OpusInput) (pos : Nat) : UInt8 :=
  input.packet.getD pos (input.behind pos)

def bytes (input : OpusInput) (readPos len : Nat) : List UInt8 :=
  (List.range len).map fun i => input.byteAt (readPos + i)

/-- `*(uint16 *)pReadPos` -/
def uint16 (input : OpusInput) (readPos : Nat) : UInt16 :=
  UInt16.ofNat (Bytes.toNat (input.bytes readPos 2))

/-- A load that the packet has in it. -/
theorem bytes_eq {input : OpusInput} {readPos len : Nat}
    (inside : readPos + len ≤ input.packet.length) :
    input.bytes readPos len = (input.packet.drop readPos).take len := by
  refine List.ext_getElem ?_ fun i here there => ?_
  · simp only [bytes, List.length_map, List.length_range, List.length_take, List.length_drop]
    omega
  · have short : i < len := by simpa [bytes] using here
    have within : readPos + i < input.packet.length := by omega
    simp [bytes, byteAt, List.getD, List.getElem?_eq_getElem within]

end OpusInput

/-- What a run asks of memory and of the library. -/
inductive OpusAction (D : Type) where
  | read (readPos len : Nat)
  | fill (writePos len : Nat)
  | decode (payload : Option (List UInt8)) (writePos frameSize : Nat) (decoder : Option D)
  | reset

/-- The range of a read. -/
def OpusAction.range? {D : Type} : OpusAction D → Option (Nat × Nat)
  | .read readPos len => some (readPos, len)
  | _ => none

/-- The range of a write; `opus_decode` may write as many samples as it has room for. -/
def OpusAction.written? {D : Type} : OpusAction D → Option (Nat × Nat)
  | .fill writePos len => some (writePos, len)
  | .decode _ writePos frameSize _ => some (writePos, frameSize * 2)
  | _ => none

/-- The locals of `Decompress`, the object, and what was asked for; `samples` are those in front
of `pWritePos`, and `left` says that the loop was left by a `break`. -/
structure OpusLoop (E D : Type) where
  codec : Opus E D
  readPos : Nat
  writePos : Nat
  samples : List Int16
  left : Bool
  actions : List (OpusAction D)

/-- `MAX_PACKET_LOSS` -/
def maxPacketLoss : Nat := 10

namespace Opus

variable {L : Libs}

/-- `m_MaxframeSize` is the frame size in bytes. -/
def Sized (c : Of L) : Prop := c.frameSize * 2 = c.maxFrameSize

theorem sized_init (c : Of L) : Sized (init L c) := by
  simp only [init]
  repeat' split
  all_goals rfl

theorem Sized.setSampleRate {c : Of L} (sized : Sized c) (rate : UInt16) :
    Sized (setSampleRate L rate c) := by
  rw [Opus.setSampleRate]
  split
  · exact sized_init _
  · exact sized

theorem Sized.setBitRate {c : Of L} (sized : Sized c) (bitRate : Rat) :
    Sized (setBitRate L bitRate c) := by
  rw [Opus.setBitRate]
  split
  · exact sized_init _
  · exact sized

end Opus

namespace OpusLoop

abbrev Of (L : Libs) : Type := OpusLoop L.OpusEncoder L.OpusDecoder

variable {L : Libs} (opusDecode : OpusDecode L) (input : OpusInput)

def start (c : Opus.Of L) : Of L := ⟨c, 0, 0, [], false, []⟩

/-- Advance over bytes that are read. -/
def load (len : Nat) (s : Of L) : Of L :=
  { s with readPos := s.readPos + len, actions := s.actions ++ [.read s.readPos len] }

/-- Advance over samples that were written. -/
def advance (len : Nat) (written : List Int16) (s : Of L) : Of L :=
  { s with writePos := s.writePos + len, samples := s.samples ++ written }

/-- `ResetState` -/
def reset (s : Of L) : Of L :=
  { s with codec := Opus.resetState L s.codec, actions := s.actions ++ [.reset] }

/-- `opus_decode`, and what is made of its result. -/
def decode (payload : Option (List UInt8)) (s : Of L) : Of L :=
  let (decoded, decoder) := opusDecode payload s.codec.frameSize s.codec.decoder
  let asked := .decode payload s.writePos s.codec.frameSize s.codec.decoder
  let s := { s with codec := { s.codec with decoder }, actions := s.actions ++ [asked] }
  if decoded.result ≤ 0 then s -- raw corrupted
  else s.advance (decoded.result.toNat * 2) decoded.samples

/-- The loop over a number of lost frames. -/
def conceal : Nat → Of L → Of L
  | 0, s => s
  | n + 1, s =>
      if input.maxUncompressedBytes ≤ s.writePos + s.codec.maxFrameSize then s
      else conceal n (s.decode opusDecode none)

/-- What the sequence number of a frame leads to. -/
def sequence (nCurSeq : UInt16) (s : Of L) : Of L :=
  let s :=
    if nCurSeq < s.codec.decodeSeq then s.reset
    else if nCurSeq ≠ s.codec.decodeSeq then
      s.conceal opusDecode input (min (nCurSeq.toNat - s.codec.decodeSeq.toNat) maxPacketLoss)
    else s
  { s with codec := { s.codec with decodeSeq := nCurSeq + 1 } }

/-- The output has room for the frame at `pWritePos`. -/
def Room (s : Of L) : Prop := s.writePos + s.codec.maxFrameSize ≤ input.maxUncompressedBytes

instance (s : Of L) : Decidable (s.Room input) := inferInstanceAs (Decidable (_ ≤ _))

/-- A payload that is in the packet, and has room. -/
def deliver (payload : List UInt8) (s : Of L) : Of L :=
  let filled := .fill s.writePos s.codec.maxFrameSize
  let s := { s with actions := s.actions ++ [filled] }
  if payload.length = 0 then
    -- DTX (discontinued transmission)
    s.advance s.codec.maxFrameSize (List.replicate (s.codec.maxFrameSize / 2) 0)
  else (s.load payload.length).decode opusDecode (some payload)

/-- What follows the header of a frame. -/
def body (nPayloadSize : UInt16) (s : Of L) : Of L :=
  if input.packet.length < s.readPos + nPayloadSize.toNat then { s with left := true }
  else if ¬ s.Room input then { s with left := true }
  else s.deliver opusDecode (input.bytes s.readPos nPayloadSize.toNat)

/-- A round of the loop. -/
def round (s : Of L) : Of L :=
  let nPayloadSize := input.uint16 s.readPos
  let s := s.load 2
  if nPayloadSize = 0xFFFF then
    let s := s.reset
    { s with codec := { s.codec with decodeSeq := 0 }, left := true }
  else if s.codec.packetLossConcealment then
    let nCurSeq := input.uint16 s.readPos
    ((s.load 2).sequence opusDecode input nCurSeq).body opusDecode input nPayloadSize
  else s.body opusDecode input nPayloadSize

/-- The loop goes on. -/
def GoesOn (s : Of L) : Prop := s.left = false ∧ s.readPos < input.packet.length

instance (s : Of L) : Decidable (s.GoesOn input) := inferInstanceAs (Decidable (_ ∧ _))

/-- At most a number of rounds. -/
def rounds : Nat → Of L → Of L
  | 0, s => s
  | n + 1, s => if s.GoesOn input then rounds n (s.round opusDecode input) else s

/-- `Decompress`, with all the rounds that it can have: see `done_rounds`. -/
def run (c : Opus.Of L) : Of L := (start c).rounds opusDecode input input.packet.length

/-- The ranges that were read. -/
def reads (s : Of L) : List (Nat × Nat) := s.actions.filterMap OpusAction.range?

/-- The ranges that were written. -/
def writes (s : Of L) : List (Nat × Nat) := s.actions.filterMap OpusAction.written?

variable {opusDecode input}

/-! ## What the steps leave alone -/

@[simp] theorem load_codec (len : Nat) (s : Of L) : (s.load len).codec = s.codec := rfl
@[simp] theorem load_left (len : Nat) (s : Of L) : (s.load len).left = s.left := rfl
@[simp] theorem load_writePos (len : Nat) (s : Of L) : (s.load len).writePos = s.writePos := rfl
@[simp] theorem load_readPos (len : Nat) (s : Of L) : (s.load len).readPos = s.readPos + len := rfl

/-- **The rule for a call of `opus_decode`.**  What the call leaves behind, and the advance when
it gave samples. -/
theorem decode_eq (opusDecode : OpusDecode L) (payload : Option (List UInt8)) (s : Of L) :
    ∃ decoder, ∃ decoded : Decoded,
      opusDecode payload s.codec.frameSize s.codec.decoder = (decoded, decoder) ∧
      s.decode opusDecode payload =
        { s with
          codec := { s.codec with decoder }
          writePos := s.writePos + decoded.result.toNat * 2
          samples := s.samples ++ if decoded.result ≤ 0 then [] else decoded.samples
          actions := s.actions ++
            [.decode payload s.writePos s.codec.frameSize s.codec.decoder] } := by
  refine ⟨_, _, rfl, ?_⟩
  simp only [decode, advance]
  split
  · next failed => rw [Int.toNat_of_nonpos failed, Nat.zero_mul, Nat.add_zero, List.append_nil]
  · rfl

/-! ## Rules for the loop -/

/-- What holds is kept by every step of the loop; a step that writes has room for a frame. -/
structure Kept (opusDecode : OpusDecode L) (input : OpusInput) (P : Of L → Prop) : Prop where
  load : ∀ len s, P s → P (s.load len)
  reset : ∀ s, P s → P s.reset
  decodeSeq : ∀ nCurSeq s, P s → P { s with codec := { s.codec with decodeSeq := nCurSeq } }
  leave : ∀ s, P s → P { s with left := true }
  decode : ∀ payload s, P s → s.Room input → P (s.decode opusDecode payload)
  fill : ∀ s, P s → s.Room input →
    P { s with actions := s.actions ++ [.fill s.writePos s.codec.maxFrameSize] }
  silence : ∀ s, P s → s.Room input →
    P (s.advance s.codec.maxFrameSize (List.replicate (s.codec.maxFrameSize / 2) 0))

theorem conceal_rule {P : Of L → Prop}
    (decode : ∀ s : Of L, P s → s.Room input → P (s.decode opusDecode none)) (n : Nat) {s : Of L}
    (holds : P s) : P (s.conceal opusDecode input n) := by
  induction n generalizing s with
  | zero => exact holds
  | succ n ih =>
      rw [conceal]
      split
      · exact holds
      · next room => exact ih (decode s holds (Int.le_of_lt (Int.not_le.1 room)))

namespace Kept

variable {P : Of L → Prop} (kept : Kept opusDecode input P)
include kept

theorem sequence (nCurSeq : UInt16) {s : Of L} (holds : P s) :
    P (s.sequence opusDecode input nCurSeq) := by
  refine kept.decodeSeq _ _ ?_
  split
  · exact kept.reset s holds
  · split
    · exact conceal_rule (fun s => kept.decode none s) _ holds
    · exact holds

theorem deliver (payload : List UInt8) {s : Of L} (holds : P s) (room : s.Room input) :
    P (s.deliver opusDecode payload) := by
  have filled := kept.fill s holds room
  rw [OpusLoop.deliver]
  split
  · exact kept.silence _ filled room
  · exact kept.decode _ _ (kept.load _ _ filled) room

theorem body (nPayloadSize : UInt16) {s : Of L} (holds : P s) :
    P (s.body opusDecode input nPayloadSize) := by
  rw [OpusLoop.body]
  split
  · exact kept.leave s holds
  · split
    · exact kept.leave s holds
    · next room => exact kept.deliver _ holds (Decidable.not_not.1 room)

theorem round {s : Of L} (holds : P s) : P (s.round opusDecode input) := by
  have loaded := kept.load 2 s holds
  simp only [OpusLoop.round]
  split
  · exact kept.leave _ (kept.decodeSeq 0 _ (kept.reset _ loaded))
  · split
    · exact kept.body _ (kept.sequence _ (kept.load 2 _ loaded))
    · exact kept.body _ loaded

theorem rounds (n : Nat) {s : Of L} (holds : P s) : P (s.rounds opusDecode input n) := by
  induction n generalizing s with
  | zero => exact holds
  | succ n ih =>
      rw [OpusLoop.rounds]
      split
      · exact ih (kept.round holds)
      · exact holds

end Kept

/-! ## The loop ends -/

/-- A state that has read as much, with frames of the same size. -/
structure Like (s t : Of L) : Prop where
  readPos : t.readPos = s.readPos
  left : t.left = s.left
  frameSize : t.codec.frameSize = s.codec.frameSize
  maxFrameSize : t.codec.maxFrameSize = s.codec.maxFrameSize
  packetLossConcealment : t.codec.packetLossConcealment = s.codec.packetLossConcealment
  reads : t.reads = s.reads

theorem Like.refl (s : Of L) : Like s s := ⟨rfl, rfl, rfl, rfl, rfl, rfl⟩

theorem Like.trans {s t u : Of L} (first : Like s t) (second : Like t u) : Like s u where
  readPos := second.readPos.trans first.readPos
  left := second.left.trans first.left
  frameSize := second.frameSize.trans first.frameSize
  maxFrameSize := second.maxFrameSize.trans first.maxFrameSize
  packetLossConcealment := second.packetLossConcealment.trans first.packetLossConcealment
  reads := second.reads.trans first.reads

theorem reads_append (s : Of L) {action : OpusAction L.OpusDecoder}
    (elsewhere : action.range? = none) :
    (s.actions ++ [action]).filterMap OpusAction.range? = s.reads := by
  rw [List.filterMap_append, List.filterMap_cons_none elsewhere, List.filterMap_nil,
    List.append_nil, reads]

theorem like_decode (payload : Option (List UInt8)) (s : Of L) :
    Like s (s.decode opusDecode payload) := by
  obtain ⟨decoder, decoded, -, same⟩ := decode_eq opusDecode payload s
  rw [same]
  exact ⟨rfl, rfl, rfl, rfl, rfl, reads_append s rfl⟩

theorem like_reset (s : Of L) : Like s s.reset :=
  ⟨rfl, rfl, rfl, rfl, rfl, reads_append s rfl⟩

theorem like_sequence (nCurSeq : UInt16) (s : Of L) :
    Like s (s.sequence opusDecode input nCurSeq) := by
  have concealed (n : Nat) : Like s (s.conceal opusDecode input n) :=
    conceal_rule (fun t like _ => like.trans (like_decode none t)) n (Like.refl s)
  have counted (t : Of L) : Like t { t with codec := { t.codec with decodeSeq := nCurSeq + 1 } } :=
    ⟨rfl, rfl, rfl, rfl, rfl, rfl⟩
  refine Like.trans ?_ (counted _)
  split
  · exact like_reset s
  · split
    · exact concealed _
    · exact Like.refl s

theorem deliver_readPos (payload : List UInt8) (s : Of L) :
    (s.deliver opusDecode payload).readPos = s.readPos + payload.length := by
  rw [deliver]
  split
  · next silent => rw [silent]; rfl
  · exact (like_decode ..).readPos

theorem body_readPos (nPayloadSize : UInt16) (s : Of L) :
    s.readPos ≤ (s.body opusDecode input nPayloadSize).readPos := by
  rw [body]
  repeat' split
  · exact Nat.le_refl _
  · exact Nat.le_refl _
  · rw [deliver_readPos]
    exact Nat.le_add_right ..

/-- A round moves on by the size of a frame at least. -/
theorem round_readPos (s : Of L) : s.readPos + 2 ≤ (s.round opusDecode input).readPos := by
  rw [round]
  repeat' split
  · exact Nat.le_refl _
  · refine Nat.le_trans ?_ (body_readPos ..)
    rw [(like_sequence ..).readPos]
    exact Nat.le_add_right ..
  · exact body_readPos _ (s.load 2)

/-- The packet is at its end after a round for every two bytes. -/
theorem done_rounds (n : Nat) {s : Of L} (enough : input.packet.length ≤ s.readPos + 2 * n) :
    ¬ (s.rounds opusDecode input n).GoesOn input := by
  induction n generalizing s with
  | zero => exact fun goesOn => Nat.not_lt.2 enough goesOn.2
  | succ n ih =>
      rw [rounds]
      split
      · have moved : s.readPos + 2 ≤ (s.round opusDecode input).readPos := round_readPos s
        exact ih (by omega)
      · next done => exact done

theorem rounds_of_done {n : Nat} {s : Of L} (done : ¬ s.GoesOn input) :
    s.rounds opusDecode input n = s := by
  cases n with
  | zero => rfl
  | succ n => exact if_neg done

/-- More rounds than the loop has change nothing. -/
theorem rounds_eq_run (c : Opus.Of L) {n : Nat} (enough : input.packet.length ≤ n) :
    (start c).rounds opusDecode input n = run opusDecode input c := by
  obtain ⟨more, rfl⟩ := Nat.exists_eq_add_of_le enough
  have split (s : Of L) (n : Nat) : s.rounds opusDecode input (n + more) =
      (s.rounds opusDecode input n).rounds opusDecode input more := by
    induction n generalizing s with
    | zero => rw [Nat.zero_add]; rfl
    | succ n ih =>
        rw [Nat.succ_add, rounds, rounds]
        split
        · exact ih _
        · next done => exact (rounds_of_done done).symm
  rw [split, rounds_of_done (done_rounds _ (by simp only [start]; omega)), run]

/-! ## Writing inside the output -/

variable (input) in
/-- The frames are of their size, and everything that was written is inside the output. -/
structure WritesInside (s : Of L) : Prop where
  sized : s.codec.Sized
  inside : ∀ range ∈ s.writes, (range.1 + range.2 : Nat) ≤ input.maxUncompressedBytes

theorem WritesInside.act {s t : Of L} {action : OpusAction L.OpusDecoder}
    (writes : s.WritesInside input) (sized : t.codec.Sized)
    (actions : t.actions = s.actions ++ [action])
    (inside : ∀ range, action.written? = some range →
      (range.1 + range.2 : Nat) ≤ input.maxUncompressedBytes) : t.WritesInside input where
  sized := sized
  inside range written := by
    rw [OpusLoop.writes, actions, List.filterMap_append, List.mem_append] at written
    rcases written with earlier | now
    · exact writes.inside range earlier
    · obtain ⟨same, isAction, isRange⟩ := List.mem_filterMap.1 now
      rw [List.mem_singleton.1 isAction] at isRange
      exact inside range isRange

theorem kept_writes : Kept opusDecode input (WritesInside input (L := L)) where
  load len s writes := writes.act writes.sized rfl fun range none => by cases none
  reset s writes := writes.act writes.sized rfl fun range none => by cases none
  decodeSeq _ _ writes := ⟨writes.sized, writes.inside⟩
  leave _ writes := ⟨writes.sized, writes.inside⟩
  decode payload s writes room := by
    obtain ⟨decoder, decoded, -, same⟩ := decode_eq opusDecode payload s
    have sized : s.codec.frameSize * 2 = s.codec.maxFrameSize := writes.sized
    rw [same]
    refine writes.act sized rfl fun range isRange => ?_
    obtain rfl := Option.some.inj isRange
    simp only [sized]
    exact_mod_cast room
  fill s writes room := writes.act writes.sized rfl fun range isRange => by
    obtain rfl := Option.some.inj isRange
    exact_mod_cast room
  silence _ writes _ := ⟨writes.sized, writes.inside⟩

/-- What `Decompress` returns, and the samples in front of `pWritePos`. -/
def decoded (s : Of L) : Decoded := ⟨(s.writePos / 2 : Nat), s.samples⟩

end OpusLoop

end Refsapi.Revoice
