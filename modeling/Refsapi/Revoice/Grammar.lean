/-
# Revoice.Grammar -- which packets carry a voice, and what is read of them

`CSteamP2PCodec::Decompress` does not look at a grammar: it follows the opcodes until one of
them does not suit.  Here the packets that carry a voice are written down as data
(`VoiceMessage`), with one way to lay each out in bytes (`VoiceMessage.bytes`).  Decoding finds
a voice just in the bytes of one (`packet_exact`): what is behind the voice is skipped, two
messages never share their bytes, and in every other packet at most the sample rates before the
place that does not suit are set.
-/
import Refsapi.Revoice.SteamP2P

namespace Refsapi.Revoice

set_option autoImplicit false

/-! ## Voice messages -/

/-- The opcodes that a payload follows. -/
def PayLoadType.isVoice : PayLoadType → Bool
  | silk | opus | opusPlc => true
  | _ => false

/-- A sample rate in a stream. -/
def rateBytes (rate : UInt16) : List UInt8 :=
  PayLoadType.samplingRate.code :: Bytes.ofNat 2 rate.toNat

/-- A voice in a stream. -/
def voiceBytes (opcode : PayLoadType) (payload : List UInt8) : List UInt8 :=
  opcode.code :: (Bytes.ofNat 2 payload.length ++ payload)

/-- What a packet says that carries a voice: a steam id that nobody looks at, sample rates, the
voice, and bytes behind it that nobody looks at either. -/
structure VoiceMessage where
  steamid : UInt64
  rates : List UInt16
  opcode : PayLoadType
  payload : List UInt8
  behind : List UInt8
  isVoice : opcode.isVoice = true
  short : payload.length < 65536

namespace VoiceMessage

def stream (s : VoiceMessage) : List UInt8 :=
  s.rates.flatMap rateBytes ++ (voiceBytes s.opcode s.payload ++ s.behind)

def bytes (crc32 : List UInt8 → UInt32) (s : VoiceMessage) : List UInt8 :=
  steamPacket crc32 s.steamid s.stream

/-- The rates are set one after the other, and the payload is handed over. -/
def outcome {σ : Type} (B : Backend σ) (maxUncompressedBytes : Int) (backend : σ)
    (s : VoiceMessage) : Outcome σ :=
  let backend := s.rates.foldl (fun backend rate => B.setSampleRate rate backend) backend
  let (decoded, backend) := B.decompress s.payload maxUncompressedBytes backend
  ⟨s.rates.map .setSampleRate ++ [.decompress (3 * s.rates.length + 3) s.payload], decoded, backend⟩

end VoiceMessage

/-! ## One round of the loop -/

theorem length_rateBytes (rate : UInt16) : (rateBytes rate).length = 3 := rfl

theorem length_voiceBytes (opcode : PayLoadType) (payload : List UInt8) :
    (voiceBytes opcode payload).length = payload.length + 3 := by
  rw [voiceBytes, List.length_cons, List.length_append, Bytes.length_ofNat]
  omega

theorem ofCode_eq_some {b : UInt8} {opcode : PayLoadType}
    (found : PayLoadType.ofCode b.toNat = some opcode) : b = opcode.code := by
  have same := List.find?_some found
  exact UInt8.toNat_inj.1 (beq_iff_eq.1 same).symm

theorem read_append (before part after : List UInt8) {readPos len : Nat}
    (start : before.length = readPos) (size : part.length = len) :
    read (before ++ (part ++ after)) readPos len = .ok part := by
  subst start size
  rw [← List.append_assoc]
  exact read_of_load (Bytes.load_append before part after)

section Round

variable {σ : Type} (B : Backend σ) (max : Int) (backend : σ) (rounds : Nat)
  (before : List UInt8)

/-- The round reads an opcode. -/
theorem streamDecode_opcode (opcode : UInt8) (tail : List UInt8) :
    streamDecode B (before ++ opcode :: tail) max (rounds + 1) before.length backend =
      match PayLoadType.ofCode opcode.toNat with
      | some .samplingRate =>
          if tail.length < 2 then .ok ⟨[], ⟨0, []⟩, backend⟩
          else do
            let rate := UInt16.ofNat (Bytes.toNat (tail.take 2))
            let rest ← streamDecode B (before ++ opcode :: tail) max rounds (before.length + 3)
              (B.setSampleRate rate backend)
            return { rest with calls := .setSampleRate rate :: rest.calls }
      | some .silk | some .opus | some .opusPlc =>
          decodePayload B (before ++ opcode :: tail) max (before.length + 1) backend
      | _ => .ok ⟨[], ⟨0, []⟩, backend⟩ := by
  have length : (before ++ opcode :: tail).length = before.length + (tail.length + 1) := by
    rw [List.length_append, List.length_cons]
  have first : read (before ++ opcode :: tail) before.length 1 = .ok [opcode] :=
    read_append before [opcode] tail rfl rfl
  rw [streamDecode, if_pos (by omega), first]
  simp only [bind, Except.bind, Bytes.toNat, Nat.mul_zero, Nat.add_zero]
  cases PayLoadType.ofCode opcode.toNat with
  | none => rfl
  | some found =>
      cases found with
      | samplingRate =>
          simp only
          by_cases less : tail.length < 2
          · rw [if_pos less, if_pos (by omega)]
            rfl
          · rw [if_neg less, if_neg (by omega), read_of_le (by omega)]
            have part : ((before ++ opcode :: tail).drop (before.length + 1)).take 2 =
                tail.take 2 := by
              rw [← List.drop_drop, List.drop_left, List.drop_succ_cons, List.drop_zero]
            rw [part]
      | _ => rfl

theorem streamDecode_rate (rate : UInt16) (tail : List UInt8) :
    streamDecode B (before ++ (rateBytes rate ++ tail)) max (rounds + 1) before.length backend =
      (streamDecode B (before ++ (rateBytes rate ++ tail)) max rounds (before.length + 3)
        (B.setSampleRate rate backend)).map fun rest =>
          { rest with calls := .setSampleRate rate :: rest.calls } := by
  have part : (Bytes.ofNat 2 rate.toNat ++ tail).take 2 = Bytes.ofNat 2 rate.toNat :=
    List.take_left' (Bytes.length_ofNat 2 _)
  have back : UInt16.ofNat (Bytes.toNat (Bytes.ofNat 2 rate.toNat)) = rate := by
    rw [Bytes.toNat_ofNat_of_lt rate.toNat_lt, UInt16.ofNat_toNat]
  show streamDecode B (before ++ PayLoadType.samplingRate.code ::
    (Bytes.ofNat 2 rate.toNat ++ tail)) max (rounds + 1) before.length backend = _
  rw [streamDecode_opcode, PayLoadType.ofCode_code]
  simp only
  rw [if_neg (by rw [List.length_append, Bytes.length_ofNat]; omega), part, back]
  rfl

theorem streamDecode_voice {opcode : PayLoadType} (isVoice : opcode.isVoice = true)
    {payload : List UInt8} (short : payload.length < 65536) (behind : List UInt8) :
    streamDecode B (before ++ (voiceBytes opcode payload ++ behind)) max (rounds + 1)
        before.length backend =
      .ok ⟨[.decompress (before.length + 3) payload], (B.decompress payload max backend).1,
        (B.decompress payload max backend).2⟩ := by
  let whole := before ++ (voiceBytes opcode payload ++ behind)
  have length : whole.length = before.length + (payload.length + 3 + behind.length) := by
    rw [List.length_append, List.length_append, length_voiceBytes]
  have size : read whole (before.length + 1) 2 = .ok (Bytes.ofNat 2 payload.length) := by
    have laid : whole = (before ++ [opcode.code]) ++ (Bytes.ofNat 2 payload.length ++
        (payload ++ behind)) := by
      simp only [whole, voiceBytes, List.append_assoc, List.cons_append, List.nil_append]
    rw [laid]
    exact read_append _ _ _ (by rw [List.length_append, List.length_singleton])
      (Bytes.length_ofNat 2 _)
  have voice : read whole (before.length + 1 + 2) payload.length = .ok payload := by
    have laid : whole = (before ++ opcode.code :: Bytes.ofNat 2 payload.length) ++
        (payload ++ behind) := by
      simp only [whole, voiceBytes, List.append_assoc, List.cons_append]
    rw [laid]
    refine read_append _ _ _ ?_ rfl
    rw [List.length_append, List.length_cons, Bytes.length_ofNat]
  have decodes : decodePayload B whole max (before.length + 1) backend =
      .ok ⟨[.decompress (before.length + 3) payload], (B.decompress payload max backend).1,
        (B.decompress payload max backend).2⟩ := by
    rw [decodePayload, if_neg (by omega), size]
    simp only [bind, Except.bind]
    rw [Bytes.toNat_ofNat_of_lt (show payload.length < 256 ^ 2 from short),
      if_neg (by omega), voice]
    rfl
  show streamDecode B (before ++ opcode.code :: ((Bytes.ofNat 2 payload.length ++ payload) ++
    behind)) max (rounds + 1) before.length backend = _
  rw [streamDecode_opcode, PayLoadType.ofCode_code, ← decodes]
  cases opcode with
  | silk | opus | opusPlc => rfl
  | _ => cases isVoice

end Round

/-! ## Where a stream does not suit -/

/-- The loop ends here without a voice: neither a rate nor a voice comes next. -/
def Stuck (tail : List UInt8) : Prop :=
  (∀ rate behind, tail ≠ rateBytes rate ++ behind) ∧
    ∀ opcode payload behind, opcode.isVoice = true → payload.length < 65536 →
      tail ≠ voiceBytes opcode payload ++ behind

theorem rate_of_two {tail : List UInt8} (enough : 2 ≤ tail.length) :
    PayLoadType.samplingRate.code :: tail =
      rateBytes (.ofNat (Bytes.toNat (tail.take 2))) ++ tail.drop 2 := by
  have two : (tail.take 2).length = 2 := by
    rw [List.length_take]
    omega
  have small : Bytes.toNat (tail.take 2) < 2 ^ 16 := by
    have bound := Bytes.toNat_lt (tail.take 2)
    rwa [two] at bound
  have stored := Bytes.ofNat_toNat (tail.take 2)
  rw [two] at stored
  rw [rateBytes, UInt16.toNat_ofNat_of_lt' small, stored, List.cons_append, List.take_append_drop]

theorem voice_of_room {tail : List UInt8} (enough : 2 ≤ tail.length)
    (room : Bytes.toNat (tail.take 2) ≤ (tail.drop 2).length) (opcode : PayLoadType) :
    ∃ payload behind, payload.length < 65536 ∧
      opcode.code :: tail = voiceBytes opcode payload ++ behind := by
  let len := Bytes.toNat (tail.take 2)
  have two : (tail.take 2).length = 2 := by
    rw [List.length_take]
    omega
  have small : len < 65536 := by
    have bound := Bytes.toNat_lt (tail.take 2)
    rwa [two] at bound
  have size : ((tail.drop 2).take len).length = len := by
    rw [List.length_take]
    exact Nat.min_eq_left room
  have stored : Bytes.ofNat 2 len = tail.take 2 := by
    have stored := Bytes.ofNat_toNat (tail.take 2)
    rwa [two] at stored
  refine ⟨(tail.drop 2).take len, (tail.drop 2).drop len, by rw [size]; exact small, ?_⟩
  rw [voiceBytes, size, stored, List.cons_append, List.append_assoc, List.take_append_drop,
    List.take_append_drop]

section Stops

variable {σ : Type} (B : Backend σ) (max : Int) (backend : σ) (rounds : Nat)
  (before : List UInt8)

theorem decodePayload_short (opcode : UInt8) {tail : List UInt8}
    (short : ¬ (2 ≤ tail.length ∧ Bytes.toNat (tail.take 2) ≤ (tail.drop 2).length)) :
    decodePayload B (before ++ opcode :: tail) max (before.length + 1) backend =
      .ok ⟨[], ⟨0, []⟩, backend⟩ := by
  have length : (before ++ opcode :: tail).length = before.length + (tail.length + 1) := by
    rw [List.length_append, List.length_cons]
  rw [decodePayload]
  by_cases enough : 2 ≤ tail.length
  · have part : ((before ++ opcode :: tail).drop (before.length + 1)).take 2 = tail.take 2 := by
      rw [← List.drop_drop, List.drop_left, List.drop_succ_cons, List.drop_zero]
    have less := Nat.lt_of_not_le fun room => short ⟨enough, room⟩
    rw [List.length_drop] at less
    rw [if_neg (by omega), read_of_le (by omega), part]
    simp only [bind, Except.bind]
    rw [if_pos (by omega)]
    rfl
  · rw [if_pos (by omega)]
    rfl

theorem streamDecode_stuck {tail : List UInt8} (stuck : Stuck tail) :
    streamDecode B (before ++ tail) max (rounds + 1) before.length backend =
      .ok ⟨[], ⟨0, []⟩, backend⟩ := by
  obtain ⟨noRate, noVoice⟩ := stuck
  cases tail with
  | nil =>
      rw [streamDecode, if_neg (by rw [List.append_nil]; exact Nat.lt_irrefl _)]
      rfl
  | cons opcode tail =>
      rw [streamDecode_opcode]
      have voice {found : PayLoadType} (isVoice : found.isVoice = true)
          (same : opcode = found.code) :
          decodePayload B (before ++ opcode :: tail) max (before.length + 1) backend =
            .ok ⟨[], ⟨0, []⟩, backend⟩ := by
        refine decodePayload_short B max backend before opcode fun fits => ?_
        obtain ⟨enough, room⟩ := fits
        obtain ⟨payload, behind, short, laid⟩ := voice_of_room enough room found
        exact noVoice found payload behind isVoice short (same ▸ laid)
      cases found : PayLoadType.ofCode opcode.toNat with
      | none => rfl
      | some kind =>
          have same := ofCode_eq_some found
          cases kind with
          | samplingRate =>
              refine if_pos (Nat.lt_of_not_le fun enough => ?_)
              exact noRate _ _ (same ▸ rate_of_two enough)
          | silk | opus | opusPlc => exact voice rfl same
          | _ => rfl

/-- The rates are set one after the other. -/
theorem streamDecode_rates (rates : List UInt16) (tail : List UInt8) :
    streamDecode B (before ++ (rates.flatMap rateBytes ++ tail)) max (rates.length + rounds)
        before.length backend =
      (streamDecode B (before ++ (rates.flatMap rateBytes ++ tail)) max rounds
        (before.length + 3 * rates.length)
        (rates.foldl (fun backend rate => B.setSampleRate rate backend) backend)).map fun rest =>
          { rest with calls := rates.map .setSampleRate ++ rest.calls } := by
  induction rates generalizing before backend with
  | nil =>
      rw [List.length_nil, Nat.zero_add]
      show _ = Except.map id _
      rw [Except.map_id]
      rfl
  | cons rate rates ih =>
      have next := ih (B.setSampleRate rate backend) (before ++ rateBytes rate)
      rw [List.length_append, length_rateBytes, List.append_assoc, Nat.add_assoc] at next
      rw [List.flatMap_cons, List.append_assoc, List.length_cons,
        show rates.length + 1 + rounds = rates.length + rounds + 1 by omega, streamDecode_rate,
        next, show before.length + (3 + 3 * rates.length) =
          before.length + 3 * (rates.length + 1) by omega, List.foldl_cons]
      generalize streamDecode B _ max rounds _ _ = answer
      cases answer <;> rfl

end Stops

/-- A stream is sample rates and what is behind the last of them. -/
theorem exists_rates (tail : List UInt8) : ∃ (rates : List UInt16) (rest : List UInt8),
    tail = rates.flatMap rateBytes ++ rest ∧ ∀ rate behind, rest ≠ rateBytes rate ++ behind := by
  generalize size : tail.length = n
  induction n using Nat.strongRecOn generalizing tail with
  | ind n ih =>
      by_cases more : ∃ rate behind, tail = rateBytes rate ++ behind
      · obtain ⟨rate, behind, rfl⟩ := more
        rw [List.length_append, length_rateBytes] at size
        obtain ⟨rates, rest, rfl, last⟩ := ih behind.length (by omega) behind rfl
        exact ⟨rate :: rates, rest, by rw [List.flatMap_cons, List.append_assoc], last⟩
      · refine ⟨[], tail, rfl, fun rate behind same => more ⟨rate, behind, same⟩⟩

theorem length_rates (rates : List UInt16) :
    (rates.flatMap rateBytes).length = 3 * rates.length := by
  induction rates with
  | nil => rfl
  | cons rate rates ih =>
      rw [List.flatMap_cons, List.length_append, ih, length_rateBytes, List.length_cons]
      omega

section Stream

variable {σ : Type} (B : Backend σ) (max : Int) (backend : σ)

/-- From the rates on. -/
theorem streamDecode_from (rates : List UInt16) (rest : List UInt8) :
    ∃ rounds, streamDecode B (rates.flatMap rateBytes ++ rest) max
        ((rates.flatMap rateBytes ++ rest).length + 1) 0 backend =
      (streamDecode B (rates.flatMap rateBytes ++ rest) max (rounds + 1)
        (rates.flatMap rateBytes).length
        (rates.foldl (fun backend rate => B.setSampleRate rate backend) backend)).map fun rest =>
          { rest with calls := rates.map .setSampleRate ++ rest.calls } := by
  have length := length_rates rates
  refine ⟨(rates.flatMap rateBytes ++ rest).length - rates.length, ?_⟩
  have reads := streamDecode_rates B max backend
    ((rates.flatMap rateBytes ++ rest).length - rates.length + 1) [] rates rest
  rw [List.nil_append, List.length_nil, Nat.zero_add, ← length] at reads
  rw [← reads]
  congr 1
  rw [List.length_append]
  omega

theorem streamDecode_voiceMessage (s : VoiceMessage) :
    streamDecode B s.stream max (s.stream.length + 1) 0 backend =
      .ok (s.outcome B max backend) := by
  obtain ⟨rounds, reads⟩ := streamDecode_from B max backend s.rates
    (voiceBytes s.opcode s.payload ++ s.behind)
  rw [VoiceMessage.stream, reads, streamDecode_voice B max _ rounds _ s.isVoice s.short,
    length_rates]
  rfl

theorem streamDecode_none {rates : List UInt16} {rest : List UInt8} (stuck : Stuck rest) :
    streamDecode B (rates.flatMap rateBytes ++ rest) max
        ((rates.flatMap rateBytes ++ rest).length + 1) 0 backend =
      .ok ⟨rates.map .setSampleRate, ⟨0, []⟩,
        rates.foldl (fun backend rate => B.setSampleRate rate backend) backend⟩ := by
  obtain ⟨rounds, reads⟩ := streamDecode_from B max backend rates rest
  rw [reads, streamDecode_stuck B max _ rounds _ stuck]
  simp only [Except.map, List.append_nil]

end Stream

/-! ## Two messages do not share their bytes -/

theorem PayLoadType.code_inj {a b : PayLoadType} (same : a.code = b.code) : a = b := by
  have found := PayLoadType.ofCode_code a
  rw [same, PayLoadType.ofCode_code] at found
  exact (Option.some.inj found).symm

theorem PayLoadType.code_ne_rate {opcode : PayLoadType} (isVoice : opcode.isVoice = true) :
    opcode.code ≠ PayLoadType.samplingRate.code := by
  intro same
  rw [PayLoadType.code_inj same] at isVoice
  cases isVoice

theorem voiceBytes_inj {o o' : PayLoadType} {p p' b b' : List UInt8} (short : p.length < 65536)
    (short' : p'.length < 65536) (same : voiceBytes o p ++ b = voiceBytes o' p' ++ b') :
    o = o' ∧ p = p' ∧ b = b' := by
  simp only [voiceBytes, List.cons_append, List.append_assoc, List.cons.injEq] at same
  obtain ⟨opcode, same⟩ := same
  obtain ⟨size, same⟩ := List.append_inj same
    (by rw [Bytes.length_ofNat, Bytes.length_ofNat])
  obtain ⟨payload, behind⟩ := List.append_inj same (Bytes.ofNat_inj short short' size)
  exact ⟨PayLoadType.code_inj opcode, payload, behind⟩

theorem rates_unique {o o' : PayLoadType} {p p' b b' : List UInt8} (isVoice : o.isVoice = true)
    (isVoice' : o'.isVoice = true) (rates rates' : List UInt16)
    (same : rates.flatMap rateBytes ++ (voiceBytes o p ++ b) =
      rates'.flatMap rateBytes ++ (voiceBytes o' p' ++ b')) :
    rates = rates' ∧ voiceBytes o p ++ b = voiceBytes o' p' ++ b' := by
  induction rates generalizing rates' with
  | nil =>
      cases rates' with
      | nil => exact ⟨rfl, same⟩
      | cons rate' rates' =>
          exact absurd (List.cons.inj same).1 (PayLoadType.code_ne_rate isVoice)
  | cons rate rates ih =>
      cases rates' with
      | nil => exact absurd (List.cons.inj same).1.symm (PayLoadType.code_ne_rate isVoice')
      | cons rate' rates' =>
          rw [List.flatMap_cons, List.flatMap_cons, List.append_assoc, List.append_assoc] at same
          obtain ⟨first, rest⟩ := List.append_inj same
            (by rw [length_rateBytes, length_rateBytes])
          have number := Bytes.ofNat_inj rate.toNat_lt rate'.toNat_lt (List.cons.inj first).2
          obtain ⟨others, voice⟩ := ih rates' rest
          exact ⟨by rw [UInt16.toNat_inj.1 number, others], voice⟩

theorem steamPacket_inj (crc32 : List UInt8 → UInt32) {steamid steamid' : UInt64}
    {stream stream' : List UInt8}
    (same : steamPacket crc32 steamid stream = steamPacket crc32 steamid' stream') :
    steamid = steamid' ∧ stream = stream' := by
  have length := congrArg List.length same
  rw [length_steamPacket, length_steamPacket] at length
  obtain ⟨signed, _⟩ := List.append_inj same
    (by
      rw [List.length_append, List.length_append, Bytes.length_ofNat, Bytes.length_ofNat]
      omega)
  obtain ⟨header, stream⟩ := List.append_inj signed
    (by rw [Bytes.length_ofNat, Bytes.length_ofNat])
  exact ⟨UInt64.toNat_inj.1 (Bytes.ofNat_inj steamid.toNat_lt steamid'.toNat_lt header), stream⟩

theorem VoiceMessage.bytes_inj (crc32 : List UInt8 → UInt32) {s t : VoiceMessage}
    (same : s.bytes crc32 = t.bytes crc32) : s = t := by
  obtain ⟨steamid, stream⟩ := steamPacket_inj crc32 same
  obtain ⟨rates, voice⟩ := rates_unique s.isVoice t.isVoice s.rates t.rates stream
  obtain ⟨opcode, payload, behind⟩ := voiceBytes_inj s.short t.short voice
  cases s
  cases t
  simp only [VoiceMessage.mk.injEq]
  exact ⟨steamid, rates, opcode, payload, behind⟩

/-! ## Whole packets -/

/-- A packet of twelve bytes or more with its own checksum is laid out as one. -/
theorem exists_steamPacket (crc32 : List UInt8 → UInt32) {packet : List UInt8}
    (long : 12 ≤ packet.length)
    (signed : (crc32 (packet.take (packet.length - 4))).toNat =
      Bytes.toNat (packet.drop (packet.length - 4))) :
    ∃ steamid stream, packet = steamPacket crc32 steamid stream := by
  let head := packet.take 8
  let stream := (packet.drop 8).take (packet.length - 12)
  have eight : head.length = 8 := by
    rw [List.length_take]
    omega
  have small : Bytes.toNat head < 2 ^ 64 := by
    have bound := Bytes.toNat_lt head
    rwa [eight] at bound
  have header : Bytes.ofNat 8 (UInt64.ofNat (Bytes.toNat head)).toNat = head := by
    have stored := Bytes.ofNat_toNat head
    rw [eight] at stored
    rw [UInt64.toNat_ofNat_of_lt' small, stored]
  have front : head ++ stream = packet.take (packet.length - 4) := by
    have whole := List.take_add (l := packet) (i := 8) (j := packet.length - 12)
    rw [← whole]
    congr 1
    omega
  have four : (packet.drop (packet.length - 4)).length = 4 := by
    rw [List.length_drop]
    omega
  have wire : Bytes.ofNat 4 (crc32 (head ++ stream)).toNat = packet.drop (packet.length - 4) := by
    have stored := Bytes.ofNat_toNat (packet.drop (packet.length - 4))
    rw [four] at stored
    rw [front, signed, stored]
  refine ⟨.ofNat (Bytes.toNat head), stream, ?_⟩
  rw [steamPacket, header, wire, front, List.take_append_drop]

section Exact

variable {σ : Type} (B : Backend σ) (crc32 : List UInt8 → UInt32) (max : Int) (backend : σ)

theorem decompress_unsigned {packet : List UInt8}
    (unsigned : ∀ steamid stream, packet ≠ steamPacket crc32 steamid stream) :
    decompress B crc32 packet max backend = .ok ⟨[], ⟨0, []⟩, backend⟩ := by
  rw [decompress]
  by_cases long : 12 ≤ packet.length
  · have wire : (packet.drop (packet.length - 4)).take 4 = packet.drop (packet.length - 4) := by
      refine List.take_of_length_le ?_
      rw [List.length_drop]
      omega
    rw [if_neg (by omega), read_of_le (by omega), wire]
    simp only [bind, Except.bind]
    refine if_pos fun signed => ?_
    obtain ⟨steamid, stream, laid⟩ := exists_steamPacket crc32 long signed
    exact unsigned steamid stream laid
  · rw [if_pos (by omega)]
    rfl

/-- What `Compress` writes of a payload is a packet with a voice message. -/
theorem exists_voiceMessage {steamid : UInt64} {samples : List Int16} {room : Int} {final : Bool}
    {payload : List UInt8} {after : σ}
    (compressed : B.compress samples (room - 18) final backend =
      (⟨payload.length, payload⟩, after))
    (short : payload.length < 65536)
    (writes : (compress B crc32 steamid samples room final backend).1.result ≠ 0) :
    ∃ s : VoiceMessage, s.bytes crc32 =
        (compress B crc32 steamid samples room final backend).1.bytes ∧
      s.steamid = steamid ∧ s.rates = [B.sampleRate backend] ∧ s.payload = payload ∧
        s.behind = [] := by
  have enough : ¬ room < 22 := by
    intro less
    have none : room < 22 ∨ B.compress samples (room - 18) final backend =
      (⟨0, []⟩, backend) := .inl less
    exact writes (by rw [compress_zero B crc32 steamid samples final none])
  have some : payload ≠ [] := by
    intro empty
    rw [empty] at compressed
    exact writes (by rw [compress_zero B crc32 steamid samples final (.inr compressed)])
  have isVoice : B.encoder.codecType.isVoice = true := by cases B.encoder <;> rfl
  refine ⟨⟨steamid, [B.sampleRate backend], B.encoder.codecType, payload, [], isVoice, short⟩, ?_,
    rfl, rfl, rfl, rfl⟩
  rw [compress_eq crc32 steamid (Int.not_lt.1 enough) compressed some short]
  dsimp only
  rw [VoiceMessage.bytes]
  congr 1
  simp only [VoiceMessage.stream, voiceBytes, rateBytes, stream, List.flatMap_cons,
    List.flatMap_nil, List.append_nil, List.cons_append]

/-- **What is read of a packet.**  A packet carries at most one voice message.  Where it carries
one, decoding sets its rates in their order and hands over its payload, once; where it carries none,
decoding returns 0 and hands over nothing, and at most sets sample rates.  And each packet that
`Compress` writes, of a payload that the backend wrote in less than 64 KB, carries one, with the
rate of the backend and the payload. -/
theorem packet_exact (packet : List UInt8) :
    (∀ s : VoiceMessage, s.bytes crc32 = packet →
      decompress B crc32 packet max backend = .ok (s.outcome B max backend) ∧
        ∀ t : VoiceMessage, t.bytes crc32 = packet → t = s) ∧
      ((∀ s : VoiceMessage, s.bytes crc32 ≠ packet) → ∃ rates : List UInt16,
        decompress B crc32 packet max backend = .ok ⟨rates.map .setSampleRate, ⟨0, []⟩,
          rates.foldl (fun backend rate => B.setSampleRate rate backend) backend⟩) ∧
      ∀ steamid samples room final payload after,
        B.compress samples (room - 18) final backend = (⟨payload.length, payload⟩, after) →
        payload.length < 65536 →
        (compress B crc32 steamid samples room final backend).1.result ≠ 0 →
        (compress B crc32 steamid samples room final backend).1.bytes = packet →
          ∃ s : VoiceMessage, s.bytes crc32 = packet ∧ s.steamid = steamid ∧
            s.rates = [B.sampleRate backend] ∧ s.payload = payload ∧ s.behind = [] := by
  refine ⟨fun s same => ⟨?_, fun t same' => VoiceMessage.bytes_inj crc32 (same'.trans same.symm)⟩,
    fun none => ?_, fun steamid samples room final payload after compressed short writes same => ?_⟩
  · rw [← same, VoiceMessage.bytes, decompress_steamPacket]
    exact streamDecode_voiceMessage B max backend s
  · by_cases signed : ∃ steamid stream, packet = steamPacket crc32 steamid stream
    · obtain ⟨steamid, stream, rfl⟩ := signed
      obtain ⟨rates, rest, rfl, last⟩ := exists_rates stream
      refine ⟨rates, ?_⟩
      rw [decompress_steamPacket]
      refine streamDecode_none B max backend ⟨last, ?_⟩
      rintro opcode payload behind isVoice short rfl
      exact none ⟨steamid, rates, opcode, payload, behind, isVoice, short⟩ rfl
    · refine ⟨[], decompress_unsigned B crc32 max backend fun steamid stream laid => ?_⟩
      exact signed ⟨steamid, stream, laid⟩
  · rw [← same]
    exact exists_voiceMessage B crc32 backend compressed short writes

end Exact

end Refsapi.Revoice
