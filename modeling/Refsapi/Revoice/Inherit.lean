/-
# Revoice.Inherit -- what a new client inherits of its slot's past

`OnConnected` and `OnDisconnected` set the fields of `Known`.  What they leave is
the rest of the player: the block and the mute, the speaking flag and its
timeout, the state of the codec check, the bytes of the receive buffer, and what
the `ResetState` of each codec object does not clear, which are the queued samples
of the Speex codec and the sample rate, the bitrate and the sequence numbers of
the others.

`Clean` is the condition on a call, made in two slots that agree on `Known`, that
it reads no such leftover on which the two differ.  A call that is clean shows the
same in both and leaves them in agreement (`same_of_step`), and so does a run of
such calls (`same_of_run`): a new client whose calls are clean cannot tell the two
pasts apart.
-/
import Refsapi.Lib.Transition
import Refsapi.Revoice.Player
import Mathlib.Data.Option.Basic

namespace Refsapi.Revoice

set_option autoImplicit false

variable {L : Libs}

/-- What `OnConnected` or `OnDisconnected` set. -/
structure Known where
  speakPending : Bool
  voiceBusy : Bool
  decodeFails : Nat
  codecType : CodecType
  protocol : Int
  requestId : Int
  connected : Bool
  hltv : Bool
  silkId : UInt64
  opusId : UInt64

def Slot.known (s : Slot L) : Known where
  speakPending := s.speakPending
  voiceBusy := s.player.voiceBusy
  decodeFails := s.player.decodeFails
  codecType := s.player.codecType
  protocol := s.player.protocol
  requestId := s.player.requestId
  connected := s.player.connected
  hltv := s.player.hltv
  silkId := s.player.codecs.silk.steamid
  opusId := s.player.codecs.opus.steamid

/-- The players agree on what the transcoding of the packet reads. -/
structure SameCoding (packet : Packet) (p q : Player L) : Prop where
  received : packet.dataLength.toNat ≤ packet.bytes.length ∨ p.recvBuff = q.recvBuff
  silk : p.codecType = .silk → p.codecs.silk.backend = q.codecs.silk.backend
  opus : p.codecs.opus.backend = q.codecs.opus.backend
  speex : p.codecs.speex = q.codecs.speex
  muted : p.isMuted = q.isMuted

/-- The call reads no leftover on which the slots differ. -/
def Clean (p q : Slot L) : Input → Prop
  | .packet _ voiceEnable packet =>
      packet.dataLength.toNat ≤ 8192 → voiceEnable = true →
        p.player.isBlocked = q.player.isBlocked ∧ (p.player.isBlocked = false →
          p.player.isSpeaking = q.player.isSpeaking ∧
            (p.player.codecType ≠ .none → SameCoding packet p.player q.player))
  | .frame _ active connected => active = true → connected = true →
      p.player.isSpeaking = q.player.isSpeaking ∧
        (p.player.isSpeaking = true → p.player.voiceEndTime = q.player.voiceEndTime)
  | .command command =>
      command = .checkStart ∨ p.player.checkingState = q.player.checkingState
  | _ => True

/-- Two results of a call: they show the same, and the slots agree. -/
def Same (a b : List Output × Slot L) : Prop := a.1 = b.1 ∧ a.2.known = b.2.known

/-! ## Transcoding -/

theorem decompress_silk {source : CodecType} (other : source ≠ .silk) (packet : List UInt8)
    (c : Codecs L) (silk : SteamCodec (Silk.Of L)) :
    Codecs.decompress L source packet { c with silk } =
      (c.decompress L source packet).map fun out => (out.1, { out.2 with silk }) := by
  cases source with
  | silk => exact absurd rfl other
  | opus =>
      simp only [Codecs.decompress]
      cases (decompress (Opus.backend L) L.crc32 packet bufferSize c.opus.backend).toOption <;> rfl
  | speex | none => rfl

theorem toTargets_silk (rate : UInt16) (samples : List Int16) (c : Codecs L)
    (silk : SteamCodec (Silk.Of L)) :
    Codecs.toTargets L rate samples { c with silk } =
      ((c.toTargets L rate samples).1, (c.toTargets L rate samples).2.1,
        { (c.toTargets L rate samples).2.2 with silk }) := by
  have opus (samples : List Int16) : Codecs.toOpus L samples { c with silk } =
      ((c.toOpus L samples).1, (c.toOpus L samples).2.1,
        { (c.toOpus L samples).2.2 with silk }) := by
    simp only [Codecs.toOpus]
  have speex (samples : List Int16) (c : Codecs L) : Codecs.toSpeex L samples { c with silk } =
      ((c.toSpeex L samples).1, (c.toSpeex L samples).2.1,
        { (c.toSpeex L samples).2.2 with silk }) := by
    simp only [Codecs.toSpeex]
  simp only [Codecs.toTargets, opus]
  split
  · simp only
  · simp only [speex]

/-- Only Silk packets read the Silk object. -/
theorem transcode_silk {source : CodecType} (other : source ≠ .silk) (packet : List UInt8)
    (buf : List Int16) (c : Codecs L) (silk : SteamCodec (Silk.Of L)) :
    transcodeVoice L source packet buf { c with silk } =
      (transcodeVoice L source packet buf c).map fun out =>
        (out.1, out.2.1, { out.2.2 with silk }) := by
  rw [transcodeVoice, transcodeVoice, decompress_silk other]
  cases c.decompress L source packet with
  | none => rfl
  | some out =>
      obtain ⟨decoded, next⟩ := out
      have rate : Codecs.sampleRate L { next with silk } source = next.sampleRate L source := by
        cases source with
        | silk => exact absurd rfl other
        | opus | speex | none => rfl
      simp only [Option.map_some, Option.bind_eq_bind, Option.bind_some, rate, toTargets_silk]
      split
      · rfl
      · split
        · rfl
        · split <;> rfl

/-- The steam ids of the two objects. -/
def Codecs.ids (c : Codecs L) : UInt64 × UInt64 := (c.silk.steamid, c.opus.steamid)

theorem ids_of_decompress {source : CodecType} {packet : List UInt8} {c c' : Codecs L}
    {decoded : Decoded} (run : c.decompress L source packet = some (decoded, c')) :
    c'.ids = c.ids := by
  cases source with
  | silk | opus =>
      obtain ⟨out, -, ends⟩ := Option.bind_eq_some_iff.1 run
      cases ends
      rfl
  | speex | none =>
      cases run
      rfl

theorem ids_toTargets (rate : UInt16) (samples : List Int16) (c : Codecs L) :
    (c.toTargets L rate samples).2.2.ids = c.ids := by
  simp only [Codecs.toTargets]
  split
  · simp only [Codecs.toOpus, Codecs.ids]
  · simp only [Codecs.toSpeex, Codecs.toOpus, Codecs.ids]

theorem ids_of_transcode {source : CodecType} {packet : List UInt8} {buf : List Int16}
    {c c' : Codecs L} {result : Transcoded} {blocks : List Output}
    (run : transcodeVoice L source packet buf c = some (result, blocks, c')) : c'.ids = c.ids := by
  rw [transcodeVoice] at run
  obtain ⟨⟨decoded, next⟩, decodes, run⟩ := Option.bind_eq_some_iff.1 run
  simp only at run
  rw [← ids_of_decompress decodes]
  split at run
  · cases run
  · split at run
    · cases run
      rfl
    · split at run
      · cases run
      · have codecs := congrArg (fun out => out.2.2) (Option.some.inj run)
        simp only at codecs
        rw [← codecs, ids_toTargets]

/-- Objects that agree on what is read transcode alike. -/
theorem transcode_agree {source : CodecType} (packet : List UInt8) (buf : List Int16)
    {c d : Codecs L} (ids : c.ids = d.ids)
    (silk : source = .silk → c.silk.backend = d.silk.backend)
    (opus : c.opus.backend = d.opus.backend) (speex : c.speex = d.speex) :
    Option.Rel (fun a b => a.1 = b.1 ∧ a.2.1 = b.2.1 ∧ a.2.2.ids = b.2.2.ids)
      (transcodeVoice L source packet buf c) (transcodeVoice L source packet buf d) := by
  have rest : d = { c with silk := d.silk } := by
    obtain ⟨silk, ⟨id, backend⟩, speex⟩ := c
    obtain ⟨silk', ⟨id', backend'⟩, speex'⟩ := d
    simp only [Codecs.ids, Prod.mk.injEq] at ids opus speex
    simp only [ids.2, opus, speex]
  by_cases isSilk : source = .silk
  · have whole : c = d := by
      rw [rest]
      obtain ⟨⟨id, backend⟩, opus, speex⟩ := c
      obtain ⟨⟨id', backend'⟩, opus', speex'⟩ := d
      simp only [Codecs.ids, Prod.mk.injEq] at ids silk
      simp only [ids.1, silk isSilk]
    subst whole
    cases transcodeVoice L source packet buf c with
    | none => exact .none
    | some out => exact .some ⟨rfl, rfl, rfl⟩
  · have alike := transcode_silk isSilk packet buf c d.silk
    rw [rest, alike]
    cases run : transcodeVoice L source packet buf c with
    | none => exact .none
    | some out =>
        obtain ⟨result, blocks, next⟩ := out
        refine .some ⟨rfl, rfl, ?_⟩
        have kept := ids_of_transcode run
        rw [ids] at kept
        simp only [Codecs.ids, Prod.mk.injEq] at kept ⊢
        exact ⟨kept.1, trivial⟩

/-! ## One call -/

theorem known_drop (s : Slot L) : s.drop.known =
    { s.known with
      speakPending := false, decodeFails := 0, hltv := false, connected := false
      protocol := 0, codecType := .none, requestId := 0 } := rfl

theorem known_codecs (s : Slot L) (codecs : Codecs L) :
    Slot.known { s with player := { s.player with codecs } } =
      { s.known with silkId := codecs.ids.1, opusId := codecs.ids.2 } := rfl

theorem known_failed (s : Slot L) (fails : Nat) :
    Slot.known { s with player := s.player.failed fails } =
      if decodeFailLimit ≤ fails then { s.known with codecType := .speex, decodeFails := 0 }
      else { s.known with decodeFails := fails } := by
  simp only [Player.failed]
  split <;> rfl

/-- What comes after the transcoding depends on its result. -/
theorem same_transcoded {s t : Slot L} (known : s.known = t.known)
    (muted : s.player.isMuted = t.player.isMuted) (result : Transcoded) :
    (s.player.transcoded result).1 = (t.player.transcoded result).1 ∧
      Slot.known { s with player := (s.player.transcoded result).2 } =
        Slot.known { t with player := (t.player.transcoded result).2 } := by
  have fails : s.player.decodeFails = t.player.decodeFails := congrArg Known.decodeFails known
  cases result with
  | ok =>
      refine ⟨by simp only [Player.transcoded, muted], ?_⟩
      exact congrArg (fun k : Known => { k with decodeFails := 0 }) known
  | decode | codec =>
      refine ⟨rfl, ?_⟩
      simp only [Player.transcoded]
      rw [known_failed, known_failed, known, fails]

theorem same_of_transcode {s t : Slot L} {buf : List Int16} (known : s.known = t.known)
    (received : s.player.recvBuff = t.player.recvBuff)
    (silk : s.player.codecType = .silk →
      s.player.codecs.silk.backend = t.player.codecs.silk.backend)
    (opus : s.player.codecs.opus.backend = t.player.codecs.opus.backend)
    (speex : s.player.codecs.speex = t.player.codecs.speex)
    (muted : s.player.isMuted = t.player.isMuted) :
    Option.Rel Same (s.transcode L buf) (t.transcode L buf) := by
  have codec : s.player.codecType = t.player.codecType := congrArg Known.codecType known
  have ids : s.player.codecs.ids = t.player.codecs.ids :=
    Prod.ext (congrArg Known.silkId known) (congrArg Known.opusId known)
  have alike := transcode_agree s.player.recvBuff buf ids silk opus speex
  rw [Slot.transcode, Slot.transcode, ← codec, ← received]
  split
  · exact .some ⟨rfl, known⟩
  · revert alike
    generalize transcodeVoice L s.player.codecType s.player.recvBuff buf s.player.codecs = x
    generalize transcodeVoice L s.player.codecType s.player.recvBuff buf t.player.codecs = y
    intro alike
    cases alike with
    | none => exact .none
    | @some a b alike =>
        obtain ⟨result, blocks, c⟩ := a
        obtain ⟨_, _, d⟩ := b
        obtain ⟨rfl, rfl, kept⟩ := alike
        have known : Slot.known { s with player := { s.player with codecs := c } } =
            Slot.known { t with player := { t.player with codecs := d } } := by
          rw [known_codecs s c, known_codecs t d, known, show c.ids = d.ids from kept]
        obtain ⟨fate, after⟩ := same_transcoded known muted result
        exact .some ⟨congrArg (fun f => blocks ++ [Output.fate f]) fate, after⟩

/-- A packet that is let through in both slots. -/
theorem same_of_heard {p q : Slot L} {now : Int} {packet : Packet} (known : p.known = q.known)
    (speaking : p.player.isSpeaking = q.player.isSpeaking)
    (coding : p.player.codecType ≠ .none → SameCoding packet p.player q.player) :
    Option.Rel Same (((p.received packet).speak now).transcode L packet.originalBuf)
      (((q.received packet).speak now).transcode L packet.originalBuf) := by
  have codec : p.player.codecType = q.player.codecType := congrArg Known.codecType known
  have pending : p.speakPending = q.speakPending := congrArg Known.speakPending known
  have spoke : ((p.received packet).speak now).known = ((q.received packet).speak now).known := by
    show { p.known with speakPending := p.speakPending || !p.player.isSpeaking } =
      { q.known with speakPending := q.speakPending || !q.player.isSpeaking }
    rw [known, pending, speaking]
  by_cases silent : p.player.codecType = .none
  · have nothing (s : Slot L) (none : s.player.codecType = .none) :
        s.transcode L packet.originalBuf = some ([.fate .noCodec], s) := by
      rw [Slot.transcode, if_pos none]
      rfl
    rw [nothing ((p.received packet).speak now) silent,
      nothing ((q.received packet).speak now) (codec.symm.trans silent)]
    exact .some ⟨rfl, spoke⟩
  · obtain ⟨received, silk, opus, speex, muted⟩ := coding silent
    refine same_of_transcode spoke ?_ silk opus speex muted
    show packet.readBuf p.player.recvBuff = packet.readBuf q.player.recvBuff
    rcases received with complete | same
    · simp only [Packet.readBuf, if_pos complete]
    · rw [same]

theorem same_of_parse {p q : Slot L} {now : Int} {voiceEnable : Bool} {packet : Packet}
    (known : p.known = q.known) (clean : Clean p q (.packet now voiceEnable packet)) :
    Option.Rel Same (p.parseVoiceData L now voiceEnable packet)
      (q.parseVoiceData L now voiceEnable packet) := by
  have busy : p.player.voiceBusy = q.player.voiceBusy := congrArg Known.voiceBusy known
  have codec : p.player.codecType = q.player.codecType := congrArg Known.codecType known
  rw [Slot.parseVoiceData, Slot.parseVoiceData, ← busy]
  by_cases isBusy : p.player.voiceBusy = true
  · rw [if_pos isBusy, if_pos isBusy]
    exact .some ⟨rfl, known⟩
  · rw [if_neg isBusy, if_neg isBusy]
    by_cases big : 8192 < packet.dataLength.toNat
    · rw [if_pos big, if_pos big]
      refine .some ⟨rfl, ?_⟩
      rw [known_drop, known_drop, known]
    · rw [if_neg big, if_neg big]
      cases voiceEnable with
      | false => exact .some ⟨rfl, known⟩
      | true =>
          obtain ⟨blocked, heard⟩ := clean (Nat.le_of_not_lt big) rfl
          simp only [Bool.not_true, Bool.false_eq_true, ↓reduceIte, ← blocked]
          cases isBlocked : p.player.isBlocked with
          | true => exact .some ⟨rfl, known⟩
          | false =>
              obtain ⟨speaking, coding⟩ := heard isBlocked
              simp only [Bool.false_eq_true, ↓reduceIte]
              exact same_of_heard known speaking coding

theorem same_of_frame {p q : Slot L} {now : Int} {active connected : Bool}
    (known : p.known = q.known) (clean : Clean p q (.frame now active connected)) :
    Same (p.startFrame now active connected) (q.startFrame now active connected) := by
  have pending : p.speakPending = q.speakPending := congrArg Known.speakPending known
  have sent : { p.known with speakPending := false } = { q.known with speakPending := false } := by
    rw [known]
  simp only [Slot.startFrame]
  split
  · exact ⟨rfl, sent⟩
  · next there =>
      obtain ⟨rfl, rfl⟩ : active = true ∧ connected = true := by
        simpa [not_or] using there
      obtain ⟨speaking, timeout⟩ := clean rfl rfl
      rw [← speaking, ← pending]
      by_cases speaks : p.player.isSpeaking = true
      · rw [← timeout speaks]
        split
        · exact ⟨rfl, sent⟩
        · exact ⟨rfl, sent⟩
      · have goesOn (timeout : Int) : ¬ (¬ now < timeout ∧ p.player.isSpeaking = true) :=
          fun stops => speaks stops.2
        rw [if_neg (goesOn _), if_neg (goesOn _)]
        exact ⟨rfl, sent⟩

theorem same_of_connect {p q : Slot L} (known : p.known = q.known) (client : Client) :
    (p.player.onConnected L client).1 = (q.player.onConnected L client).1 ∧
      Slot.known { p with player := (p.player.onConnected L client).2 } =
        Slot.known { q with player := (q.player.onConnected L client).2 } := by
  have connected : p.player.connected = q.player.connected := congrArg Known.connected known
  have reset := congrArg (fun k : Known => { k with decodeFails := 0 }) known
  have fresh := congrArg (fun k : Known => { k with
    decodeFails := 0, codecType := getCodecTypeByString client.defaultCodec, connected := true
    requestId := client.requestId, protocol := client.protocol
    silkId := client.steamid, opusId := client.steamid }) known
  simp only [Player.onConnected]
  by_cases level : p.player.connected = true
  · rw [if_pos level, if_pos (connected.symm.trans level)]
    exact ⟨rfl, reset⟩
  · have other : ¬ q.player.connected = true := connected ▸ level
    rw [if_neg level, if_neg other]
    split
    · exact ⟨rfl, reset⟩
    · split
      · exact ⟨rfl, congrArg (fun k : Known => { k with
          codecType := getCodecTypeByString client.hltvCodec, hltv := true }) fresh⟩
      · split
        · exact ⟨rfl, fresh⟩
        · exact ⟨rfl, fresh⟩

theorem same_of_update {p q : Slot L} (known : p.known = q.known)
    (defaultCodec hltvCodec : String) (requestId : Int) :
    (p.player.update defaultCodec hltvCodec requestId).1 =
        (q.player.update defaultCodec hltvCodec requestId).1 ∧
      Slot.known { p with player := (p.player.update defaultCodec hltvCodec requestId).2 } =
        Slot.known { q with player := (q.player.update defaultCodec hltvCodec requestId).2 } := by
  have hltv : p.player.hltv = q.player.hltv := congrArg Known.hltv known
  have protocol : p.player.protocol = q.player.protocol := congrArg Known.protocol known
  have fresh := congrArg (fun k : Known => { k with
    codecType := getCodecTypeByString defaultCodec, requestId }) known
  simp only [Player.update]
  by_cases isHltv : p.player.hltv = true
  · rw [if_pos isHltv, if_pos (hltv.symm.trans isHltv)]
    exact ⟨rfl, congrArg (fun k : Known => { k with
      codecType := getCodecTypeByString hltvCodec }) known⟩
  · have other : ¬ q.player.hltv = true := hltv ▸ isHltv
    rw [if_neg isHltv, if_neg other]
    by_cases asks : p.player.protocol = 48
    · rw [if_pos asks, if_pos (protocol.symm.trans asks)]
      exact ⟨rfl, fresh⟩
    · have other : ¬ q.player.protocol = 48 := protocol ▸ asks
      rw [if_neg asks, if_neg other]
      exact ⟨rfl, fresh⟩

theorem same_of_command {p q : Slot L} {command : Command} (known : p.known = q.known)
    (clean : Clean p q (.command command)) :
    Slot.known { p with player := p.player.command command } =
      Slot.known { q with player := q.player.command command } := by
  have speex := congrArg (fun k : Known => { k with codecType := .speex }) known
  have opus := congrArg (fun k : Known => { k with codecType := .opus }) known
  cases command with
  | checkStart => exact speex
  | runscript =>
      have kept (s : Slot L) : Slot.known { s with player := s.player.command .runscript } =
          s.known := by
        simp only [Player.command]
        split <;> rfl
      rw [kept, kept, known]
  | checkEnd =>
      have state : p.player.checkingState = q.player.checkingState :=
        clean.resolve_left fun same => by cases same
      simp only [Player.command, ← state]
      split
      · split
        · exact opus
        · exact speex
      · exact known

theorem same_of_cvarValue {p q : Slot L} (known : p.known = q.known) (requestId : Int)
    (build : Option Int) :
    Slot.known { p with player := p.player.cvarValue requestId build } =
      Slot.known { q with player := q.player.cvarValue requestId build } := by
  have request : p.player.requestId = q.player.requestId := congrArg Known.requestId known
  have opus := congrArg (fun k : Known => { k with codecType := .opus }) known
  simp only [Player.cvarValue]
  by_cases stale : p.player.requestId ≠ requestId
  · have other : q.player.requestId ≠ requestId := request ▸ stale
    rw [if_pos stale, if_pos other]
    exact known
  · have other : ¬ q.player.requestId ≠ requestId := request ▸ stale
    rw [if_neg stale, if_neg other]
    split
    · exact opus
    · exact known

theorem known_updateBitrate (s : Slot L) (bitRate : Rat) :
    Slot.known { s with player := s.player.updateBitrate L bitRate } = s.known := by
  simp only [Player.updateBitrate]
  split <;> rfl

/-- A call that updates the player when a check of it passes. -/
theorem same_of_check {p q : Slot L} (known : p.known = q.known) (check : Player L → Bool)
    (alike : check p.player = check q.player) (defaultCodec hltvCodec : String)
    (requestId : Int) :
    Same (Slot.step.on L p (if check p.player then
        p.player.update defaultCodec hltvCodec requestId else ([], p.player)))
      (Slot.step.on L q (if check q.player then
        q.player.update defaultCodec hltvCodec requestId else ([], q.player))) := by
  rw [← alike]
  split
  · exact same_of_update known defaultCodec hltvCodec requestId
  · exact ⟨rfl, known⟩

/-- **A clean call** shows the same in both slots, and they still agree. -/
theorem same_of_step {p q : Slot L} {i : Input} (known : p.known = q.known)
    (clean : Clean p q i) : Option.Rel Same (p.step L i) (q.step L i) := by
  have connected : p.player.connected = q.player.connected := congrArg Known.connected known
  have hltv : p.player.hltv = q.player.hltv := congrArg Known.hltv known
  cases i with
  | packet now voiceEnable packet => exact same_of_parse known clean
  | frame now active connected => exact .some (same_of_frame known clean)
  | drop =>
      refine .some ⟨rfl, ?_⟩
      rw [known_drop, known_drop, known]
  | connect client => exact .some (same_of_connect known client)
  | command command => exact .some ⟨rfl, same_of_command known clean⟩
  | cvarValue requestId build => exact .some ⟨rfl, same_of_cvarValue known requestId build⟩
  | updatePlayers defaultCodec hltvCodec requestId =>
      exact .some (same_of_check known (fun player => player.connected) connected ..)
  | updateHltv defaultCodec hltvCodec requestId =>
      exact .some (same_of_check known (fun player => player.connected && player.hltv)
        (by rw [connected, hltv]) ..)
  | updateBitrate bitRate =>
      exact .some ⟨rfl, (known_updateBitrate p bitRate).trans
        (known.trans (known_updateBitrate q bitRate).symm)⟩
  | mute muted => exact .some ⟨rfl, known⟩
  | block blocked => exact .some ⟨rfl, known⟩

/-! ## Runs -/

/-- What a list of calls shows, call by call, up to a trap. -/
def Slot.shows : Slot L → List Input → List (List Output)
  | _, [] => []
  | s, i :: rest =>
      match s.step L i with
      | none => []
      | some (out, s') => out :: s'.shows rest

/-- Every call that is made in both slots is clean. -/
def CleanRun : Slot L → Slot L → List Input → Prop
  | _, _, [] => True
  | p, q, i :: rest => Clean p q i ∧
      ∀ out p' out' q', p.step L i = some (out, p') → q.step L i = some (out', q') →
        CleanRun p' q' rest

theorem same_of_run {p q : Slot L} {calls : List Input} (known : p.known = q.known)
    (clean : CleanRun p q calls) : p.shows calls = q.shows calls := by
  induction calls generalizing p q with
  | nil => rfl
  | cons i rest ih =>
      have same := same_of_step known clean.1
      have goesOn := clean.2
      rw [Slot.shows, Slot.shows]
      cases called : p.step L i <;> cases other : q.step L i <;>
        simp only [called, other] at same ⊢
      · cases same
      · cases same
      · cases same with
        | some same => rw [same.1, ih same.2 (goesOn _ _ _ _ called other)]

variable (L) in
/-- One slot, from the start of the server on. -/
def slotMachine : Machine (Slot L) Input where
  init s := s = Slot.new L
  step s i := (s.step L i).map Prod.snd

theorem voiceBusy_transcoded (p : Player L) (result : Transcoded) :
    (p.transcoded result).2.voiceBusy = p.voiceBusy := by
  cases result with
  | ok => rfl
  | decode | codec =>
      simp only [Player.transcoded, Player.failed]
      split <;> rfl

theorem voiceBusy_of_parse {now : Int} {voiceEnable : Bool} {packet : Packet} {s s' : Slot L}
    {out : List Output} (moved : s.parseVoiceData L now voiceEnable packet = some (out, s')) :
    s'.player.voiceBusy = s.player.voiceBusy := by
  rw [Slot.parseVoiceData] at moved
  repeat' split at moved
  case isFalse.isFalse.isFalse.isFalse =>
    rw [Slot.transcode] at moved
    split at moved
    · cases moved
      rfl
    · obtain ⟨⟨result, blocks, codecs⟩, -, ends⟩ := Option.bind_eq_some_iff.1 moved
      cases ends
      exact voiceBusy_transcoded _ result
  all_goals
    cases moved
    rfl

theorem voiceBusy_of_step {s s' : Slot L} {i : Input} {out : List Output}
    (moved : s.step L i = some (out, s')) : s'.player.voiceBusy = s.player.voiceBusy := by
  by_cases isPacket : ∃ now voiceEnable packet, i = .packet now voiceEnable packet
  · obtain ⟨now, voiceEnable, packet, rfl⟩ := isPacket
    exact voiceBusy_of_parse moved
  · have called := called_of_step moved fun now voiceEnable packet same =>
      isPacket ⟨now, voiceEnable, packet, same⟩
    generalize s'.player = after at called ⊢
    cases called with
    | drop | sets => rfl
    | connect client =>
        simp only [Player.onConnected]
        repeat' split
        all_goals rfl
    | updateBitrate bitRate =>
        simp only [Player.updateBitrate]
        split <;> rfl

theorem voiceBusy_of_reachable {s : Slot L} (run : (slotMachine L).Reachable s) :
    s.player.voiceBusy = false := by
  refine Machine.Reaches.invariant (I := fun s => s.player.voiceBusy = false) ?_ ?_ run
  · rintro s rfl
    rfl
  · intro s i s' _ idle _ moved
    obtain ⟨⟨out, next⟩, called, rfl⟩ := Option.map_eq_some_iff.1 moved
    exact (voiceBusy_of_step called).trans idle

/-! ## A new client -/

variable (L) in
/-- The slot after `OnDisconnected` and `OnConnected`. -/
def Slot.handOver (client : Client) (s : Slot L) : Slot L :=
  { s.drop with player := (s.drop.player.onConnected L client).2 }

/-- `OnDisconnected` and `OnConnected` set what is known, whoever was there. -/
theorem known_handOver {s : Slot L} (idle : s.player.voiceBusy = false) {client : Client}
    (supported : client.protocol = 47 ∨ client.protocol = 48) :
    (s.handOver L client).known = ⟨false, false, 0,
      getCodecTypeByString (if client.hltv then client.hltvCodec else client.defaultCodec),
      client.protocol, client.requestId, true, client.hltv, client.steamid, client.steamid⟩ := by
  have accepted : ¬ (client.protocol ≠ 47 ∧ client.protocol ≠ 48) := fun refused =>
    supported.elim refused.1 refused.2
  have fresh : s.drop.player.connected = false := rfl
  simp only [Slot.handOver, Player.onConnected, fresh, Bool.false_eq_true, ↓reduceIte,
    if_neg accepted]
  cases isHltv : client.hltv with
  | true =>
      simp only [↓reduceIte, Slot.known, Slot.drop, Player.onDisconnected, idle, Codecs.reset]
  | false =>
      simp only [Bool.false_eq_true, ↓reduceIte]
      split <;>
        simp only [Slot.known, Slot.drop, Player.onDisconnected, idle, Codecs.reset]

theorem shows_handOver {s : Slot L} (client : Client) (calls : List Input) :
    s.drop.shows (.connect client :: calls) =
      (s.drop.player.onConnected L client).1 :: (s.handOver L client).shows calls := rfl

/-- What `OnConnected` sends does not depend on who was there. -/
theorem onConnected_drop (s : Slot L) (client : Client) :
    (s.drop.player.onConnected L client).1 =
      if client.protocol = 48 ∧ client.hltv = false then [.query client.requestId] else [] := by
  have fresh : s.drop.player.connected = false := rfl
  simp only [Player.onConnected, fresh, Bool.false_eq_true, ↓reduceIte]
  split
  · next refused => rw [if_neg fun asks => refused.2 asks.1]
  · split
    · next isHltv =>
        rw [if_neg fun asks => by
          rw [asks.2] at isHltv
          cases isHltv]
    · next plain =>
        split
        · next asks => rw [if_pos ⟨asks, by simpa using plain⟩]
        · next other => rw [if_neg fun asks => other asks.1]

/-- **A new client and the past of its slot.**  Two histories of a slot, each
ended by `OnDisconnected`, and one client that connects then: as long as its calls
read no leftover of the slot on which the two histories differ, it is shown the
same after both, call by call, down to the fate of its packets, the speech events
and the blocks of samples that the coders are handed. -/
theorem shows_of_clean (L : Libs) (p q : Slot L) (past : (slotMachine L).Reachable p)
    (other : (slotMachine L).Reachable q) (client : Client)
    (supported : client.protocol = 47 ∨ client.protocol = 48) (calls : List Input)
    (clean : CleanRun (p.handOver L client) (q.handOver L client) calls) :
    p.drop.shows (.connect client :: calls) = q.drop.shows (.connect client :: calls) := by
  have known : (p.handOver L client).known = (q.handOver L client).known := by
    rw [known_handOver (voiceBusy_of_reachable past) supported,
      known_handOver (voiceBusy_of_reachable other) supported]
  rw [shows_handOver, shows_handOver, onConnected_drop, onConnected_drop, same_of_run known clean]

/-- The state of a codec check is a leftover that voice packets do not read. -/
theorem shows_of_clean_probed :
    let probed := { Player.new .plain with checkingState := 1, codecType := .speex }
    Slot.shows (L := .plain) (Slot.new .plain).drop [.connect .plain, .packet 0 true .plain] =
      Slot.shows (L := .plain) (Slot.drop ⟨probed, false⟩)
        [.connect .plain, .packet 0 true .plain] := by
  intro probed
  refine shows_of_clean .plain (Slot.new .plain) ⟨probed, false⟩ (.init rfl)
    (.step (a := .command .checkStart) (.init rfl) trivial rfl) .plain (.inl rfl) _
    ⟨fun _ _ => ⟨rfl, fun _ => ⟨rfl, fun _ => ?_⟩⟩, fun _ _ _ _ _ _ => trivial⟩
  exact ⟨.inl (by decide), fun _ => rfl, rfl, rfl, rfl⟩

/-- Which of the packets of a run were dropped. -/
def dropped (shown : List (List Output)) : List Bool :=
  shown.flatten.filterMap fun
    | .fate fate => some fate.dropped
    | _ => none

/-- The client before was blocked, and the packets of the next one are dropped. -/
theorem not_always_forgotten : ¬ ∀ p q, (slotMachine .plain).Reachable p →
    (slotMachine .plain).Reachable q → ∀ client : Client,
      client.protocol = 47 ∨ client.protocol = 48 → ∀ calls,
        dropped (p.drop.shows (.connect client :: calls)) =
          dropped (q.drop.shows (.connect client :: calls)) := by
  intro always
  have next (history : List Input) (shown : List Bool)
      (ends : ((slotMachine .plain).exec (Slot.new .plain) history).map
        (fun s => dropped (s.drop.shows [.connect .plain, .packet 0 true .plain]) == shown) =
          some true) :=
    Machine.exists_reachable (M := slotMachine .plain) rfl ends
  obtain ⟨p, past, blocked⟩ := next [.connect .plain, .block true] [true] (by decide +kernel)
  obtain ⟨q, other, heard⟩ := next [.connect .plain] [false] (by decide +kernel)
  have same := always p q past other .plain (.inl rfl) [.packet 0 true .plain]
  rw [eq_of_beq blocked, eq_of_beq heard] at same
  cases same

end Refsapi.Revoice
