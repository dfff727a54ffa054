/-
# Revoice.Player -- one client slot of the voice transcoder

`CRevoicePlayer` and the hooks of `revoice_main.cpp`, as they act on one slot: a
`Slot` is the player object and its entry of `g_speakPending`, an `Input` is a
call of one of the hooks or of the API, and `step` is what the call does and what
it shows to the outside.  `step` has no result where the code divides by zero.

`m_VoiceRate`, which only the status command prints, is left out, and so is the
sending of a transcoded packet to the other clients.
-/
import Refsapi.Revoice.Codecs

namespace Refsapi.Revoice

set_option autoImplicit false

/-- `CodecType` -/
inductive CodecType where
  | none | silk | opus | speex
  deriving DecidableEq, Repr

/-- `CRevoicePlayer::GetCodecTypeByString` -/
def getCodecTypeByString (codec : String) : CodecType :=
  let codec := codec.toList.map Char.toLower
  if codec = "opus".toList then .opus
  else if codec = "silk".toList then .silk
  else if codec = "speex".toList then .speex
  else .none

/-- A `CSteamP2PCodec` -/
structure SteamCodec (σ : Type) where
  steamid : UInt64
  backend : σ

/-- The codec objects of a player. -/
structure Codecs (L : Libs) where
  silk : SteamCodec (Silk.Of L)
  opus : SteamCodec (Opus.Of L)
  speex : FrameCodec.Of L

/-- `CRevoicePlayer` -/
structure Player (L : Libs) where
  recvBuff : List UInt8
  voiceBusy : Bool
  decodeFails : Nat
  codecType : CodecType
  codecs : Codecs L
  protocol : Int
  requestId : Int
  connected : Bool
  hltv : Bool
  isMuted : Bool
  isBlocked : Bool
  isSpeaking : Bool
  checkingState : Int
  voiceEndTime : Int

structure Slot (L : Libs) where
  player : Player L
  speakPending : Bool

/-- Why `SV_ParseVoiceData_emu` returned. -/
inductive Fate where
  | busy | big | voiceOff | blocked | noCodec | decode | codec | muted | sent
  deriving DecidableEq, Repr

/-- The packet reached nobody. -/
def Fate.dropped (fate : Fate) : Bool := fate != .sent

/-- What a call shows: the fate of a packet, the speech events, the blocks that
were handed to a coder, and the queries that were sent to the client. -/
inductive Output where
  | fate (fate : Fate)
  | startSpeak
  | stopSpeak
  | opusBlock (samples : List Int16)
  | speexBlock (samples : List Int16)
  | query (requestId : Int)
  deriving DecidableEq, Repr

/-- A voice packet: the length that it declares, the bytes that are left in the
network message, and what the scratch buffer of `TranscodeVoice` holds when it
arrives, which all players share. -/
structure Packet where
  dataLength : UInt16
  bytes : List UInt8
  originalBuf : List Int16

/-- Who connects: what the engine and Reunion know of the client, the request id
that is made for it and the cvars that choose its codec. -/
structure Client where
  protocol : Int
  steamid : UInt64
  hltv : Bool
  requestId : Int
  defaultCodec : String
  hltvCodec : String

/-- `SPEAKING_TIMEOUT`, in milliseconds. -/
def speakingTimeout : Int := 200

/-- `REV_DECODE_FAIL_LIMIT` -/
def decodeFailLimit : Nat := 8

variable (L : Libs)

/-! ## Connecting and disconnecting -/

/-- A player as the constructor leaves it in zeroed memory. -/
def Player.new : Player L where
  recvBuff := []
  voiceBusy := false
  decodeFails := 0
  codecType := .none
  codecs := ⟨⟨0, Silk.new L⟩, ⟨0, Opus.new L⟩, FrameCodec.new L⟩
  protocol := 0
  requestId := 0
  connected := false
  hltv := false
  isMuted := false
  isBlocked := false
  isSpeaking := false
  checkingState := 0
  voiceEndTime := 0

def Slot.new : Slot L := ⟨Player.new L, false⟩

/-- The `ResetState` of each codec object, and `SetSteamid`. -/
def Codecs.reset (steamid : UInt64) (c : Codecs L) : Codecs L where
  silk := ⟨steamid, Silk.resetState L c.silk.backend⟩
  opus := ⟨steamid, Opus.resetState L c.opus.backend⟩
  speex := FrameCodec.resetState L c.speex

/-- `CRevoicePlayer::OnConnected` -/
def Player.onConnected (client : Client) (p : Player L) : List Output × Player L :=
  let p := { p with decodeFails := 0 }
  -- already connected, suppose now there is a change of level?
  if p.connected then ([], p)
  else if client.protocol ≠ 47 ∧ client.protocol ≠ 48 then ([], p)
  else
    let p := { p with
      codecs := p.codecs.reset L client.steamid
      codecType := getCodecTypeByString client.defaultCodec
      connected := true
      requestId := client.requestId
      protocol := client.protocol }
    if client.hltv then
      ([], { p with codecType := getCodecTypeByString client.hltvCodec, hltv := true })
    else if p.protocol = 48 then ([.query p.requestId], p)
    else ([], p)

variable {L} in
/-- `CRevoicePlayer::OnDisconnected` -/
def Player.onDisconnected (p : Player L) : Player L :=
  { p with
    decodeFails := 0
    hltv := false
    connected := false
    protocol := 0
    codecType := .none
    requestId := 0 }

variable {L} in
/-- `SV_DropClient_hook` -/
def Slot.drop (s : Slot L) : Slot L := ⟨s.player.onDisconnected, false⟩

variable {L} in
/-- `CRevoicePlayer::Update` -/
def Player.update (defaultCodec hltvCodec : String) (requestId : Int) (p : Player L) :
    List Output × Player L :=
  if p.hltv then ([], { p with codecType := getCodecTypeByString hltvCodec })
  else
    let p := { p with codecType := getCodecTypeByString defaultCodec, requestId }
    if p.protocol = 48 then ([.query requestId], p) else ([], p)

/-! ## Voice packets -/

/-- How a run of `TranscodeVoice` ended. -/
inductive Transcoded where
  | ok | decode | codec
  deriving DecidableEq, Repr

def Codecs.sampleRate (c : Codecs L) : CodecType → UInt16
  | .silk => c.silk.backend.samplerate
  | .opus => c.opus.backend.samplerate
  | _ => FrameCodec.sampleRate

/-- `sizeof(originalBuf)`, and of `transCodedBuf`. -/
def bufferSize : Int := 32768

/-- `Decompress` of the source codec. -/
def Codecs.decompress (source : CodecType) (packet : List UInt8) (c : Codecs L) :
    Option (Decoded × Codecs L) :=
  match source with
  | .silk => do
      let out ← (Revoice.decompress (Silk.backend L) L.crc32 packet bufferSize
        c.silk.backend).toOption
      return (out.decoded, { c with silk := { c.silk with backend := out.backend } })
  | .opus => do
      let out ← (Revoice.decompress (Opus.backend L) L.crc32 packet bufferSize
        c.opus.backend).toOption
      return (out.decoded, { c with opus := { c.opus with backend := out.backend } })
  | _ =>
      let (decoded, speex) := FrameCodec.decompress L packet bufferSize c.speex
      return (decoded, { c with speex })

/-- The samples that the code takes for decoded: as many as the codec returned,
from the buffer that it wrote. -/
def Decoded.heard (decoded : Decoded) (originalBuf : List Int16) : List Int16 :=
  (decoded.samples ++ originalBuf.drop decoded.samples.length).take decoded.result.toNat

/-- The samples at the rate of a target. -/
def resampled (rate target : UInt16) (samples : List Int16) : List Int16 :=
  if target ≠ rate then L.resample rate target samples else samples

/-- `Compress` of the Opus target: what it returned and wrote, and the blocks that
it handed to its coder. -/
def Codecs.toOpus (samples : List Int16) (c : Codecs L) : Encoded × List Output × Codecs L :=
  let blocks := (c.opus.backend.chunks samples false).1
  let (written, backend) := compress (Opus.backend L) L.crc32 c.opus.steamid samples bufferSize
    false c.opus.backend
  (written, blocks.map .opusBlock, { c with opus := { c.opus with backend } })

/-- `Compress` of the Speex target. -/
def Codecs.toSpeex (samples : List Int16) (c : Codecs L) : Encoded × List Output × Codecs L :=
  let blocks := (c.speex.chunks samples bufferSize false).1
  let (written, speex) := FrameCodec.compress L samples bufferSize false c.speex
  (written, blocks.map .speexBlock, { c with speex })

/-- The targets of `TranscodeVoice`, Opus and then Speex. -/
def Codecs.toTargets (rate : UInt16) (samples : List Int16) (c : Codecs L) :
    Transcoded × List Output × Codecs L :=
  let (written, opus, c) := c.toOpus L (resampled L rate c.opus.backend.samplerate samples)
  if written.result ≤ 0 then (.codec, opus, c)
  else
    let (written, speex, c) := c.toSpeex L (resampled L rate FrameCodec.sampleRate samples)
    (if written.result ≤ 0 then .codec else .ok, opus ++ speex, c)

/-- `TranscodeVoice`.  The remainder by a frame size of zero in
`VoiceEncoder_Opus::Compress` traps, and a negative length is a huge one. -/
def transcodeVoice (source : CodecType) (packet : List UInt8) (originalBuf : List Int16)
    (c : Codecs L) : Option (Transcoded × List Output × Codecs L) := do
  let (decoded, c) ← c.decompress L source packet
  if decoded.result < 0 then none
  else if decoded.result = 0 then return (.decode, [], c)
  else if c.opus.backend.frameSize = 0 then none
  else
    let rate := c.sampleRate L source
    return c.toTargets L rate (L.onDecompress rate (decoded.heard originalBuf))

/-- `recvBuff.resize` and `MSG_ReadBuf`, which leaves the buffer alone when the
message is too short. -/
def Packet.readBuf (packet : Packet) (recvBuff : List UInt8) : List UInt8 :=
  let size := packet.dataLength.toNat
  if size ≤ packet.bytes.length then packet.bytes.take size
  else (recvBuff ++ List.replicate size 0).take size

variable {L} in
/-- The part of `SV_ParseVoiceData_emu` that tells whether the client speaks:
the pending event, and `Speak`. -/
def Slot.speak (now : Int) (s : Slot L) : Slot L where
  player := { s.player with isSpeaking := true, voiceEndTime := now + speakingTimeout }
  speakPending := s.speakPending || !s.player.isSpeaking

variable {L} in
/-- A packet that did not get through, after a number of decoding failures. -/
def Player.failed (decodeFails : Nat) (p : Player L) : Player L :=
  if decodeFailLimit ≤ decodeFails then { p with codecType := .speex, decodeFails := 0 }
  else { p with decodeFails }

variable {L} in
/-- What `SV_ParseVoiceData_emu` does after `TranscodeVoice`. -/
def Player.transcoded (p : Player L) : Transcoded → Fate × Player L
  | .ok => (if p.isMuted then .muted else .sent, { p with decodeFails := 0 })
  | .decode => (.decode, p.failed (p.decodeFails + 1))
  | .codec => (.codec, p.failed p.decodeFails)

variable {L} in
/-- The packet is in the receive buffer. -/
def Slot.received (packet : Packet) (s : Slot L) : Slot L :=
  { s with player := { s.player with recvBuff := packet.readBuf s.player.recvBuff } }

/-- The `switch` of `SV_ParseVoiceData_emu`, and what follows it. -/
def Slot.transcode (originalBuf : List Int16) (s : Slot L) : Option (List Output × Slot L) :=
  if s.player.codecType = .none then return ([.fate .noCodec], s)
  else do
    let (result, blocks, codecs) ←
      transcodeVoice L s.player.codecType s.player.recvBuff originalBuf s.player.codecs
    let s := { s with player := { s.player with codecs } }
    let (fate, player) := s.player.transcoded result
    return (blocks ++ [.fate fate], { s with player })

/-- `SV_ParseVoiceData_emu` -/
def Slot.parseVoiceData (now : Int) (voiceEnable : Bool) (packet : Packet) (s : Slot L) :
    Option (List Output × Slot L) :=
  if s.player.voiceBusy then return ([.fate .busy], s)
  else if 8192 < packet.dataLength.toNat then return ([.fate .big], s.drop)
  else if !voiceEnable then
    return ([.fate .voiceOff], s.received packet)
  else if s.player.isBlocked then
    return ([.fate .blocked], s.received packet)
  else ((s.received packet).speak now).transcode L packet.originalBuf

/-! ## Frames, client commands and cvars -/

variable {L} in
/-- `StartFrame_PostHook`, as far as the speech events go. -/
def Slot.startFrame (now : Int) (active connected : Bool) (s : Slot L) : List Output × Slot L :=
  let startedSpeaking := s.speakPending
  let s := { s with speakPending := false }
  if !active || !connected then ([], s)
  else
    let start := if startedSpeaking then [Output.startSpeak] else []
    if ¬ now < s.player.voiceEndTime ∧ s.player.isSpeaking then
      (start ++ [.stopSpeak], { s with player := { s.player with isSpeaking := false } })
    else (start, s)

/-- The commands that tell the codec of a client. -/
inductive Command where
  | checkStart | runscript | checkEnd
  deriving DecidableEq, Repr

variable {L} in
/-- `OnClientCommandReceiving` -/
def Player.command (p : Player L) : Command → Player L
  | .checkStart => { p with checkingState := 1, codecType := .speex }
  | .runscript => if p.checkingState ≠ 0 then { p with checkingState := 2 } else p
  | .checkEnd =>
      if p.checkingState ≠ 0 then
        { p with
          codecType := if p.checkingState = 2 then .opus else .speex
          checkingState := 0 }
      else p

variable {L} in
/-- `CvarValue2_PreHook`; `build` is the number behind the last comma of the
value, when there is one. -/
def Player.cvarValue (requestId : Int) (build : Option Int) (p : Player L) : Player L :=
  if p.requestId ≠ requestId then p
  else if 4554 < build.getD 0 then { p with codecType := .opus } else p

/-- `Revoice_Update_Bitrate` -/
def Player.updateBitrate (bitRate : Rat) (p : Player L) : Player L :=
  if p.connected then
    { p with codecs := { p.codecs with
      opus := { p.codecs.opus with backend := Opus.setBitRate L bitRate p.codecs.opus.backend }
      silk := { p.codecs.silk with backend := Silk.setBitRate L bitRate p.codecs.silk.backend } } }
  else p

/-- The calls that act on a slot. -/
inductive Input where
  | packet (now : Int) (voiceEnable : Bool) (packet : Packet)
  | frame (now : Int) (active connected : Bool)
  | drop
  | connect (client : Client)
  | command (command : Command)
  | cvarValue (requestId : Int) (build : Option Int)
  | updatePlayers (defaultCodec hltvCodec : String) (requestId : Int)
  | updateHltv (defaultCodec hltvCodec : String) (requestId : Int)
  | updateBitrate (bitRate : Rat)
  | mute (muted : Bool)
  | block (blocked : Bool)

/-- One call. -/
def Slot.step (s : Slot L) : Input → Option (List Output × Slot L)
  | .packet now voiceEnable packet => s.parseVoiceData L now voiceEnable packet
  | .frame now active connected => some (s.startFrame now active connected)
  | .drop => some ([], s.drop)
  | .connect client => some (on (s.player.onConnected L client))
  | .command command => some (on ([], s.player.command command))
  | .cvarValue requestId build => some (on ([], s.player.cvarValue requestId build))
  | .updatePlayers defaultCodec hltvCodec requestId => some (on
      (if s.player.connected then s.player.update defaultCodec hltvCodec requestId
      else ([], s.player)))
  | .updateHltv defaultCodec hltvCodec requestId => some (on
      (if s.player.connected && s.player.hltv then
        s.player.update defaultCodec hltvCodec requestId
      else ([], s.player)))
  | .updateBitrate bitRate => some (on ([], s.player.updateBitrate L bitRate))
  | .mute muted => some (on ([], { s.player with isMuted := muted }))
  | .block blocked => some (on ([], { s.player with isBlocked := blocked }))
where
  on (called : List Output × Player L) : List Output × Slot L :=
    (called.1, { s with player := called.2 })

/-! ## What a call does to the player -/

/-- A call that sets what is told of a client, and leaves its voice alone. -/
def Input.sets : Input → Bool
  | .packet .. | .drop | .connect _ | .updateBitrate _ => false
  | _ => true

/-- The player behind a call that brings no packet. -/
inductive Player.Called (p : Player L) : Input → Player L → Prop where
  | drop : Called p .drop p.onDisconnected
  | connect (client : Client) : Called p (.connect client) (p.onConnected L client).2
  | updateBitrate (bitRate : Rat) : Called p (.updateBitrate bitRate) (p.updateBitrate L bitRate)
  | sets {i : Input} (codecType : CodecType) (requestId checkingState : Int)
      (isMuted isBlocked isSpeaking : Bool) : i.sets = true →
      Called p i { p with codecType, requestId, checkingState, isMuted, isBlocked, isSpeaking }

variable {L} in
theorem Player.called_update (p : Player L) (defaultCodec hltvCodec : String) (requestId : Int)
    {i : Input} (sets : i.sets = true) :
    p.Called L i (p.update defaultCodec hltvCodec requestId).2 := by
  rw [Player.update]
  split
  · exact .sets _ _ _ _ _ _ sets
  · dsimp only
    split
    · exact .sets _ _ _ _ _ _ sets
    · exact .sets _ _ _ _ _ _ sets

variable {L} in
/-- What a call that brings no packet does to the player. -/
theorem called_of_step {s s' : Slot L} {i : Input} {out : List Output}
    (moved : s.step L i = some (out, s'))
    (other : ∀ now voiceEnable packet, i ≠ .packet now voiceEnable packet) :
    s.player.Called L i s'.player := by
  cases i with
  | packet now voiceEnable packet => exact absurd rfl (other now voiceEnable packet)
  | frame now active connected =>
      have moved : s.startFrame now active connected = (out, s') := Option.some.inj moved
      rw [show s' = (s.startFrame now active connected).2 from (congrArg Prod.snd moved).symm]
      simp only [Slot.startFrame]
      repeat' split
      all_goals exact .sets _ _ _ _ _ _ rfl
  | drop =>
      cases moved
      exact .drop
  | connect client =>
      cases moved
      exact .connect client
  | command command =>
      cases moved
      cases command with
      | checkStart => exact .sets _ _ _ _ _ _ rfl
      | runscript | checkEnd =>
          simp only [Player.command]
          split
          · exact .sets _ _ _ _ _ _ rfl
          · exact .sets _ _ _ _ _ _ rfl
  | cvarValue requestId build =>
      cases moved
      simp only [Player.cvarValue]
      repeat' split
      all_goals exact .sets _ _ _ _ _ _ rfl
  | updatePlayers defaultCodec hltvCodec requestId | updateHltv defaultCodec hltvCodec requestId =>
      cases moved
      dsimp only
      split
      · exact s.player.called_update _ _ _ rfl
      · exact .sets _ _ _ _ _ _ rfl
  | updateBitrate bitRate =>
      cases moved
      exact .updateBitrate bitRate
  | mute muted | block blocked =>
      cases moved
      exact .sets _ _ _ _ _ _ rfl

/-- A client of protocol 47, to run the model with. -/
def Client.plain : Client where
  protocol := 47
  steamid := 76561197960265729
  hltv := false
  requestId := 1
  defaultCodec := "speex"
  hltvCodec := "opus"

/-- A packet with one Speex frame. -/
def Packet.plain : Packet := ⟨38, List.replicate 38 1, []⟩

end Refsapi.Revoice
