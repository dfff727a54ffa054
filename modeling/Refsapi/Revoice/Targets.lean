/-
# Revoice.Targets -- a decoded packet for its two targets and their listeners

`TranscodeVoice` encodes the samples of a packet for its targets, Steam and then Speex, and
`SV_ParseVoiceData_emu` sends each client the bytes of the target that it listens with.  What the
`Compress` of the targets come to is given; `Codecs.answers` has it from the codec objects.

A target that gives no bytes ends the packet for both, whether it failed or only queued the samples.
So what a target gives reaches its listeners exactly when the other one gives bytes too, or nobody
waits for them (`targets_independent_iff`).
-/
import Refsapi.Revoice.Player

namespace Refsapi.Revoice

set_option autoImplicit false

/-! ## The targets of a packet -/

/-- The `targets` of `SV_ParseVoiceData_emu`. -/
inductive Target where
  | steam | speex
  deriving DecidableEq, Repr

/-- The order of `targets`. -/
def targets : List Target := [.steam, .speex]

/-- What a call of `Compress` came to, and whether the codec only queued the samples. -/
structure Compressed where
  written : Encoded
  queued : Bool
  whole : written.result.toNat ≤ written.bytes.length

namespace Compressed

/-- `Compress` produced bytes. -/
def produced (c : Compressed) : Bool := 0 < c.written.result

/-- The bytes that are put in the buffer of the target. -/
def out (c : Compressed) : List UInt8 := c.written.bytes.take c.written.result.toNat

/-- The codec waits for more samples. -/
def Waits (c : Compressed) : Prop := c.produced = false ∧ c.queued = true

instance (c : Compressed) : Decidable c.Waits := inferInstanceAs (Decidable (_ ∧ _))

theorem out_length (c : Compressed) : c.out.length = c.written.result.toNat := by
  rw [out, List.length_take, Nat.min_eq_left c.whole]

theorem out_pos {c : Compressed} (produced : c.produced = true) : 0 < c.out.length := by
  rw [out_length]
  exact Int.lt_toNat.2 (of_decide_eq_true produced)

end Compressed

/-- The loop of `TranscodeVoice`: the target that ended it, and what is in the buffers. -/
def transcodeTargets (answer : Target → Compressed) :
    List Target → (Target → List UInt8) → Option Target × (Target → List UInt8)
  | [], buffers => (none, buffers)
  | target :: rest, buffers =>
      if (answer target).written.result ≤ 0 then (some target, buffers)
      else transcodeTargets answer rest fun t =>
        if t = target then buffers t ++ (answer t).out else buffers t

/-! ## The clients -/

def CodecType.target : CodecType → Option Target
  | .silk | .opus => some .steam
  | .speex => some .speex
  | .none => Option.none

/-- `svc_voicedata`, with what follows it. -/
def voiceMessage (sender : Nat) (sendBuf : List UInt8) : List UInt8 :=
  53 :: UInt8.ofNat sender :: (Bytes.ofNat 2 sendBuf.length ++ sendBuf)

/-- What is asked of a client that may listen: its bit in the voice stream of the sender, its row
of `g_mute_map`, and so on. -/
structure Listener where
  inStream : Bool
  active : Bool
  connected : Bool
  mutes : UInt8 → Bool
  codecType : CodecType
  loopback : Bool
  datagram : List UInt8
  maxsize : Nat

namespace Listener

/-- The client mutes the sender, or everyone. -/
def muting (sender : Nat) (l : Listener) : Bool := l.mutes (UInt8.ofNat sender) || l.mutes 255

def receive (sender : Nat) (sendBuf : List UInt8) (l : Listener) : Listener :=
  { l with datagram := l.datagram ++ voiceMessage sender sendBuf }

/-- The round of the loop of `SV_ParseVoiceData_emu` for the client of an index. -/
def offer (sender : Nat) (buffers : Target → List UInt8) (i : Nat) (l : Listener) : Listener :=
  if !l.inStream then l
  else if !l.active || !l.connected then l
  else if l.muting sender then l
  else match l.codecType.target with
    | none => l
    | some target =>
        let sendBuf := buffers target
        if sendBuf.length = 0 then l
        else if i = sender && !l.loopback then l
        else if l.datagram.length + sendBuf.length + 4 < l.maxsize then l.receive sender sendBuf
        else l

/-- The client of an index listens to the sender with a target, and has room for a number of
bytes. -/
structure Hears (sender i : Nat) (target : Target) (len : Nat) (l : Listener) : Prop where
  inStream : l.inStream = true
  active : l.active = true
  connected : l.connected = true
  unmuted : l.muting sender = false
  codec : l.codecType.target = some target
  loopback : i = sender → l.loopback = true
  room : l.datagram.length + len + 4 < l.maxsize

end Listener

/-- The part of `SV_ParseVoiceData_emu` behind the decoding of the packet of a client, who may be
muted: the target that ended it, and the clients. -/
def sendVoice (sender : Nat) (isMuted : Bool) (answer : Target → Compressed)
    (clients : List Listener) : Option Target × List Listener :=
  let (ended, buffers) := transcodeTargets answer targets fun _ => []
  if ended.isSome || isMuted then (ended, clients)
  else (ended, clients.mapIdx fun i client => client.offer sender buffers i)

section Loop

variable {answer : Target → Compressed}

/-- The loop ends at the first target that gives no bytes. -/
theorem transcodeTargets_fst (rest : List Target) (buffers : Target → List UInt8) :
    (transcodeTargets answer rest buffers).1 =
      rest.find? fun target => !(answer target).produced := by
  induction rest generalizing buffers with
  | nil => rfl
  | cons target rest ih =>
      rw [transcodeTargets]
      split
      · next none =>
          have silent : (answer target).produced = false := decide_eq_false (Int.not_lt.2 none)
          rw [List.find?_cons_of_pos (by rw [silent]; rfl)]
      · next some =>
          have bytes : (answer target).produced = true := decide_eq_true (Int.not_le.1 some)
          rw [ih, List.find?_cons_of_neg (by rw [bytes]; exact Bool.false_ne_true)]

/-- What is in the buffers when every target gives bytes. -/
theorem transcodeTargets_snd {rest : List Target} (nodup : rest.Nodup)
    (served : ∀ target ∈ rest, (answer target).produced = true) (buffers : Target → List UInt8)
    (target : Target) :
    (transcodeTargets answer rest buffers).2 target =
      buffers target ++ if target ∈ rest then (answer target).out else [] := by
  induction rest generalizing buffers with
  | nil => exact (List.append_nil _).symm
  | cons first rest ih =>
      obtain ⟨fresh, nodup⟩ := List.nodup_cons.1 nodup
      obtain ⟨bytes, served⟩ := List.forall_mem_cons.1 served
      rw [transcodeTargets, if_neg (Int.not_le.2 (of_decide_eq_true bytes)), ih nodup served]
      by_cases isFirst : target = first
      · subst isFirst
        rw [if_pos rfl, if_neg fresh, if_pos List.mem_cons_self, List.append_nil]
      · simp only [isFirst, if_false, List.mem_cons, false_or]

end Loop

theorem mem_targets (target : Target) : target ∈ targets := by
  cases target <;> decide

theorem Listener.Hears.offer {sender i : Nat} {target : Target} {l : Listener}
    {buffers : Target → List UInt8} (hears : l.Hears sender i target (buffers target).length)
    (bytes : 0 < (buffers target).length) :
    l.offer sender buffers i = l.receive sender (buffers target) := by
  have other : ¬ (i = sender && !l.loopback) = true := by
    intro silent
    obtain ⟨same, off⟩ := (Bool.and_eq_true ..).mp silent
    rw [hears.loopback (of_decide_eq_true same)] at off
    exact Bool.false_ne_true off
  simp only [Listener.offer, hears.inStream, hears.active, hears.connected, hears.unmuted,
    hears.codec, if_neg other, if_neg (Nat.ne_of_gt bytes), if_pos hears.room, Bool.not_true,
    Bool.or_self, if_false, Bool.false_eq_true]

theorem receive_ne (sender : Nat) (sendBuf : List UInt8) (l : Listener) :
    l.receive sender sendBuf ≠ l := by
  intro same
  have length := congrArg (fun l => l.datagram.length) same
  simp only [Listener.receive, voiceMessage, List.length_append, List.length_cons] at length
  omega

/-! ## The targets by themselves -/

/-- Whoever listens with a target that gave bytes receives them, and a target that waits for more
samples does not end the packet. -/
structure Independent (sender : Nat) (isMuted : Bool) (answer : Target → Compressed)
    (clients : List Listener) : Prop where
  heard : ∀ i target (l : Listener), clients[i]? = some l → isMuted = false →
    (answer target).produced = true → l.Hears sender i target (answer target).out.length →
    (sendVoice sender isMuted answer clients).2[i]? =
      some (l.receive sender (answer target).out)
  waits : ∀ target, (sendVoice sender isMuted answer clients).1 = some target →
    ¬ (answer target).Waits

/-- The target that ends a packet failed, and nobody waits for the other one. -/
structure FailsAlone (sender : Nat) (isMuted : Bool) (answer : Target → Compressed)
    (clients : List Listener) (target : Target) : Prop where
  failed : ¬ (answer target).Waits
  unheard : ∀ i other (l : Listener), clients[i]? = some l → isMuted = false →
    (answer other).produced = true → ¬ l.Hears sender i other (answer other).out.length

section Send

variable {sender : Nat} {isMuted : Bool} {answer : Target → Compressed} {clients : List Listener}

theorem sendVoice_fst : (sendVoice sender isMuted answer clients).1 =
    targets.find? fun target => !(answer target).produced := by
  rw [← transcodeTargets_fst targets fun _ => []]
  simp only [sendVoice]
  split <;> rfl

/-- A packet that was ended goes to nobody. -/
theorem sendVoice_of_ended {target : Target}
    (ended : targets.find? (fun target => !(answer target).produced) = some target) :
    (sendVoice sender isMuted answer clients).2 = clients := by
  have first : (transcodeTargets answer targets fun _ => []).1 = _ := transcodeTargets_fst targets _
  simp only [sendVoice, first, ended, Option.isSome_some, Bool.true_or, if_true]

/-- A packet for which every target gives bytes reaches those who listen. -/
theorem heard_of_served (served : ∀ target, (answer target).produced = true) {i : Nat}
    {target : Target} {l : Listener} (isClient : clients[i]? = some l) (unmuted : isMuted = false)
    (hears : l.Hears sender i target (answer target).out.length) :
    (sendVoice sender isMuted answer clients).2[i]? =
      some (l.receive sender (answer target).out) := by
  have none : targets.find? (fun target => !(answer target).produced) = Option.none :=
    List.find?_eq_none.2 fun target _ => by rw [served target]; exact Bool.false_ne_true
  have first : (transcodeTargets answer targets fun _ => []).1 = _ := transcodeTargets_fst targets _
  have filled (target : Target) :
      (transcodeTargets answer targets fun _ => []).2 target = (answer target).out := by
    rw [transcodeTargets_snd (by decide) (fun target _ => served target), List.nil_append,
      if_pos (mem_targets target)]
  have bytes := Compressed.out_pos (served target)
  rw [← filled target] at hears bytes ⊢
  simp only [sendVoice, first, none, unmuted, Option.isSome_none, Bool.or_self,
    Bool.false_eq_true, if_false, List.getElem?_mapIdx, isClient, Option.map_some]
  rw [hears.offer bytes]

end Send

/-! ## The codec objects -/

/-- As many bytes were written as are returned. -/
def Encoded.Whole (written : Encoded) : Prop := written.result.toNat ≤ written.bytes.length

theorem whole_zero : Encoded.Whole ⟨0, []⟩ := Nat.le_refl 0

section Backend

variable {σ : Type} {B : Backend σ}

theorem whole_streamEncode
    (whole : ∀ samples max bFinal backend, (B.compress samples max bFinal backend).1.Whole)
    (samples : List Int16) (max : Int) (bFinal : Bool) (backend : σ) :
    (streamEncode B samples max bFinal backend).1.Whole := by
  have inside := whole samples (max - (1 + 2 + 1 + 2)) bFinal backend
  generalize called : B.compress samples (max - (1 + 2 + 1 + 2)) bFinal backend = call at inside
  simp only [streamEncode, called]
  split
  · exact whole_zero
  · split
    · exact whole_zero
    · simp only [Encoded.Whole] at inside ⊢
      simp only [List.length_take, List.length_append, List.length_cons, List.length_nil,
        Bytes.length_ofNat]
      omega

theorem whole_compress {crc32 : List UInt8 → UInt32}
    (whole : ∀ samples max bFinal backend, (B.compress samples max bFinal backend).1.Whole)
    (steamid : UInt64) (samples : List Int16) (max : Int) (bFinal : Bool) (backend : σ) :
    (compress B crc32 steamid samples max bFinal backend).1.Whole := by
  have inside := whole_streamEncode whole samples (max - 12) bFinal backend
  simp only [compress]
  split
  · exact whole_zero
  · split
    · exact whole_zero
    · simp only [Encoded.Whole] at inside ⊢
      simp only [List.length_append, Bytes.length_ofNat]
      omega

end Backend

namespace Codecs

variable (L : Libs)

theorem whole_opus (samples : List Int16) (max : Int) (bFinal : Bool) (c : Opus.Of L) :
    (Opus.compress L samples max bFinal c).1.Whole := by
  simp only [Opus.compress]
  repeat' split
  all_goals exact Nat.le_of_eq (Bytes.length_contents _ _).symm

theorem whole_toOpus (samples : List Int16) (c : Codecs L) : (c.toOpus L samples).1.Whole := by
  have whole (samples : List Int16) (max : Int) (bFinal : Bool) (backend : Opus.Of L) :
      ((Opus.backend L).compress samples max bFinal backend).1.Whole :=
    whole_opus L samples max bFinal backend
  rw [toOpus]
  exact whole_compress whole ..

theorem whole_toSpeex (samples : List Int16) (c : Codecs L) : (c.toSpeex L samples).1.Whole :=
  Nat.le_of_eq (Bytes.length_contents _ _).symm

/-- What the targets come to for samples of a rate. -/
def answers (rate : UInt16) (samples : List Int16) (c : Codecs L) : Target → Compressed
  | .steam =>
      let samples := resampled L rate c.opus.backend.samplerate samples
      { written := (c.toOpus L samples).1
        queued := samples.length + c.opus.backend.overflow.length < c.opus.backend.frameSize
        whole := whole_toOpus L samples c }
  | .speex =>
      let samples := resampled L rate FrameCodec.sampleRate samples
      { written := (c.toSpeex L samples).1
        queued := (c.speex.chunks samples bufferSize false).1.isEmpty
        whole := whole_toSpeex L samples c }

/-- The targets of a player are those of the loop. -/
theorem toTargets_fst (rate : UInt16) (samples : List Int16) (c : Codecs L) :
    (c.toTargets L rate samples).1 =
      if (transcodeTargets (c.answers L rate samples) targets fun _ => []).1.isSome then .codec
      else .ok := by
  have speex (samples : List Int16) (steam : List Int16) :
      ((c.toOpus L steam).2.2.toSpeex L samples).1 = (c.toSpeex L samples).1 := by
    simp only [toSpeex, toOpus]
  rw [transcodeTargets_fst]
  by_cases none : (c.toOpus L (resampled L rate c.opus.backend.samplerate samples)).1.result ≤ 0
  · have silent : (c.answers L rate samples .steam).produced = false :=
      decide_eq_false (Int.not_lt.2 none)
    simp only [toTargets, if_pos none, targets, List.find?_cons, silent, Bool.not_false,
      Option.isSome_some, if_true]
  · have bytes : (c.answers L rate samples .steam).produced = true :=
      decide_eq_true (Int.not_le.1 none)
    simp only [toTargets, if_neg none, targets, List.find?_cons, List.find?_nil, bytes,
      Bool.not_true, speex]
    split
    · next none =>
        have silent : (c.answers L rate samples .speex).produced = false :=
          decide_eq_false (Int.not_lt.2 none)
        simp only [silent, Bool.not_false, Option.isSome_some, if_true]
    · next some =>
        have bytes : (c.answers L rate samples .speex).produced = true :=
          decide_eq_true (Int.not_le.1 some)
        simp only [bytes, Bool.not_true, Option.isSome_none, Bool.false_eq_true, if_false]

end Codecs

/-- **The targets of a packet are independent exactly when both give bytes, or the first one that
gives none failed and nobody listens to the other.** -/
theorem targets_independent_iff (sender : Nat) (isMuted : Bool) (answer : Target → Compressed)
    (clients : List Listener) :
    Independent sender isMuted answer clients ↔
      ∀ target, targets.find? (fun target => !(answer target).produced) = some target →
        FailsAlone sender isMuted answer clients target := by
  constructor
  · intro independent target ended
    refine ⟨independent.waits target (sendVoice_fst.trans ended), ?_⟩
    intro i other l isClient unmuted produced hears
    have received := independent.heard i other l isClient unmuted produced hears
    rw [sendVoice_of_ended ended, isClient] at received
    exact receive_ne _ _ _ (Option.some.inj received).symm
  · intro alone
    constructor
    · intro i target l isClient unmuted produced hears
      cases ended : targets.find? fun target => !(answer target).produced with
      | none =>
          have served (target : Target) : (answer target).produced = true := by
            have bytes := List.find?_eq_none.1 ended target (mem_targets target)
            simpa using bytes
          exact heard_of_served served isClient unmuted hears
      | some other =>
          exact absurd hears ((alone other ended).unheard i target l isClient unmuted produced)
    · intro target ended
      exact (alone target (sendVoice_fst.symm.trans ended)).failed

/-- Libraries whose resampler keeps the first samples. -/
abbrev Libs.thinning : Libs :=
  { Libs.plain with
    resample := fun rate target samples =>
      samples.take (samples.length * target.toNat / rate.toNat) }

/-- The codecs of a new player after 10 ms of 24000 Hz, which the Steam target queued. -/
def halfQueued : Codecs Libs.thinning :=
  ((Codecs.reset Libs.thinning 1 (Player.new Libs.thinning).codecs).toOpus Libs.thinning
    (List.replicate 240 0)).2.2

/-- A client who listens with Opus. -/
def Listener.plain : Listener := ⟨true, true, true, fun _ => false, .opus, false, [], 4000⟩

/-- Another 10 ms complete a frame for Steam, which the queue of the Speex target keeps from those
who listen. -/
theorem not_always_independent : ¬ ∀ (sender : Nat) (isMuted : Bool) (rate : UInt16)
    (samples : List Int16) (c : Codecs Libs.thinning) (clients : List Listener),
    Independent sender isMuted (c.answers Libs.thinning rate samples) clients := by
  intro always
  have independent := always 0 false 24000 (List.replicate 240 0) halfQueued [.plain, .plain]
  have ends : targets.find? (fun target => !(halfQueued.answers Libs.thinning 24000
      (List.replicate 240 0) target).produced) = some .speex := by
    decide +kernel
  have hears : Listener.plain.Hears 0 1 .steam
      (halfQueued.answers Libs.thinning 24000 (List.replicate 240 0) .steam).out.length :=
    ⟨rfl, rfl, rfl, rfl, rfl, fun same => absurd same (by decide), by decide +kernel⟩
  have received := independent.heard 1 .steam .plain rfl rfl (by decide +kernel) hears
  rw [sendVoice_of_ended ends] at received
  exact receive_ne _ _ _ (Option.some.inj received).symm

end Refsapi.Revoice
