/-
# Revoice.Traffic -- who mutes whom, and what is in the datagrams

`g_mute_map` has a row for each client that was ever asked about, with `uint8_t` keys: the
key of "all" is that of -1.  Reading it makes entries, in the loops that send voice and in
`IsClientMuted`, which besides compares an iterator of one row with the end of another.
None of that is seen: `mutes` changes with `MuteClient` and `UnmuteClient` alone.

A `Post` is the map and the datagrams of the clients, with a record of what has happened.
`traffic_sound` reads off the record what the map and the datagrams are, and that nobody
was sent a voice that he had muted.
-/
import Refsapi.Lib.Transition
import Refsapi.Misc.Edict
import Refsapi.Revoice.Targets

namespace Refsapi.Revoice

set_option autoImplicit false

/-! ## `g_mute_map` -/

abbrev MuteMap : Type := UInt8 → Option (UInt8 → Option Bool)

/-- An index of the interface less one, as a `uint8_t`. -/
def muteKey (clientIndex : Nat) : UInt8 := .ofNat (clientIndex + 255)

/-- The key of all senders, -1. -/
def allKey : UInt8 := 255

namespace MuteMap

def row (map : MuteMap) (i : UInt8) : UInt8 → Option Bool := (map i).getD fun _ => none

/-- `g_mute_map[i]`, which makes the row. -/
def touch (map : MuteMap) (i : UInt8) : MuteMap := Function.update map i (some (map.row i))

/-- `g_mute_map[i][key] = muted` -/
def assign (map : MuteMap) (i key : UInt8) (muted : Bool) : MuteMap :=
  Function.update map i (some (Function.update (map.row i) key (some muted)))

/-- `g_mute_map[i][key]`, which makes the entry. -/
def read (map : MuteMap) (i key : UInt8) : Bool × MuteMap :=
  match map.row i key with
  | some muted => (muted, map)
  | none => (false, map.assign i key false)

/-- `g_mute_map[i][sender] || g_mute_map[i][-1]` -/
def asks (map : MuteMap) (i sender : UInt8) : Bool × MuteMap :=
  let own := map.read i sender
  if own.1 then own else own.2.read i allKey

/-- `MuteClient`, of an index that `GetPlayerByIndex` accepts. -/
def muteClient (maxClients clientIndex receiverIndex : Nat) (map : MuteMap) : Option MuteMap :=
  if isValidIndex maxClients clientIndex then
    some (map.assign (muteKey clientIndex) (muteKey receiverIndex) true)
  else none

/-- `UnmuteClient` -/
def unmuteClient (maxClients clientIndex receiverIndex : Nat) (map : MuteMap) : Option MuteMap :=
  if isValidIndex maxClients clientIndex then
    some (map.assign (muteKey clientIndex) (muteKey receiverIndex) false)
  else none

/-- `IsClientMuted`, where the ends of two rows may or may not be equal. -/
def isClientMuted (maxClients clientIndex receiverIndex : Nat) (sameEnd : Bool) (map : MuteMap) :
    Option (Bool × MuteMap) :=
  if isValidIndex maxClients clientIndex then
    let i := muteKey clientIndex
    let key := muteKey receiverIndex
    if (map i).isNone then some (false, map)
    else
      let map := map.touch key
      if (map.row i key).isNone && sameEnd then some (false, map) else some (map.read i key)
  else none

/-- What the map says. -/
def mutes (map : MuteMap) (i key : UInt8) : Bool := (map.row i key).getD false

/-! ## Reading leaves it as it is -/

theorem row_touch (map : MuteMap) (i : UInt8) : (map.touch i).row = map.row := by
  funext j
  simp only [row, touch, Function.update_apply]
  split
  · next same => rw [same, Option.getD_some]
  · rfl

theorem mutes_assign (map : MuteMap) (i key : UInt8) (muted : Bool) (j other : UInt8) :
    (map.assign i key muted).mutes j other =
      if j = i ∧ other = key then muted else map.mutes j other := by
  simp only [mutes, row, assign, Function.update_apply]
  by_cases own : j = i
  · subst own
    rw [if_pos rfl, Option.getD_some, Function.update_apply]
    by_cases same : other = key
    · rw [if_pos same, if_pos ⟨rfl, same⟩, Option.getD_some]
    · rw [if_neg same, if_neg fun both => same both.2]
  · rw [if_neg own, if_neg fun both => own both.1]

theorem read_fst (map : MuteMap) (i key : UInt8) : (map.read i key).1 = map.mutes i key := by
  unfold read mutes
  cases map.row i key <;> rfl

theorem mutes_read (map : MuteMap) (i key : UInt8) : (map.read i key).2.mutes = map.mutes := by
  unfold read
  cases found : map.row i key with
  | some muted => rfl
  | none =>
      funext j other
      show (map.assign i key false).mutes j other = _
      rw [mutes_assign]
      split
      · next same =>
          rw [same.1, same.2, mutes, found]
          rfl
      · rfl

theorem asks_fst (map : MuteMap) (i sender : UInt8) :
    (map.asks i sender).1 = (map.mutes i sender || map.mutes i allKey) := by
  unfold asks
  simp only [read_fst]
  cases own : map.mutes i sender with
  | true => rw [if_pos rfl, read_fst, own, Bool.true_or]
  | false => rw [if_neg Bool.false_ne_true, read_fst, mutes_read, Bool.false_or]

theorem mutes_asks (map : MuteMap) (i sender : UInt8) :
    (map.asks i sender).2.mutes = map.mutes := by
  unfold asks
  simp only
  split
  · exact mutes_read map i sender
  · rw [mutes_read, mutes_read]

theorem unmuted_of_asks {map : MuteMap} {i sender : UInt8}
    (unmuted : ¬ (map.asks i sender).1 = true) :
    ((map.asks i sender).2.mutes i sender || (map.asks i sender).2.mutes i allKey) = false := by
  rw [mutes_asks, ← asks_fst]
  exact Bool.eq_false_iff.2 unmuted

/-- `IsClientMuted` answers with the entry, whatever the ends are. -/
theorem isClientMuted_eq {maxClients clientIndex : Nat}
    (valid : isValidIndex maxClients clientIndex = true) (receiverIndex : Nat) (sameEnd : Bool)
    (map : MuteMap) : ∃ map' : MuteMap,
      map.isClientMuted maxClients clientIndex receiverIndex sameEnd =
        some (map.mutes (muteKey clientIndex) (muteKey receiverIndex), map') ∧
      map'.mutes = map.mutes := by
  unfold isClientMuted
  rw [if_pos valid]
  have touched : (map.touch (muteKey receiverIndex)).mutes = map.mutes := by
    funext i key
    rw [mutes, row_touch, mutes]
  simp only
  split
  · next absent =>
      refine ⟨map, ?_, rfl⟩
      rw [mutes, row, Option.isNone_iff_eq_none.1 absent]
      rfl
  split
  · next missing =>
      refine ⟨_, ?_, touched⟩
      rw [row_touch, Bool.and_eq_true] at missing
      rw [mutes, Option.isNone_iff_eq_none.1 missing.1]
      rfl
  · refine ⟨((map.touch (muteKey receiverIndex)).read (muteKey clientIndex)
      (muteKey receiverIndex)).2, ?_, (mutes_read ..).trans touched⟩
    rw [← touched, ← read_fst]

end MuteMap

/-! ## What happens -/

/-- What has happened: calls of the interface, a voice that was sent to a client, what else
the engine wrote for one, and that his datagram went out. -/
inductive Deed where
  | mute (clientIndex receiverIndex : Nat)
  | unmute (clientIndex receiverIndex : Nat)
  | mapEnd
  | voice (i : Nat) (sender : UInt8) (sendBuf : List UInt8)
  | other (i : Nat) (bytes : List UInt8)
  | flush (i : Nat)

/-- The last call about a client and a key, since the map began, muted. -/
def silences (i key : UInt8) : List Deed → Bool
  | [] => false
  | .mute clientIndex receiverIndex :: before =>
      if i = muteKey clientIndex ∧ key = muteKey receiverIndex then true
      else silences i key before
  | .unmute clientIndex receiverIndex :: before =>
      if i = muteKey clientIndex ∧ key = muteKey receiverIndex then false
      else silences i key before
  | .mapEnd :: _ => false
  | .voice .. :: before | .other .. :: before | .flush .. :: before => silences i key before

/-- What has been written for a client since his datagram went out. -/
def written (i : Nat) : List Deed → List UInt8
  | [] => []
  | .voice j sender sendBuf :: before =>
      if j = i then written i before ++ voiceMessage sender.toNat sendBuf else written i before
  | .other j bytes :: before => if j = i then written i before ++ bytes else written i before
  | .flush j :: before => if j = i then [] else written i before
  | .mute .. :: before | .unmute .. :: before | .mapEnd :: before => written i before

/-- `g_mute_map`, the datagrams with their `maxsize`, and what has happened, the last first. -/
structure Post where
  maxsize : Nat → Nat
  muteMap : MuteMap
  datagrams : Nat → List UInt8
  deeds : List Deed

namespace Post

/-- A message for a client. -/
def put (i : Nat) (bytes : List UInt8) (deed : Deed) (x : Post) : Post :=
  { x with
    datagrams := Function.update x.datagrams i (x.datagrams i ++ bytes)
    deeds := deed :: x.deeds }

/-- The round of `SV_ParseVoiceData_emu` for a client. -/
def offer (sender : Nat) (buffers : Target → List UInt8) (x : Post) (i : Nat) (seat : Listener) :
    Post :=
  if !seat.inStream then x
  else if !seat.active || !seat.connected then x
  else
    let asked := x.muteMap.asks (.ofNat i) (.ofNat sender)
    let x := { x with muteMap := asked.2 }
    if asked.1 then x
    else match seat.codecType.target with
      | none => x
      | some target =>
          let sendBuf := buffers target
          if sendBuf.length = 0 then x
          else if i = sender && !seat.loopback then x
          else if (x.datagrams i).length + sendBuf.length + 4 < x.maxsize i then
            x.put i (voiceMessage sender sendBuf) (.voice i (.ofNat sender) sendBuf)
          else x

/-- The packet of a client, who may be muted, to the seats of the server. -/
def voice (sender : Nat) (isMuted : Bool) (answer : Target → Compressed) (seats : List Listener)
    (x : Post) : Post :=
  let transcoded := transcodeTargets answer targets fun _ => []
  if transcoded.1.isSome || isMuted then x
  else seats.zipIdx.foldl (fun x seat => x.offer sender transcoded.2 seat.2 seat.1) x

/-- What `StartFrame_PostHook` does with the bytes of a sound for a client. -/
def sound (i : Nat) (senderClientIndex : UInt8) (sendBuf : List UInt8) (x : Post) : Post :=
  let asked := x.muteMap.asks (.ofNat i) senderClientIndex
  let x := { x with muteMap := asked.2 }
  if asked.1 then x
  else if sendBuf.length = 0 then x
  else if (x.datagrams i).length + sendBuf.length + 4 < x.maxsize i then
    x.put i (voiceMessage senderClientIndex.toNat sendBuf) (.voice i senderClientIndex sendBuf)
  else x

end Post

/-! ## Runs -/

inductive Errand where
  | mute (clientIndex receiverIndex : Nat)
  | unmute (clientIndex receiverIndex : Nat)
  | isMuted (clientIndex receiverIndex : Nat) (sameEnd : Bool)
  | voice (sender : Nat) (isMuted : Bool) (answer : Target → Compressed) (seats : List Listener)
  | sound (i : Nat) (senderClientIndex : UInt8) (sendBuf : List UInt8)
  | other (i : Nat) (bytes : List UInt8)
  | flush (i : Nat)
  | deactivate

/-- The sizes of `transCodedBuf` and `voiceBuff` bound what is compressed, and what the engine
writes by itself fits. -/
def Post.step (maxClients : Nat) (x : Post) : Errand → Option Post
  | .mute clientIndex receiverIndex =>
      (x.muteMap.muteClient maxClients clientIndex receiverIndex).map fun map =>
        { x with muteMap := map, deeds := .mute clientIndex receiverIndex :: x.deeds }
  | .unmute clientIndex receiverIndex =>
      (x.muteMap.unmuteClient maxClients clientIndex receiverIndex).map fun map =>
        { x with muteMap := map, deeds := .unmute clientIndex receiverIndex :: x.deeds }
  | .isMuted clientIndex receiverIndex sameEnd =>
      (x.muteMap.isClientMuted maxClients clientIndex receiverIndex sameEnd).map fun answer =>
        { x with muteMap := answer.2 }
  | .voice sender isMuted answer seats =>
      if seats.length = maxClients ∧ ∀ target ∈ targets,
          (answer target).written.result ≤ bufferSize then
        some (x.voice sender isMuted answer seats)
      else none
  | .sound i senderClientIndex sendBuf =>
      if sendBuf.length ≤ 4096 then some (x.sound i senderClientIndex sendBuf) else none
  | .other i bytes =>
      if (x.datagrams i).length + bytes.length ≤ x.maxsize i then
        some (x.put i bytes (.other i bytes))
      else none
  | .flush i =>
      some { x with datagrams := Function.update x.datagrams i [], deeds := .flush i :: x.deeds }
  | .deactivate => some { x with muteMap := fun _ => none, deeds := .mapEnd :: x.deeds }

def traffic (maxClients : Nat) : Machine Post Errand where
  init x := x.muteMap = (fun _ => none) ∧ x.datagrams = (fun _ => []) ∧ x.deeds = []
  step := Post.step maxClients

/-! ## A voice message is read back -/

/-- How a client reads `svc_voicedata`: who speaks, the bytes and what is behind them. -/
def readVoice : List UInt8 → Option (UInt8 × List UInt8 × List UInt8)
  | 53 :: sender :: rest =>
      let len := Bytes.toNat (rest.take 2)
      if 2 + len ≤ rest.length then
        some (sender, (rest.drop 2).take len, rest.drop (2 + len))
      else none
  | _ => none

theorem readVoice_append {sendBuf : List UInt8} (short : sendBuf.length < 2 ^ 16) (sender : UInt8)
    (behind : List UInt8) :
    readVoice (voiceMessage sender.toNat sendBuf ++ behind) = some (sender, sendBuf, behind) := by
  have length : (Bytes.ofNat 2 sendBuf.length).length = 2 := Bytes.length_ofNat 2 _
  have isLen : Bytes.toNat ((Bytes.ofNat 2 sendBuf.length ++ (sendBuf ++ behind)).take 2) =
      sendBuf.length := by
    rw [List.take_left' length, Bytes.toNat_ofNat_of_lt short]
  have rest : (Bytes.ofNat 2 sendBuf.length ++ (sendBuf ++ behind)).drop 2 = sendBuf ++ behind :=
    List.drop_left' length
  have fits : 2 + sendBuf.length ≤
      (Bytes.ofNat 2 sendBuf.length ++ (sendBuf ++ behind)).length := by
    rw [List.length_append, length, List.length_append]
    omega
  show readVoice (53 :: UInt8.ofNat sender.toNat ::
    ((Bytes.ofNat 2 sendBuf.length ++ sendBuf) ++ behind)) = _
  rw [List.append_assoc, readVoice]
  simp only [isLen, if_pos fits, rest, List.take_left, ← List.drop_drop, List.drop_left,
    UInt8.ofNat_toNat]

/-! ## The record says what there is -/

/-- Each voice was sent to one who had not muted it, and it is one that a short can measure. -/
def Unmuted : List Deed → Prop
  | [] => True
  | .voice i sender sendBuf :: before =>
      (silences (.ofNat i) sender before = false ∧ silences (.ofNat i) allKey before = false ∧
        sendBuf.length < 2 ^ 16) ∧ Unmuted before
  | .mute .. :: before | .unmute .. :: before | .mapEnd :: before | .other .. :: before
  | .flush .. :: before => Unmuted before

/-- What the record says is so. -/
structure Post.Kept (x : Post) : Prop where
  mutes : ∀ i key, x.muteMap.mutes i key = silences i key x.deeds
  datagram : ∀ i, x.datagrams i = written i x.deeds
  fits : ∀ i, (x.datagrams i).length ≤ x.maxsize i
  heard : Unmuted x.deeds

variable {x x' : Post} {maxClients : Nat}

theorem Post.Kept.setMap (kept : x.Kept) {map : MuteMap} (same : map.mutes = x.muteMap.mutes) :
    Post.Kept { x with muteMap := map } where
  mutes i key := by
    show map.mutes i key = _
    rw [same]
    exact kept.mutes i key
  datagram := kept.datagram
  fits := kept.fits
  heard := kept.heard

/-- A message that fits is written. -/
theorem Post.Kept.put (kept : x.Kept) {i : Nat} {bytes : List UInt8} {deed : Deed}
    (silent : ∀ j key, silences j key (deed :: x.deeds) = silences j key x.deeds)
    (isWritten : ∀ j, written j (deed :: x.deeds) =
      if i = j then written j x.deeds ++ bytes else written j x.deeds)
    (fits : (x.datagrams i).length + bytes.length ≤ x.maxsize i)
    (heard : Unmuted (deed :: x.deeds)) : (x.put i bytes deed).Kept where
  mutes j key := (kept.mutes j key).trans (silent j key).symm
  datagram j := by
    show Function.update x.datagrams i (x.datagrams i ++ bytes) j = written j (deed :: x.deeds)
    rw [isWritten, Function.update_apply]
    split
    · next own => rw [if_pos own.symm, own, kept.datagram]
    · next other => rw [if_neg fun own => other own.symm, kept.datagram]
  fits j := by
    show (Function.update x.datagrams i (x.datagrams i ++ bytes) j).length ≤ x.maxsize j
    rw [Function.update_apply]
    split
    · next own =>
        rw [List.length_append, own]
        exact fits
    · exact kept.fits j
  heard := heard

theorem length_voiceMessage (sender : Nat) (sendBuf : List UInt8) :
    (voiceMessage sender sendBuf).length = sendBuf.length + 4 := by
  simp only [voiceMessage, List.length_cons, List.length_append, Bytes.length_ofNat]
  omega

theorem voiceMessage_ofNat (sender : Nat) (sendBuf : List UInt8) :
    voiceMessage (UInt8.ofNat sender).toNat sendBuf = voiceMessage sender sendBuf := by
  rw [voiceMessage, UInt8.ofNat_toNat]
  rfl

/-- A voice for one who has not muted it. -/
theorem Post.Kept.send (kept : x.Kept) {i : Nat} {sender : UInt8} {sendBuf : List UInt8}
    (unmuted : (x.muteMap.mutes (.ofNat i) sender || x.muteMap.mutes (.ofNat i) allKey) = false)
    (short : sendBuf.length < 2 ^ 16)
    (room : (x.datagrams i).length + sendBuf.length + 4 < x.maxsize i) :
    (x.put i (voiceMessage sender.toNat sendBuf) (.voice i sender sendBuf)).Kept := by
  obtain ⟨own, all⟩ := Bool.or_eq_false_iff.1 unmuted
  rw [kept.mutes] at own all
  refine kept.put (fun _ _ => rfl) (fun _ => rfl) ?_ ⟨⟨own, all, short⟩, kept.heard⟩
  rw [length_voiceMessage]
  omega

theorem Post.Kept.offer (kept : x.Kept) {sender : Nat} {buffers : Target → List UInt8}
    (short : ∀ target, (buffers target).length < 2 ^ 16) (i : Nat) (seat : Listener) :
    (x.offer sender buffers i seat).Kept := by
  unfold Post.offer
  split
  · exact kept
  split
  · exact kept
  have asked := kept.setMap (MuteMap.mutes_asks x.muteMap (.ofNat i) (.ofNat sender))
  simp only
  split
  · exact asked
  next unmuted =>
  split
  · exact asked
  next target _ =>
  split
  · exact asked
  split
  · exact asked
  split
  · next room =>
      rw [← voiceMessage_ofNat]
      exact asked.send (MuteMap.unmuted_of_asks unmuted) (short target) room
  · exact asked

/-- What the targets gave fits the buffer that they write to. -/
theorem short_of_served {answer : Target → Compressed}
    (bounded : ∀ target ∈ targets, (answer target).written.result ≤ bufferSize)
    (served : (transcodeTargets answer targets fun _ => []).1 = none) (target : Target) :
    ((transcodeTargets answer targets fun _ => []).2 target).length < 2 ^ 16 := by
  have produced : ∀ target ∈ targets, (answer target).produced = true := by
    intro target member
    rw [transcodeTargets_fst, List.find?_eq_none] at served
    simpa using served target member
  rw [transcodeTargets_snd (by decide) produced, List.nil_append, if_pos (mem_targets target),
    Compressed.out_length]
  have bound := bounded target (mem_targets target)
  simp only [bufferSize] at bound
  omega

theorem Post.Kept.voice (kept : x.Kept) {sender : Nat} {isMuted : Bool}
    {answer : Target → Compressed} {seats : List Listener}
    (bounded : ∀ target ∈ targets, (answer target).written.result ≤ bufferSize) :
    (x.voice sender isMuted answer seats).Kept := by
  unfold Post.voice
  simp only
  split
  · exact kept
  next sent =>
  rw [Bool.or_eq_true, not_or] at sent
  have short := short_of_served bounded (Option.not_isSome_iff_eq_none.1 sent.1)
  generalize (transcodeTargets answer targets fun _ => []).2 = buffers at short
  generalize seats.zipIdx = rounds
  induction rounds generalizing x with
  | nil => exact kept
  | cons round rest ih => exact ih (kept.offer short round.2 round.1)

theorem Post.Kept.sound (kept : x.Kept) {i : Nat} {senderClientIndex : UInt8}
    {sendBuf : List UInt8} (short : sendBuf.length ≤ 4096) :
    (x.sound i senderClientIndex sendBuf).Kept := by
  unfold Post.sound
  have asked := kept.setMap (MuteMap.mutes_asks x.muteMap (.ofNat i) senderClientIndex)
  simp only
  split
  · exact asked
  next unmuted =>
  split
  · exact asked
  split
  · next room =>
      exact asked.send (MuteMap.unmuted_of_asks unmuted) (Nat.lt_of_le_of_lt short (by decide)) room
  · exact asked

/-! ## The loop sends what `sendVoice` sends -/

/-- The seat with what the `Post` has for it. -/
def Post.seat (x : Post) (i : Nat) (seat : Listener) : Listener :=
  { seat with
    mutes := x.muteMap.mutes (.ofNat i)
    datagram := x.datagrams i
    maxsize := x.maxsize i }

section Loop

variable {sender : Nat} {buffers : Target → List UInt8}

/-- A round changes what is read of the seats in no other way than `Listener.offer`. -/
theorem Post.offer_spec (x : Post) (i : Nat) (seat : Listener) :
    (x.offer sender buffers i seat).muteMap.mutes = x.muteMap.mutes ∧
      (x.offer sender buffers i seat).maxsize = x.maxsize ∧
      (x.offer sender buffers i seat).datagrams =
        Function.update x.datagrams i ((x.seat i seat).offer sender buffers i).datagram := by
  have same : Function.update x.datagrams i (x.datagrams i) = x.datagrams :=
    Function.update_eq_self i x.datagrams
  have asked := MuteMap.mutes_asks x.muteMap (.ofNat i) (.ofNat sender)
  have muting : (x.muteMap.asks (.ofNat i) (.ofNat sender)).1 =
      (x.seat i seat).muting sender := MuteMap.asks_fst ..
  unfold Post.offer Listener.offer
  simp only [muting]
  generalize (x.seat i seat).muting sender = muted
  -- The rounds ask the same of the seat, one after the other.
  by_cases inStream : (!(x.seat i seat).inStream) = true
  · rw [if_pos inStream, if_pos (show (!seat.inStream) = true from inStream)]
    exact ⟨rfl, rfl, same.symm⟩
  rw [if_neg inStream, if_neg (show ¬ (!seat.inStream) = true from inStream)]
  by_cases away : (!(x.seat i seat).active || !(x.seat i seat).connected) = true
  · rw [if_pos away, if_pos (show (!seat.active || !seat.connected) = true from away)]
    exact ⟨rfl, rfl, same.symm⟩
  rw [if_neg away, if_neg (show ¬ (!seat.active || !seat.connected) = true from away)]
  cases muted with
  | true => exact ⟨asked, rfl, same.symm⟩
  | false =>
      rw [if_neg Bool.false_ne_true, if_neg Bool.false_ne_true]
      have codec : (x.seat i seat).codecType.target = seat.codecType.target := rfl
      rw [codec]
      cases seat.codecType.target with
      | none => exact ⟨asked, rfl, same.symm⟩
      | some target =>
          simp only
          by_cases empty : (buffers target).length = 0
          · rw [if_pos empty, if_pos empty]
            exact ⟨asked, rfl, same.symm⟩
          rw [if_neg empty, if_neg empty]
          by_cases own : (decide (i = sender) && !(x.seat i seat).loopback) = true
          · rw [if_pos own, if_pos (show (decide (i = sender) && !seat.loopback) = true from own)]
            exact ⟨asked, rfl, same.symm⟩
          rw [if_neg own, if_neg (show ¬ (decide (i = sender) && !seat.loopback) = true from own)]
          by_cases room : (x.datagrams i).length + (buffers target).length + 4 < x.maxsize i
          · rw [if_pos room, if_pos (show (x.seat i seat).datagram.length +
              (buffers target).length + 4 < (x.seat i seat).maxsize from room)]
            exact ⟨asked, rfl, rfl⟩
          · rw [if_neg room, if_neg (show ¬ (x.seat i seat).datagram.length +
              (buffers target).length + 4 < (x.seat i seat).maxsize from room)]
            exact ⟨asked, rfl, same.symm⟩

theorem Post.seat_offer (x : Post) {i j : Nat} (other : j ≠ i) (seat later : Listener) :
    (x.offer sender buffers i seat).seat j later = x.seat j later := by
  obtain ⟨mutes, maxsize, datagrams⟩ := @Post.offer_spec sender buffers x i seat
  simp only [Post.seat, mutes, maxsize, datagrams, Function.update_of_ne other]

/-- Each seat gets what `Listener.offer` gives it. -/
theorem datagrams_rounds (seats : List Listener) (k : Nat) (x : Post) (j : Nat) :
    ((seats.zipIdx k).foldl (fun x seat => x.offer sender buffers seat.2 seat.1) x).datagrams j =
      if k ≤ j then
        ((seats[j - k]?).map fun seat =>
          ((x.seat j seat).offer sender buffers j).datagram).getD (x.datagrams j)
      else x.datagrams j := by
  induction seats generalizing k x with
  | nil => simp
  | cons seat rest ih =>
      obtain ⟨mutes, maxsize, datagrams⟩ := @Post.offer_spec sender buffers x k seat
      rw [List.zipIdx_cons, List.foldl_cons, ih]
      rcases Nat.lt_trichotomy j k with below | rfl | above
      · rw [if_neg (by omega), if_neg (by omega), datagrams, Function.update_of_ne (by omega)]
      · rw [if_neg (by omega), if_pos (Nat.le_refl _), datagrams, Function.update_self,
          Nat.sub_self]
        rfl
      · obtain ⟨n, same⟩ : ∃ n, j - k = n + 1 := ⟨j - k - 1, by omega⟩
        have less : j - (k + 1) = n := by omega
        rw [if_pos (by omega), if_pos (by omega), same, less, List.getElem?_cons_succ, datagrams,
          Function.update_of_ne (by omega)]
        simp only [x.seat_offer (by omega : j ≠ k)]

/-- The loop, with the rows that it makes, sends what `sendVoice` sends. -/
theorem datagrams_voice (x : Post) (isMuted : Bool) (answer : Target → Compressed)
    (seats : List Listener) (j : Nat) :
    (x.voice sender isMuted answer seats).datagrams j =
      (((sendVoice sender isMuted answer (seats.mapIdx x.seat)).2[j]?).map
        Listener.datagram).getD (x.datagrams j) := by
  unfold Post.voice sendVoice
  generalize transcodeTargets answer targets (fun _ => []) = transcoded
  obtain ⟨ended, buffers⟩ := transcoded
  simp only
  split
  · rw [List.getElem?_mapIdx]
    cases seats[j]? <;> rfl
  · rw [datagrams_rounds, if_pos (Nat.zero_le j), Nat.sub_zero, List.getElem?_mapIdx,
      List.getElem?_mapIdx]
    cases seats[j]? <;> rfl

end Loop

/-- A call that mutes or unmutes. -/
theorem Post.Kept.assign (kept : x.Kept) {clientIndex receiverIndex : Nat} {muted : Bool}
    {deed : Deed}
    (isSilence : ∀ i key, silences i key (deed :: x.deeds) =
      if i = muteKey clientIndex ∧ key = muteKey receiverIndex then muted
      else silences i key x.deeds)
    (unwritten : ∀ i, written i (deed :: x.deeds) = written i x.deeds)
    (heard : Unmuted (deed :: x.deeds)) :
    Post.Kept { x with
      muteMap := x.muteMap.assign (muteKey clientIndex) (muteKey receiverIndex) muted
      deeds := deed :: x.deeds } where
  mutes i key := by
    show (x.muteMap.assign _ _ muted).mutes i key = silences i key (deed :: x.deeds)
    rw [isSilence, MuteMap.mutes_assign, kept.mutes]
  datagram i := (kept.datagram i).trans (unwritten i).symm
  fits := kept.fits
  heard := heard

theorem Post.Kept.step (kept : x.Kept) {errand : Errand}
    (moved : x.step maxClients errand = some x') : x'.Kept := by
  cases errand with
  | mute clientIndex receiverIndex =>
      simp only [Post.step, MuteMap.muteClient] at moved
      split at moved
      · cases moved
        exact kept.assign (fun _ _ => rfl) (fun _ => rfl) kept.heard
      · cases moved
  | unmute clientIndex receiverIndex =>
      simp only [Post.step, MuteMap.unmuteClient] at moved
      split at moved
      · cases moved
        exact kept.assign (fun _ _ => rfl) (fun _ => rfl) kept.heard
      · cases moved
  | isMuted clientIndex receiverIndex sameEnd =>
      by_cases valid : isValidIndex maxClients clientIndex = true
      · obtain ⟨map, answer, same⟩ :=
          MuteMap.isClientMuted_eq valid receiverIndex sameEnd x.muteMap
        simp only [Post.step, answer] at moved
        cases moved
        exact kept.setMap same
      · simp only [Post.step, MuteMap.isClientMuted, if_neg valid] at moved
        cases moved
  | voice sender isMuted answer seats =>
      simp only [Post.step] at moved
      split at moved
      · next allowed =>
          cases moved
          exact kept.voice allowed.2
      · cases moved
  | sound i senderClientIndex sendBuf =>
      simp only [Post.step] at moved
      split at moved
      · next short =>
          cases moved
          exact kept.sound short
      · cases moved
  | other i bytes =>
      simp only [Post.step] at moved
      split at moved
      · next fits =>
          cases moved
          exact kept.put (fun _ _ => rfl) (fun _ => rfl) fits kept.heard
      · cases moved
  | flush i =>
      cases moved
      refine ⟨kept.mutes, fun j => ?_, fun j => ?_, kept.heard⟩
      · show Function.update x.datagrams i [] j = if i = j then [] else written j x.deeds
        rw [Function.update_apply, kept.datagram]
        split
        · next own => rw [if_pos own.symm]
        · next other => rw [if_neg fun own => other own.symm]
      · show (Function.update x.datagrams i [] j).length ≤ x.maxsize j
        rw [Function.update_apply]
        split
        · exact Nat.zero_le _
        · exact kept.fits j
  | deactivate =>
      cases moved
      exact ⟨fun _ _ => rfl, kept.datagram, kept.fits, kept.heard⟩

theorem kept_of_reachable (reached : (traffic maxClients).Reachable x) : x.Kept := by
  refine Machine.Reaches.invariant (I := Post.Kept) (fun x start => ?_)
    (fun _ _ _ _ kept _ moved => kept.step moved) reached
  obtain ⟨noRow, noBytes, noDeed⟩ := start
  refine ⟨fun i key => ?_, fun i => ?_, fun i => ?_, ?_⟩
  · rw [noRow, noDeed]
    rfl
  · rw [noBytes, noDeed]
    rfl
  · rw [noBytes]
    exact Nat.zero_le _
  · rw [noDeed]
    trivial

theorem Unmuted.before {i : Nat} {sender : UInt8} {sendBuf : List UInt8} {after before : List Deed}
    (heard : Unmuted (after ++ .voice i sender sendBuf :: before)) :
    silences (.ofNat i) sender before = false ∧ silences (.ofNat i) allKey before = false ∧
      sendBuf.length < 2 ^ 16 := by
  induction after with
  | nil => exact heard.1
  | cons deed after ih =>
      cases deed with
      | voice j other bytes => exact ih heard.2
      | _ => exact ih heard

/-- **Voices go where they may.**  In every run of calls, packets, sounds and map ends, each
datagram is what has been written since it went out last, and has room; a voice was sent to
no client whose last calls muted its sender or all, and a client reads it back from the
datagram as it was sent; and `IsClientMuted` answers with the last call, whatever the ends
of the rows are. -/
theorem traffic_sound (reached : (traffic maxClients).Reachable x) :
    (∀ i, x.datagrams i = written i x.deeds ∧ (x.datagrams i).length ≤ x.maxsize i) ∧
      (∀ after i sender sendBuf before, x.deeds = after ++ .voice i sender sendBuf :: before →
        silences (.ofNat i) sender before = false ∧ silences (.ofNat i) allKey before = false ∧
          ∀ behind, readVoice (voiceMessage sender.toNat sendBuf ++ behind) =
            some (sender, sendBuf, behind)) ∧
      ∀ clientIndex receiverIndex sameEnd, isValidIndex maxClients clientIndex = true →
        (x.muteMap.isClientMuted maxClients clientIndex receiverIndex sameEnd).map Prod.fst =
          some (silences (muteKey clientIndex) (muteKey receiverIndex) x.deeds) := by
  have kept := kept_of_reachable reached
  refine ⟨fun i => ⟨kept.datagram i, kept.fits i⟩, fun after i sender sendBuf before same => ?_,
    fun clientIndex receiverIndex sameEnd valid => ?_⟩
  · have heard := kept.heard
    rw [same] at heard
    obtain ⟨own, all, short⟩ := heard.before
    exact ⟨own, all, readVoice_append short sender⟩
  · obtain ⟨map, answer, _⟩ := MuteMap.isClientMuted_eq valid receiverIndex sameEnd x.muteMap
    rw [answer, Option.map_some, kept.mutes]

/-! ## A client that mutes another for a while -/

/-- The second client mutes the first one and lets it be heard again. -/
def muted : List Errand :=
  [.mute 2 1, .sound 1 0 [7], .sound 0 0 [7], .isMuted 2 1 false, .unmute 2 1, .sound 1 0 [9],
    .flush 0]

def Post.empty : Post := ⟨fun _ => 4000, fun _ => none, fun _ => [], []⟩

theorem traffic_sound_muted : ∃ x : Post,
    (x.datagrams 0 = [] ∧ x.datagrams 1 = [53, 0, 1, 0, 9]) ∧
      (∀ i, x.datagrams i = written i x.deeds ∧ (x.datagrams i).length ≤ x.maxsize i) ∧
      (∀ after i sender sendBuf before, x.deeds = after ++ .voice i sender sendBuf :: before →
        silences (.ofNat i) sender before = false ∧ silences (.ofNat i) allKey before = false ∧
          ∀ behind, readVoice (voiceMessage sender.toNat sendBuf ++ behind) =
            some (sender, sendBuf, behind)) ∧
      ∀ clientIndex receiverIndex sameEnd, isValidIndex 2 clientIndex = true →
        (x.muteMap.isClientMuted 2 clientIndex receiverIndex sameEnd).map Prod.fst =
          some (silences (muteKey clientIndex) (muteKey receiverIndex) x.deeds) := by
  have ends : ((traffic 2).exec .empty muted).map
      (fun x => x.datagrams 0 == [] && x.datagrams 1 == [53, 0, 1, 0, 9]) = some true := by
    decide +kernel
  obtain ⟨x, reached, shows⟩ :=
    Machine.exists_reachable (M := traffic 2) ⟨rfl, rfl, rfl⟩ ends
  simp only [Bool.and_eq_true, beq_iff_eq] at shows
  exact ⟨x, shows, traffic_sound reached⟩

end Refsapi.Revoice
