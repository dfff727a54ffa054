/-
# Revoice.Fallback -- when a player is switched to Speex

`SV_ParseVoiceData_emu` counts the packets of a client that could not be decoded, and at
`REV_DECODE_FAIL_LIMIT` of them it switches the client to Speex.  A `Series` is a slot with what
`TranscodeVoice` made of the packets of the connection, and the counter is to tell how many at its
end could not be decoded.

A packet that is decoded and cannot be encoded breaks such a series, and the counter stays where it
is.  So the counter tells the series along the runs in which that comes only while it is zero
(`Unbroken`), and there a switch comes after a real series (`fallback_after_series`).
-/
import Refsapi.Lib.Transition
import Refsapi.Revoice.OpusReady

namespace Refsapi.Revoice

set_option autoImplicit false

variable {L : Libs}

/-! ## The packets of a connection -/

/-- How `TranscodeVoice` ends for the packet of a call, when it is passed one. -/
def Slot.verdict (s : Slot L) : Input → Option Transcoded
  | .packet _ voiceEnable packet =>
      if s.hears voiceEnable packet then
        (transcodeVoice L s.player.codecType (packet.readBuf s.player.recvBuff) packet.originalBuf
          s.player.codecs).map Prod.fst
      else none
  | _ => none

/-- The call ends a connection, or begins one. -/
def Slot.renews (s : Slot L) : Input → Bool
  | .drop | .connect _ => true
  | .packet _ _ packet => !s.player.voiceBusy && 8192 < packet.dataLength.toNat
  | _ => false

/-- A slot, with how `TranscodeVoice` ended for the packets of the connection. -/
structure Series (L : Libs) where
  slot : Slot L
  passed : List Transcoded

def Series.step (s : Series L) (i : Input) : Option (Series L) := do
  let (_, slot) ← s.slot.step L i
  return ⟨slot, if s.slot.renews i then [] else s.passed ++ (s.slot.verdict i).toList⟩

variable (L) in
def voiceSeries : Machine (Series L) Input where
  init s := s = ⟨Slot.new L, []⟩
  step := Series.step

/-- `SV_ParseVoiceData_emu` switches the player to Speex. -/
def Switches (s s' : Slot L) : Input → Prop
  | .packet .. => s.player.codecType ≠ .speex ∧ s'.player.codecType = .speex
  | _ => False

/-- The last packets of the connection, as many as the limit, could not be decoded. -/
def EndsFailing (passed : List Transcoded) : Prop :=
  List.replicate decodeFailLimit .decode <:+ passed

instance (passed : List Transcoded) : Decidable (EndsFailing passed) :=
  inferInstanceAs (Decidable (_ <:+ _))

/-- No packet that is decoded fails to be encoded while failures are counted. -/
def Unbroken (s : Series L) (i : Input) : Prop :=
  s.slot.verdict i = some .codec → s.slot.player.decodeFails = 0

instance (s : Series L) (i : Input) : Decidable (Unbroken s i) :=
  inferInstanceAs (Decidable (_ → _))

/-! ## What a call does to the counter -/

/-- What a packet is for the counter and the codec of its player. -/
inductive Counts (s s' : Slot L) (i : Input) : Prop where
  | away : s.renews i = false → s.verdict i = none →
      s'.player.decodeFails = s.player.decodeFails → s'.player.codecType = s.player.codecType →
      Counts s s' i
  | renewed : s.renews i = true → s'.player.decodeFails = 0 → s'.player.codecType = .none →
      Counts s s' i
  | passed (player : Player L) (result : Transcoded) : s.renews i = false →
      s.verdict i = some result → player.decodeFails = s.player.decodeFails →
      player.codecType = s.player.codecType → s'.player = (player.transcoded result).2 →
      Counts s s' i

theorem counts_of_transcode {buf : List Int16} {s s' : Slot L} {out : List Output}
    (coded : s.player.codecType ≠ .none) (moved : s.transcode L buf = some (out, s')) :
    ∃ (player : Player L) (result : Transcoded),
      (transcodeVoice L s.player.codecType s.player.recvBuff buf s.player.codecs).map Prod.fst =
        some result ∧
      player.decodeFails = s.player.decodeFails ∧ player.codecType = s.player.codecType ∧
      s'.player = (player.transcoded result).2 := by
  rw [Slot.transcode, if_neg coded] at moved
  obtain ⟨⟨result, blocks, codecs⟩, run, ends⟩ := Option.bind_eq_some_iff.1 moved
  cases ends
  exact ⟨{ s.player with codecs }, result, by rw [run]; rfl, rfl, rfl, rfl⟩

section Packets

variable {now : Int} {voiceEnable : Bool} {packet : Packet} {s s' : Slot L} {out : List Output}

/-- A packet that gets through is transcoded. -/
theorem parse_of_heard (heard : s.hears voiceEnable packet = true) :
    s.player.codecType ≠ .none ∧ s.renews (.packet now voiceEnable packet) = false ∧
      s.parseVoiceData L now voiceEnable packet =
        ((s.received packet).speak now).transcode L packet.originalBuf := by
  simp only [Slot.hears, Bool.and_eq_true, Bool.not_eq_true', decide_eq_true_eq, bne_iff_ne,
    ne_eq] at heard
  obtain ⟨⟨⟨⟨idle, small⟩, on⟩, free⟩, coded⟩ := heard
  refine ⟨coded, ?_, ?_⟩
  · simp [Slot.renews, small]
  · simp [Slot.parseVoiceData, idle, small, on, free]

/-- A packet that does not get through drops the client, or leaves the counter and the codec. -/
theorem parse_of_unheard (unheard : s.hears voiceEnable packet = false)
    (moved : s.parseVoiceData L now voiceEnable packet = some (out, s')) :
    (s.renews (.packet now voiceEnable packet) = true ∧ s' = s.drop) ∨
      (s.renews (.packet now voiceEnable packet) = false ∧
        s'.player.decodeFails = s.player.decodeFails ∧
        s'.player.codecType = s.player.codecType) := by
  rw [Slot.parseVoiceData] at moved
  split at moved
  · next busy =>
      cases moved
      exact .inr ⟨by simp [Slot.renews, busy], rfl, rfl⟩
  · next idle =>
      split at moved
      · next big =>
          cases moved
          exact .inl ⟨by simp [Slot.renews, idle, big], rfl⟩
      · next small =>
          have stays : s.renews (.packet now voiceEnable packet) = false := by
            simp [Slot.renews, Nat.le_of_not_lt small]
          split at moved
          · cases moved
            exact .inr ⟨stays, rfl, rfl⟩
          · next on =>
              split at moved
              · cases moved
                exact .inr ⟨stays, rfl, rfl⟩
              · next free =>
                  have on : voiceEnable = true := by simpa using on
                  have none : s.player.codecType = .none := by
                    simpa [Slot.hears, idle, Nat.le_of_not_lt small, on, free] using unheard
                  have same : ((s.received packet).speak now).transcode L packet.originalBuf =
                      some ([.fate .noCodec], (s.received packet).speak now) := if_pos none
                  rw [same] at moved
                  cases moved
                  exact .inr ⟨stays, rfl, rfl⟩

theorem counts_of_parse (moved : s.parseVoiceData L now voiceEnable packet = some (out, s')) :
    Counts s s' (.packet now voiceEnable packet) := by
  cases through : s.hears voiceEnable packet with
  | false =>
      rcases parse_of_unheard through moved with ⟨renews, rfl⟩ | ⟨stays, fails, codec⟩
      · exact .renewed renews rfl rfl
      · refine .away stays ?_ fails codec
        rw [Slot.verdict, through]
        rfl
  | true =>
      obtain ⟨coded, stays, same⟩ := (parse_of_heard through :
        _ ∧ s.renews (.packet now voiceEnable packet) = false ∧ _)
      rw [same] at moved
      have coded : ((s.received packet).speak now).player.codecType ≠ .none := coded
      obtain ⟨player, result, run, fails, codec, ends⟩ := counts_of_transcode coded moved
      refine .passed player result stays ?_ fails codec ends
      rw [Slot.verdict, through]
      exact run

end Packets

/-- A call that brings no packet leaves the counter, or begins it again. -/
theorem fails_of_step {s s' : Slot L} {i : Input} {out : List Output}
    (moved : s.step L i = some (out, s')) (other : ∀ now voiceEnable packet,
      i ≠ .packet now voiceEnable packet) :
    s.verdict i = none ∧ s'.player.decodeFails =
      if s.renews i then 0 else s.player.decodeFails := by
  have called := called_of_step moved other
  generalize s'.player = after at called ⊢
  cases called with
  | drop => exact ⟨rfl, rfl⟩
  | sets _ _ _ _ _ _ sets =>
      cases i with
      | packet | drop | connect | updateBitrate => cases sets
      | _ => exact ⟨rfl, rfl⟩
  | connect client =>
      refine ⟨rfl, ?_⟩
      simp only [Player.onConnected]
      repeat' split
      all_goals first | rfl | contradiction
  | updateBitrate bitRate =>
      refine ⟨rfl, ?_⟩
      simp only [Player.updateBitrate]
      split <;> rfl

/-! ## Series of failures -/

/-- The counter is under the limit between calls. -/
def Series.Under (s : Series L) : Prop := s.slot.player.decodeFails < decodeFailLimit

/-- The counter tells how many packets at the end could not be decoded. -/
def Series.Counted (s : Series L) : Prop :=
  List.replicate s.slot.player.decodeFails .decode <:+ s.passed

theorem failed_under (fails : Nat) (p : Player L) :
    (p.failed fails).decodeFails < decodeFailLimit := by
  rw [Player.failed]
  split
  · exact Nat.zero_lt_succ 7
  · next under => exact Nat.not_le.1 under

theorem transcoded_under (p : Player L) (result : Transcoded) :
    (p.transcoded result).2.decodeFails < decodeFailLimit := by
  cases result with
  | ok => exact Nat.zero_lt_succ 7
  | decode | codec => exact failed_under ..

/-- One more failure at the end. -/
theorem replicate_suffix {passed : List Transcoded} {n : Nat}
    (ends : List.replicate n .decode <:+ passed) :
    List.replicate (n + 1) .decode <:+ passed ++ [.decode] := by
  obtain ⟨earlier, rfl⟩ := ends
  refine ⟨earlier, ?_⟩
  rw [List.replicate_succ', List.append_assoc]

/-- What a packet that was passed does to a counted series. -/
theorem counted_transcoded {passed : List Transcoded} {p : Player L}
    (counted : List.replicate p.decodeFails .decode <:+ passed) {result : Transcoded}
    (unbroken : result = .codec → p.decodeFails = 0) :
    List.replicate (p.transcoded result).2.decodeFails .decode <:+ passed ++ [result] := by
  cases result with
  | ok => exact List.nil_suffix
  | decode =>
      simp only [Player.transcoded, Player.failed]
      split
      · exact List.nil_suffix
      · exact replicate_suffix counted
  | codec =>
      have zero := unbroken rfl
      simp only [Player.transcoded, Player.failed, zero]
      exact List.nil_suffix

/-- A packet that switches its player to Speex ends a series of failures. -/
theorem failing_of_switch {passed : List Transcoded} {p : Player L}
    (counted : List.replicate p.decodeFails .decode <:+ passed)
    (under : p.decodeFails < decodeFailLimit) {result : Transcoded}
    (unbroken : result = .codec → p.decodeFails = 0) (other : p.codecType ≠ .speex)
    (speex : (p.transcoded result).2.codecType = .speex) : EndsFailing (passed ++ [result]) := by
  cases result with
  | ok => exact absurd speex other
  | decode =>
      simp only [Player.transcoded, Player.failed] at speex
      split at speex
      · next full =>
          have last : p.decodeFails + 1 = decodeFailLimit := by omega
          rw [EndsFailing, ← last]
          exact replicate_suffix counted
      · exact absurd speex other
  | codec =>
      have zero := unbroken rfl
      simp only [Player.transcoded, Player.failed, zero] at speex
      exact absurd speex other

section Steps

variable {s s' : Series L} {i : Input}

theorem Series.step_spec (moved : s.step i = some s') :
    ∃ out, s.slot.step L i = some (out, s'.slot) ∧
      s'.passed = if s.slot.renews i then [] else s.passed ++ (s.slot.verdict i).toList := by
  obtain ⟨⟨out, slot⟩, called, ends⟩ := Option.bind_eq_some_iff.1 moved
  cases ends
  exact ⟨out, called, rfl⟩

/-- A packet, or a call that brings none. -/
theorem Input.packet_or (i : Input) :
    (∃ now voiceEnable packet, i = .packet now voiceEnable packet) ∨
      ∀ now voiceEnable packet, i ≠ .packet now voiceEnable packet := by
  cases i with
  | packet now voiceEnable packet => exact .inl ⟨now, voiceEnable, packet, rfl⟩
  | _ => exact .inr fun _ _ _ same => by cases same

theorem under_of_step (under : s.Under) (moved : s.step i = some s') : s'.Under := by
  obtain ⟨out, called, -⟩ := Series.step_spec moved
  rw [Series.Under]
  rcases i.packet_or with ⟨now, voiceEnable, packet, rfl⟩ | other
  · cases counts_of_parse called with
    | away _ _ fails _ =>
        rw [fails]
        exact under
    | renewed _ fails _ =>
        rw [fails]
        exact Nat.zero_lt_succ 7
    | passed player result _ _ _ _ ends =>
        rw [ends]
        exact transcoded_under player result
  · rw [(fails_of_step called other).2]
    split
    · exact Nat.zero_lt_succ 7
    · exact under

theorem counted_of_step (counted : s.Counted) (unbroken : Unbroken s i)
    (moved : s.step i = some s') : s'.Counted := by
  obtain ⟨out, called, passed⟩ := Series.step_spec moved
  rw [Series.Counted, passed]
  rcases i.packet_or with ⟨now, voiceEnable, packet, rfl⟩ | other
  · cases counts_of_parse called with
    | away stays away fails _ =>
        rw [stays, away, fails, if_neg Bool.false_ne_true, Option.toList_none, List.append_nil]
        exact counted
    | renewed renews fails _ =>
        rw [renews, fails]
        exact List.nil_suffix
    | passed player result stays verdict fails _ ends =>
        rw [stays, verdict, ends]
        rw [Unbroken, verdict, ← fails] at unbroken
        rw [Series.Counted, ← fails] at counted
        exact counted_transcoded counted fun codec => unbroken (congrArg some codec)
  · obtain ⟨away, fails⟩ := fails_of_step called other
    rw [away, fails]
    split
    · exact List.nil_suffix
    · rw [Option.toList_none, List.append_nil]
      exact counted

theorem failing_of_step (counted : s.Counted) (under : s.Under) (unbroken : Unbroken s i)
    (moved : s.step i = some s') (switches : Switches s.slot s'.slot i) :
    EndsFailing s'.passed := by
  obtain ⟨out, called, passed⟩ := Series.step_spec moved
  rw [passed]
  cases i with
  | packet now voiceEnable packet =>
      obtain ⟨other, speex⟩ := switches
      cases counts_of_parse called with
      | away _ _ _ codec => exact absurd (codec.symm.trans speex) other
      | renewed _ _ codec => exact absurd (codec.symm.trans speex) (by decide)
      | passed player result stays verdict fails codec ends =>
          rw [stays, verdict]
          rw [Unbroken, verdict, ← fails] at unbroken
          rw [Series.Counted, ← fails] at counted
          rw [ends] at speex
          rw [← codec] at other
          rw [Series.Under, ← fails] at under
          exact failing_of_switch counted under
            (fun codec => unbroken (congrArg some codec)) other speex
  | _ => exact switches.elim

end Steps

/-- **A player is switched to Speex after a real series.**  In a run in which no packet that is
decoded fails to be encoded while failures are counted, a packet that switches its player to Speex
is the last of as many packets of the connection as the limit, none of which could be decoded.
In every run the counter is under the limit between calls. -/
theorem fallback_after_series (L : Libs) :
    (∀ s, (voiceSeries L).Reaches Unbroken s → ∀ i s', Unbroken s i →
      (voiceSeries L).step s i = some s' → Switches s.slot s'.slot i → EndsFailing s'.passed) ∧
    ∀ s, (voiceSeries L).Reachable s → s.slot.player.decodeFails ≤ decodeFailLimit - 1 := by
  have under (s : Series L) (run : (voiceSeries L).Reachable s) : s.Under := by
    apply Machine.Reaches.invariant (I := Series.Under) _ _ run
    · rintro s rfl
      exact Nat.zero_lt_succ 7
    · intro s i s' _ under _ moved
      exact under_of_step under moved
  constructor
  · intro s run i s' unbroken moved switches
    have counted : s.Counted := by
      apply Machine.Reaches.invariant (I := Series.Counted) _ _ run
      · rintro s rfl
        exact List.nil_suffix
      · intro s i s' _ counted unbroken moved
        exact counted_of_step counted unbroken moved
    exact failing_of_step counted (under s run.reachable) unbroken moved switches
  · intro s run
    exact Nat.le_sub_one_of_lt (under s run)

/-- A packet that is too short for a Steam packet. -/
def Packet.short : Packet := ⟨4, [1, 2, 3, 4], []⟩

/-- A number of packets that cannot be decoded. -/
def shorts (n : Nat) : List Input := List.replicate n (.packet 0 true .short)

/-- What a run shows of one more packet: that it switches the player, and the series. -/
def Series.showsSwitch (s : Series Libs.plain) (series : List Transcoded) : Bool :=
  match s.step (.packet 0 true .short) with
  | some s' => s.slot.player.codecType != .speex && s'.slot.player.codecType == .speex &&
      s'.passed == series
  | none => false

theorem Series.switches_of_shows {s : Series Libs.plain} {series : List Transcoded}
    (shows : s.showsSwitch series = true) : ∃ s', s.step (.packet 0 true .short) = some s' ∧
      Switches s.slot s'.slot (.packet 0 true .short) ∧ s'.passed = series := by
  rw [Series.showsSwitch] at shows
  split at shows
  · next s' moved =>
      simp only [Bool.and_eq_true, bne_iff_ne, beq_iff_eq] at shows
      exact ⟨s', moved, shows.1, shows.2⟩
  · cases shows

theorem fallback_after_series_eight : ∃ s s', (voiceSeries Libs.plain).Reaches Unbroken s ∧
    (voiceSeries Libs.plain).step s (.packet 0 true .short) = some s' ∧
    Switches s.slot s'.slot (.packet 0 true .short) ∧ EndsFailing s'.passed := by
  have ends : ((voiceSeries Libs.plain).execIf (fun s i => decide (Unbroken s i))
      ⟨Slot.new Libs.plain, []⟩ (.connect .opus :: shorts 7)).map (fun s =>
        decide (Unbroken s (.packet 0 true .short)) && s.showsSwitch (List.replicate 8 .decode)) =
      some true := by
    decide +kernel
  obtain ⟨s, run, shows⟩ : ∃ s, (voiceSeries Libs.plain).Reaches Unbroken s ∧ _ :=
    Machine.exists_reaches (fun s i passes => of_decide_eq_true passes) rfl ends
  obtain ⟨unbroken, shows⟩ := (Bool.and_eq_true ..).mp shows
  obtain ⟨s', moved, switches, -⟩ := Series.switches_of_shows shows
  exact ⟨s, s', run, moved, switches, (fallback_after_series Libs.plain).1 s run _ s'
    (of_decide_eq_true unbroken) moved switches⟩

/-- After seven packets that cannot be decoded, one that is decoded and only queued leaves the
counter at seven, and the next failure switches the player. -/
theorem not_always_after_series : ¬ ∀ s, (voiceSeries Libs.plain).Reachable s → ∀ i s',
    (voiceSeries Libs.plain).step s i = some s' → Switches s.slot s'.slot i →
    EndsFailing s'.passed := by
  intro always
  have ends : ((voiceSeries Libs.plain).exec ⟨Slot.new Libs.plain, []⟩ (.connect .opus ::
      (shorts 7 ++ [.packet 0 true (ratedPacket 0xC0 0x5D)]))).map (fun s =>
        s.showsSwitch (List.replicate 7 .decode ++ [.codec, .decode])) = some true := by
    decide +kernel
  obtain ⟨s, run, shows⟩ : ∃ s, (voiceSeries Libs.plain).Reachable s ∧ _ :=
    Machine.exists_reachable rfl ends
  obtain ⟨s', moved, switches, passed⟩ := Series.switches_of_shows shows
  have failing := always s run _ s' moved switches
  rw [passed] at failing
  exact absurd failing (by decide)

end Refsapi.Revoice
