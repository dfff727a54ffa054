/-
# Revoice.Speech -- the speech events of a connection

A `Line` is a slot, whether a connection of it is on, and the speech events of
the connection that is or was on last.  The events of a connection are to
alternate from a start on.

What goes wrong is that `m_IsSpeaking` and the pending start are dropped apart.
`Slot.drop` and a frame of an inactive client forget the start and leave
the player speaking, and then a stop comes without a start.  `Heard` is the
condition on a call under which that does not happen: no frame takes the pending
start of a connection away unsent, and no connection begins with a player that
speaks already.  Along a run of such calls the events alternate, and a call that
breaks the condition is one frame away from a stop without a start
(`speech_alternates`).
-/
import Refsapi.Lib.Transition
import Refsapi.Revoice.Player
import Mathlib.Data.List.Chain

namespace Refsapi.Revoice

set_option autoImplicit false

/-- A speech event. -/
inductive Speech where
  | start | stop
  deriving DecidableEq, Repr

def Output.speech : Output → Option Speech
  | .startSpeak => some .start
  | .stopSpeak => some .stop
  | _ => none

/-- The events begin with a start, and no two of a kind follow each other. -/
def Alternating (events : List Speech) : Prop :=
  events.head? ≠ some .stop ∧ events.IsChain fun e next => e ≠ next

instance (events : List Speech) : Decidable (Alternating events) :=
  inferInstanceAs (Decidable (_ ∧ _))

/-- The event that may come next. -/
def awaited (events : List Speech) : Speech :=
  if events.getLast? = some .start then .stop else .start

theorem Speech.ne_iff (last e : Speech) :
    last ≠ e ↔ e = if last = .start then .stop else .start := by
  cases e <;> cases last <;> decide

theorem alternating_append_iff (events : List Speech) (e : Speech) :
    Alternating (events ++ [e]) ↔ Alternating events ∧ e = awaited events := by
  by_cases empty : events = []
  · subst empty
    cases e <;> simp [Alternating, awaited]
  · have ends := List.getLast?_eq_some_getLast empty
    have begins : (events ++ [e]).head? = events.head? := List.head?_append_of_ne_nil _ empty
    rw [Alternating, Alternating, begins, List.isChain_append, awaited, ends]
    simp [← Speech.ne_iff, and_assoc]

@[simp] theorem awaited_append (events : List Speech) (e : Speech) :
    awaited (events ++ [e]) = if e = .start then .stop else .start := by
  simp [awaited]

/-- The outputs say nothing about speech. -/
def Silent (out : List Output) : Prop := out.filterMap Output.speech = []

theorem silent_nil : Silent [] := rfl

/-- The call ends the connection: `SV_DropClient_hook` runs. -/
def Input.ends : Input → List Output → Bool
  | .drop, _ => true
  | .packet .., out => out.contains (.fate .big)
  | _, _ => false

/-- A slot with its connection. -/
structure Line (L : Libs) where
  slot : Slot L
  online : Bool
  events : List Speech

variable {L : Libs}

def Line.step (s : Line L) (i : Input) : Option (Line L) := do
  let (out, slot) ← s.slot.step L i
  let events := if s.online then s.events ++ out.filterMap Output.speech else s.events
  return match i with
  | .connect _ => ⟨slot, true, if s.online then events else []⟩
  | _ => ⟨slot, s.online && !i.ends out, events⟩

variable (L) in
def speechLine : Machine (Line L) Input where
  init s := s = ⟨Slot.new L, false, []⟩
  step := Line.step

/-- The call does not lose a start: a frame finds the client of a pending start
active and connected, and a connection begins with a player that does not speak,
or whose start is still to come. -/
def Heard (s : Line L) : Input → Prop
  | .frame _ active connected =>
      s.online = true → s.slot.speakPending = true → active = true ∧ connected = true
  | .connect _ =>
      s.online = false → s.slot.player.isSpeaking = true → s.slot.speakPending = true
  | _ => True

instance (s : Line L) (i : Input) : Decidable (Heard s i) := by
  cases i <;> simp only [Heard] <;> infer_instance

/-! ## What a call does to the speech of a slot -/

theorem Silent.append {out more : List Output} (first : Silent out) (second : Silent more) :
    Silent (out ++ more) := by
  rw [Silent, List.filterMap_append, first, second]
  rfl

theorem silent_toOpus (samples : List Int16) (c : Codecs L) :
    Silent (c.toOpus L samples).2.1 := by
  rw [Silent, Codecs.toOpus, List.filterMap_map]
  exact List.filterMap_eq_nil_iff.2 fun _ _ => rfl

theorem silent_toSpeex (samples : List Int16) (c : Codecs L) :
    Silent (c.toSpeex L samples).2.1 := by
  rw [Silent, Codecs.toSpeex, List.filterMap_map]
  exact List.filterMap_eq_nil_iff.2 fun _ _ => rfl

theorem silent_toTargets (rate : UInt16) (samples : List Int16) (c : Codecs L) :
    Silent (c.toTargets L rate samples).2.1 := by
  simp only [Codecs.toTargets]
  split
  · exact silent_toOpus ..
  · exact (silent_toOpus ..).append (silent_toSpeex ..)

theorem silent_of_transcode {source : CodecType} {packet : List UInt8} {buf : List Int16}
    {c c' : Codecs L} {result : Transcoded} {blocks : List Output}
    (run : transcodeVoice L source packet buf c = some (result, blocks, c')) : Silent blocks := by
  rw [transcodeVoice] at run
  obtain ⟨⟨decoded, next⟩, -, run⟩ := Option.bind_eq_some_iff.1 run
  simp only at run
  split at run
  · cases run
  · split at run
    · cases run
      exact silent_nil
    · split at run
      · cases run
      · have blocks := congrArg (fun out => out.2.1) (Option.some.inj run)
        simp only at blocks
        rw [← blocks]
        exact silent_toTargets ..

theorem isSpeaking_transcoded (p : Player L) (result : Transcoded) :
    (p.transcoded result).2.isSpeaking = p.isSpeaking := by
  cases result with
  | ok => rfl
  | decode | codec =>
      simp only [Player.transcoded, Player.failed]
      split <;> rfl

theorem speech_of_transcode {buf : List Int16} {s s' : Slot L} {out : List Output}
    (moved : s.transcode L buf = some (out, s')) :
    Silent out ∧ s'.speakPending = s.speakPending ∧
      s'.player.isSpeaking = s.player.isSpeaking := by
  rw [Slot.transcode] at moved
  split at moved
  · cases moved
    exact ⟨rfl, rfl, rfl⟩
  · obtain ⟨⟨result, blocks, codecs⟩, run, ends⟩ := Option.bind_eq_some_iff.1 moved
    cases ends
    exact ⟨(silent_of_transcode run).append rfl, rfl, isSpeaking_transcoded _ result⟩

/-- A packet leaves the speech alone, makes the player speak or drops the client. -/
theorem speech_of_parse {now : Int} {enable : Bool} {packet : Packet} {s s' : Slot L}
    {out : List Output} (moved : s.parseVoiceData L now enable packet = some (out, s')) :
    Silent out ∧
      (s'.speakPending = s.speakPending ∧ s'.player.isSpeaking = s.player.isSpeaking ∨
        s'.speakPending = (s.speakPending || !s.player.isSpeaking) ∧ s'.player.isSpeaking = true ∨
        out = [.fate .big] ∧ s' = s.drop) := by
  rw [Slot.parseVoiceData] at moved
  split at moved
  · cases moved
    exact ⟨rfl, .inl ⟨rfl, rfl⟩⟩
  · split at moved
    · cases moved
      exact ⟨rfl, .inr (.inr ⟨rfl, rfl⟩)⟩
    · split at moved
      · cases moved
        exact ⟨rfl, .inl ⟨rfl, rfl⟩⟩
      · split at moved
        · cases moved
          exact ⟨rfl, .inl ⟨rfl, rfl⟩⟩
        · exact ⟨(speech_of_transcode moved).1, .inr (.inl (speech_of_transcode moved).2)⟩

theorem speech_onConnected (client : Client) (p : Player L) :
    Silent (p.onConnected L client).1 ∧ (p.onConnected L client).2.isSpeaking = p.isSpeaking := by
  simp only [Player.onConnected]
  repeat' split
  all_goals exact ⟨rfl, rfl⟩

theorem speech_update (defaultCodec hltvCodec : String) (requestId : Int) (p : Player L) :
    Silent (p.update defaultCodec hltvCodec requestId).1 ∧
      (p.update defaultCodec hltvCodec requestId).2.isSpeaking = p.isSpeaking := by
  simp only [Player.update]
  repeat' split
  all_goals exact ⟨rfl, rfl⟩

/-- A call that is not about voice: it leaves the speech alone. -/
def Input.quiet : Input → Bool
  | .packet .. | .frame .. | .drop => false
  | _ => true

theorem speech_of_quiet {s s' : Slot L} {i : Input} {out : List Output}
    (moved : s.step L i = some (out, s')) (quiet : i.quiet = true) :
    Silent out ∧ s'.speakPending = s.speakPending ∧
      s'.player.isSpeaking = s.player.isSpeaking := by
  have on {called : List Output × Player L}
      (moved : some (Slot.step.on L s called) = some (out, s'))
      (speech : Silent called.1 ∧ called.2.isSpeaking = s.player.isSpeaking) :
      Silent out ∧ s'.speakPending = s.speakPending ∧
        s'.player.isSpeaking = s.player.isSpeaking := by
    cases moved
    exact ⟨speech.1, rfl, speech.2⟩
  cases i with
  | packet | frame | drop => cases quiet
  | connect client => exact on moved (speech_onConnected client _)
  | command command =>
      refine on moved ⟨rfl, ?_⟩
      cases command with
      | checkStart => rfl
      | runscript | checkEnd =>
          simp only [Player.command]
          split <;> rfl
  | cvarValue requestId build =>
      refine on moved ⟨rfl, ?_⟩
      simp only [Player.cvarValue]
      repeat' split
      all_goals rfl
  | updatePlayers defaultCodec hltvCodec requestId =>
      refine on moved ?_
      split
      · exact speech_update ..
      · exact ⟨rfl, rfl⟩
  | updateHltv defaultCodec hltvCodec requestId =>
      refine on moved ?_
      split
      · exact speech_update ..
      · exact ⟨rfl, rfl⟩
  | updateBitrate bitRate =>
      refine on moved ⟨rfl, ?_⟩
      simp only [Player.updateBitrate]
      split <;> rfl
  | mute muted => exact on moved ⟨rfl, rfl⟩
  | block blocked => exact on moved ⟨rfl, rfl⟩

/-! ## The events of a connection -/

/-- The player of a connection speaks exactly when its start was sent without a
stop since, or is still to be sent. -/
structure Follows (s : Line L) : Prop where
  alternates : Alternating s.events
  pending : s.slot.speakPending = true → s.slot.player.isSpeaking = true
  speaking : s.online = true → (s.slot.player.isSpeaking = true ↔
    awaited s.events = .stop ∨ s.slot.speakPending = true)
  fresh : s.online = true → s.slot.speakPending = true → awaited s.events = .start

section Steps

variable {s : Line L} {slot : Slot L} {online : Bool}

theorem Follows.leave (follows : Follows s) (pending : slot.speakPending = s.slot.speakPending)
    (speaking : slot.player.isSpeaking = s.slot.player.isSpeaking)
    (still : online = true → s.online = true) : Follows ⟨slot, online, s.events⟩ where
  alternates := follows.alternates
  pending := by
    rw [pending, speaking]
    exact follows.pending
  speaking on := by
    rw [pending, speaking]
    exact follows.speaking (still on)
  fresh on := by
    rw [pending]
    exact follows.fresh (still on)

theorem Follows.speak (follows : Follows s)
    (pending : slot.speakPending = (s.slot.speakPending || !s.slot.player.isSpeaking))
    (speaking : slot.player.isSpeaking = true) (still : online = true → s.online = true) :
    Follows ⟨slot, online, s.events⟩ where
  alternates := follows.alternates
  pending _ := speaking
  speaking on := by
    have before := follows.speaking (still on)
    refine iff_of_true speaking ?_
    rw [pending]
    cases spoke : s.slot.player.isSpeaking with
    | true =>
        rw [spoke] at before
        exact (before.1 rfl).imp_right fun waits => by rw [waits]; rfl
    | false => exact .inr (by simp)
  fresh on waits := by
    cases spoke : s.slot.player.isSpeaking with
    | true => exact follows.fresh (still on) (by simpa [pending, spoke] using waits)
    | false =>
        have before := follows.speaking (still on)
        rw [spoke] at before
        cases next : awaited s.events with
        | start => rfl
        | stop => exact absurd (before.2 (.inl next)) (by decide)

theorem Follows.drop (follows : Follows s) : Follows ⟨s.slot.drop, false, s.events⟩ where
  alternates := follows.alternates
  pending := nofun
  speaking := nofun
  fresh := nofun

theorem Follows.connect (follows : Follows s) (pending : slot.speakPending = s.slot.speakPending)
    (speaking : slot.player.isSpeaking = s.slot.player.isSpeaking)
    (heard : s.slot.player.isSpeaking = true → s.slot.speakPending = true) :
    Follows ⟨slot, true, []⟩ where
  alternates := show Alternating [] by decide
  pending := by
    rw [pending, speaking]
    exact follows.pending
  speaking _ := by
    rw [pending, speaking]
    exact ⟨fun spoke => .inr (heard spoke), fun next => next.elim nofun follows.pending⟩
  fresh _ _ := rfl

/-- The frame of a client that is not there loses nothing, if it is heard. -/
theorem Follows.frame_away (follows : Follows s) {now : Int} {active connected : Bool}
    (heard : Heard s (.frame now active connected)) (away : (!active || !connected) = true) :
    Follows ⟨{ s.slot with speakPending := false }, s.online, s.events⟩ where
  alternates := follows.alternates
  pending := nofun
  speaking on := by
    rw [follows.speaking on]
    refine ⟨fun next => .inl (next.resolve_right fun waits => ?_),
      fun next => .inl (next.resolve_right nofun)⟩
    obtain ⟨rfl, rfl⟩ := heard on waits
    cases away
  fresh _ := nofun

/-- The start that waits is sent. -/
theorem Follows.start (follows : Follows s) (on : s.online = true) :
    Follows ⟨{ s.slot with speakPending := false }, s.online, s.events ++
      (if s.slot.speakPending then [Speech.start] else [])⟩ := by
  cases waits : s.slot.speakPending with
  | true =>
      refine ⟨(alternating_append_iff _ _).2 ⟨follows.alternates, (follows.fresh on waits).symm⟩,
        nofun, fun _ => ?_, fun _ => nofun⟩
      exact iff_of_true (follows.pending waits) (.inl (awaited_append ..))
  | false =>
      have speaking := follows.speaking on
      rw [waits] at speaking
      simp only [Bool.false_eq_true, ↓reduceIte, List.append_nil]
      exact ⟨follows.alternates, nofun, fun _ => speaking, fun _ => nofun⟩

/-- The player stops speaking. -/
theorem Follows.stop (follows : Follows s) (on : s.online = true)
    (sent : s.slot.speakPending = false) (spoke : s.slot.player.isSpeaking = true) :
    Follows ⟨{ s.slot with player := { s.slot.player with isSpeaking := false } }, s.online,
      s.events ++ [.stop]⟩ := by
  have next : .stop = awaited s.events := by
    refine (((follows.speaking on).1 spoke).resolve_right fun waits => ?_).symm
    rw [sent] at waits
    cases waits
  refine ⟨(alternating_append_iff _ _).2 ⟨follows.alternates, next⟩, ?_, fun _ => ?_, ?_⟩
  · rw [sent]
    nofun
  · rw [sent, awaited_append]
    exact ⟨nofun, fun next => next.elim nofun nofun⟩
  · rw [sent]
    nofun

theorem Follows.frame_there (follows : Follows s) (now : Int) :
    Follows ⟨(s.slot.startFrame now true true).2, s.online,
      if s.online then s.events ++ (s.slot.startFrame now true true).1.filterMap Output.speech
      else s.events⟩ := by
  cases on : s.online with
  | false =>
      refine ⟨follows.alternates, fun waits => ?_, nofun, nofun⟩
      simp only [Slot.startFrame, Bool.not_true, Bool.or_self, Bool.false_eq_true,
        ↓reduceIte] at waits
      split at waits <;> cases waits
  | true =>
      have started := follows.start on
      have said : (if s.slot.speakPending then [Output.startSpeak] else []).filterMap
          Output.speech = if s.slot.speakPending then [Speech.start] else [] := by
        split <;> rfl
      simp only [Slot.startFrame, Bool.not_true, Bool.or_self, Bool.false_eq_true, ↓reduceIte]
      split
      · next ends =>
          rw [List.filterMap_append, said, ← List.append_assoc]
          have stopped := started.stop on rfl ends.2
          rwa [on] at stopped
      · rw [said]
        rwa [on] at started

end Steps

theorem events_of_silent {online : Bool} {events : List Speech} {out : List Output}
    (silent : Silent out) :
    (if online then events ++ out.filterMap Output.speech else events) = events := by
  rw [silent, List.append_nil, ite_self]

theorem follows_of_step {s s' : Line L} {i : Input} (follows : Follows s) (heard : Heard s i)
    (moved : s.step i = some s') : Follows s' := by
  obtain ⟨⟨out, slot⟩, called, ends⟩ := Option.bind_eq_some_iff.1 moved
  have ends := Option.some.inj ends
  have fewer {drops : Bool} (still : (s.online && !drops) = true) : s.online = true := by
    rw [Bool.and_eq_true] at still
    exact still.1
  cases i with
  | packet now enable packet =>
      obtain ⟨silent, effect⟩ := speech_of_parse called
      simp only [events_of_silent silent] at ends
      subst ends
      rcases effect with ⟨pending, speaking⟩ | ⟨pending, speaking⟩ | ⟨rfl, rfl⟩
      · exact follows.leave pending speaking fewer
      · exact follows.speak pending speaking fewer
      · rw [show (s.online && !(Input.packet now enable packet).ends [.fate .big]) = false by
          rw [show (Input.packet now enable packet).ends [.fate .big] = true from rfl]
          exact Bool.and_false _]
        exact follows.drop
  | frame now active connected =>
      have called : s.slot.startFrame now active connected = (out, slot) := Option.some.inj called
      subst ends
      simp only [Input.ends, Bool.not_false, Bool.and_true]
      cases away : (!active || !connected) with
      | true =>
          rw [Slot.startFrame, if_pos away, Prod.mk.injEq] at called
          obtain ⟨rfl, rfl⟩ := called
          rw [events_of_silent silent_nil]
          exact follows.frame_away heard away
      | false =>
          obtain ⟨rfl, rfl⟩ : active = true ∧ connected = true := by
            simpa [Bool.or_eq_false_iff] using away
          have there := follows.frame_there now
          rwa [called] at there
  | drop =>
      obtain ⟨rfl, rfl⟩ := Prod.mk.inj (Option.some.inj called)
      subst ends
      rw [events_of_silent silent_nil,
        show (s.online && !Input.drop.ends []) = false from Bool.and_false _]
      exact follows.drop
  | connect client =>
      obtain ⟨silent, pending, speaking⟩ := speech_of_quiet called rfl
      simp only [events_of_silent silent] at ends
      subst ends
      cases on : s.online with
      | true => exact follows.leave pending speaking fun _ => on
      | false => exact follows.connect pending speaking (heard on)
  | command | cvarValue | updatePlayers | updateHltv | updateBitrate | mute | block =>
      obtain ⟨silent, pending, speaking⟩ := speech_of_quiet called rfl
      simp only [events_of_silent silent] at ends
      subst ends
      exact follows.leave pending speaking fewer

theorem follows_of_reaches {s : Line L} (run : (speechLine L).Reaches Heard s) : Follows s := by
  refine run.invariant ?_ fun s i s' _ follows heard moved => follows_of_step follows heard moved
  rintro s rfl
  exact ⟨show Alternating [] by decide, nofun, nofun, nofun⟩

/-! ## What a call that is not heard leads to -/

/-- A player of a connection that speaks with no start sent or to be sent. -/
structure Orphan (s : Line L) : Prop where
  online : s.online = true
  speaks : s.slot.player.isSpeaking = true
  nothing : s.slot.speakPending = false
  awaits : awaited s.events = .start

theorem orphan_of_step {s s' : Line L} {i : Input} (follows : Follows s) (lost : ¬ Heard s i)
    (moved : s.step i = some s') : Orphan s' := by
  obtain ⟨⟨out, slot⟩, called, ends⟩ := Option.bind_eq_some_iff.1 moved
  have ends := Option.some.inj ends
  cases i with
  | frame now active connected =>
      simp only [Heard, Classical.not_imp] at lost
      obtain ⟨on, waits, away⟩ := lost
      have away : (!active || !connected) = true := by
        cases active <;> cases connected <;> simp_all
      have called : s.slot.startFrame now active connected = (out, slot) := Option.some.inj called
      rw [Slot.startFrame, if_pos away, Prod.mk.injEq] at called
      obtain ⟨rfl, rfl⟩ := called
      simp only [events_of_silent silent_nil, Input.ends, Bool.not_false, Bool.and_true] at ends
      subst ends
      exact ⟨on, follows.pending waits, rfl, follows.fresh on waits⟩
  | connect client =>
      simp only [Heard, Classical.not_imp, Bool.not_eq_true] at lost
      obtain ⟨off, spoke, nothing⟩ := lost
      obtain ⟨-, pending, speaking⟩ := speech_of_quiet called rfl
      simp only [off, Bool.false_eq_true, ↓reduceIte] at ends
      subst ends
      exact ⟨rfl, speaking.trans spoke, pending.trans nothing, rfl⟩
  | packet | drop | command | cvarValue | updatePlayers | updateHltv | updateBitrate | mute
  | block => exact absurd trivial lost

/-- The next frame after the timeout sends a stop without a start. -/
theorem Orphan.stops {s : Line L} (orphan : Orphan s) :
    ∃ s', s.step (.frame s.slot.player.voiceEndTime true true) = some s' ∧
      ¬ Alternating s'.events := by
  have ends : ¬ s.slot.player.voiceEndTime < s.slot.player.voiceEndTime ∧
      s.slot.player.isSpeaking = true := ⟨Int.lt_irrefl _, orphan.speaks⟩
  have sends : s.slot.startFrame s.slot.player.voiceEndTime true true =
      ([.stopSpeak], ⟨{ s.slot.player with isSpeaking := false }, false⟩) := by
    simp only [Slot.startFrame, orphan.nothing]
    exact if_pos ends
  refine ⟨⟨⟨{ s.slot.player with isSpeaking := false }, false⟩, true, s.events ++ [.stop]⟩, ?_,
    fun alternates => ?_⟩
  · simp only [Line.step, Slot.step, sends, orphan.online]
    rfl
  · have next := ((alternating_append_iff s.events .stop).1 alternates).2
    rw [orphan.awaits] at next
    cases next

/-- **Speech events alternate along heard calls.**  In every state of a run whose
calls are all heard the events of the connection alternate and begin with a
start; and after a call that is not heard there is a frame with which they do
not. -/
theorem speech_alternates (L : Libs) :
    (∀ s, (speechLine L).Reaches Heard s → Alternating s.events) ∧
    ∀ s i s', (speechLine L).Reaches Heard s → ¬ Heard s i → Line.step s i = some s' →
      ∃ now s'', Line.step s' (.frame now true true) = some s'' ∧ ¬ Alternating s''.events := by
  refine ⟨fun s run => (follows_of_reaches run).alternates, fun s i s' run lost moved => ?_⟩
  exact ⟨_, (orphan_of_step (follows_of_reaches run) lost moved).stops⟩

/-- A client connects and says something. -/
def talk : List Input :=
  [.connect .plain, .packet 0 true .plain, .frame 20 true true, .frame 300 true true]

theorem speech_alternates_talk : (∃ s, (speechLine .plain).Reaches Heard s ∧
      s.events = [.start, .stop] ∧ Alternating s.events) ∧
    ∃ s s' now s'', ¬ Heard s (.connect .plain) ∧
      Line.step (L := .plain) s (.connect .plain) = some s' ∧
      Line.step s' (.frame now true true) = some s'' ∧ ¬ Alternating s''.events := by
  have runs (actions : List Input) (p : Line .plain → Bool)
      (ends : ((speechLine .plain).execIf (fun s i => decide (Heard s i))
        ⟨Slot.new .plain, false, []⟩ actions).map p = some true) :=
    Machine.exists_reaches (fun s i passes => of_decide_eq_true passes) rfl ends
  obtain ⟨s, run, said⟩ := runs talk (fun s => s.events == [.start, .stop]) (by decide +kernel)
  obtain ⟨t, left, lost⟩ := runs (talk.take 3 ++ [.drop])
    (fun s => !decide (Heard s (.connect .plain)) && (s.step (.connect .plain)).isSome)
    (by decide +kernel)
  refine ⟨⟨s, run, eq_of_beq said, (speech_alternates .plain).1 s run⟩, ?_⟩
  simp only [Bool.and_eq_true, Bool.not_eq_true', decide_eq_false_iff_not] at lost
  obtain ⟨t', moved⟩ := Option.isSome_iff_exists.1 lost.2
  obtain ⟨now, t'', called, breaks⟩ :=
    (speech_alternates .plain).2 t (.connect .plain) t' left lost.1 moved
  exact ⟨t, t', now, t'', lost.1, moved, called, breaks⟩

/-- A client leaves while it speaks, and the next one of the slot begins with a
stop. -/
theorem not_always_alternating :
    ¬ ∀ s, (speechLine .plain).Reachable s → Alternating s.events := by
  intro always
  have ends : ((speechLine .plain).exec ⟨Slot.new .plain, false, []⟩
      (talk.take 3 ++ [.drop, .connect .plain, .frame 300 true true])).map
      (fun s => decide (¬ Alternating s.events)) = some true := by
    decide +kernel
  obtain ⟨s, run, wrong⟩ := Machine.exists_reachable (M := speechLine .plain) rfl ends
  exact of_decide_eq_true wrong (always s run)

end Refsapi.Revoice
