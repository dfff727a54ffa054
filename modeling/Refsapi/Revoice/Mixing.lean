/-
# Revoice.Mixing -- which sounds a frame sends to a client

A client is to be sent the sounds that play for it and are due, or share a sender with one that is;
each once, and those of one sender as the sum of their samples (`Served`).

The loop finds the sounds of a sender without asking whether they play or are at their end, keeps
`mix` from one sender to the next, and marks the sounds of a sender as handled under the number of
the client.  So a client is served exactly when the sounds of a sender that is due play, none of
them from behind its end, when one sender at most has several sounds to send, and when behind it the
walk does not come to the sound with the number of the client or to a sound that is due again at
once (`Fair`, `served_iff_fair`).
-/
import Refsapi.Revoice.Walks

namespace Refsapi.Revoice

set_option autoImplicit false

/-- The sounds that samples were taken from for some packets. -/
def takenIds (packets : List Sent) : List Nat := (packets.flatMap Sent.sources).map Source.id

/-! ## What a client is to be sent -/

section Client

variable {σ : Type} (server : Server σ) (world : σ) (i : Nat) (keys : List Nat)
  (parts : Nat → Option Part)

/-- One of the sounds is due for the client and of the sender. -/
def Wakes (ids : List Nat) (sender : UInt8) : Prop :=
  ∃ id ∈ ids, ∃ part, parts id = some part ∧ part.Due server world i ∧ part.sender = sender

/-- The sounds of a sender. -/
def groupOf (sender : UInt8) : List Nat :=
  keys.filter fun id => (parts id).any fun part => part.sender = sender

/-- The sender has several sounds. -/
def Several (sender : UInt8) : Prop := 1 < (groupOf keys parts sender).length

/-- The sound plays for the client, and is due or shares its sender with one that is. -/
def Wanted (id : Nat) : Prop :=
  ∃ part, parts id = some part ∧ part.Unmuted server world i ∧ part.receiver.state = .play ∧
    Wakes server world i parts keys part.sender

/-- The client is sent what it is to be sent, once, by some packets, and only that is advanced. -/
structure Served (packets : List Sent) (after : Nat → Option Part) : Prop where
  once : (takenIds packets).Nodup
  exact : ∀ id, id ∈ takenIds packets ↔ Wanted server world i keys parts id
  taken : ∀ packet ∈ packets, ∀ source ∈ packet.sources, ∃ part, parts source.id = some part ∧
    source = part.source source.id
  grouped : ∀ packet ∈ packets, ∀ id part, parts id = some part →
    (id ∈ packet.sources.map Source.id ↔
      Wanted server world i keys parts id ∧ part.sender = packet.sender)
  mixed : ∀ packet ∈ packets, packet.mixed = packet.sources ∧
    packet.samples = mixOf packet.sources
  advanced : ∀ id part, parts id = some part → ∃ part', after id = some part' ∧
    (Wanted server world i keys parts id →
      part'.receiver.currentPos = part.receiver.currentPos + part.samples.length) ∧
    (¬ Wanted server world i keys parts id → part' = part)

/-- Behind a sender with several sounds, the walk comes to a sound: it is not due with the number of
the client, if it is of another sender, and it is not due again at once, if it is of this one. -/
def Passes (before : List Nat) (id : Nat) : Prop :=
  ∀ sender, Wakes server world i parts before sender → Several keys parts sender →
    ∀ part, parts id = some part →
      (id = i → part.Due server world i → part.sender = sender) ∧
      (id ≠ i → part.sender = sender → 0 < part.offset 1000 + server.delay i id)

/-- What the loop takes for granted. -/
structure Fair : Prop where
  plays : ∀ id part, parts id = some part → Wakes server world i parts keys part.sender →
    part.receiver.state = .play
  inside : ∀ id part, parts id = some part → Wakes server world i parts keys part.sender →
    part.Inside
  oneGroup : ∀ sender sender', Wakes server world i parts keys sender →
    Several keys parts sender → Wakes server world i parts keys sender' →
    Several keys parts sender' → sender = sender'
  passes : ∀ before id behind, keys = before ++ id :: behind →
    Passes server world i keys parts before id

end Client

/-! ## Walks that find what they take for granted -/

section Client

variable {σ : Type} {server : Server σ} {world : σ} {i : Nat} {keys : List Nat}
  {parts : Nat → Option Part}

theorem Wakes.mono {ids ids' : List Nat} {sender : UInt8} (more : ids ⊆ ids')
    (wakes : Wakes server world i parts ids sender) : Wakes server world i parts ids' sender := by
  obtain ⟨id, isId, due⟩ := wakes
  exact ⟨id, more isId, due⟩

theorem wakes_concat {before : List Nat} {id : Nat} {sender : UInt8} :
    Wakes server world i parts (before ++ [id]) sender ↔
      Wakes server world i parts before sender ∨
        ∃ part, parts id = some part ∧ part.Due server world i ∧ part.sender = sender := by
  constructor
  · rintro ⟨k, isId, due⟩
    rcases List.mem_append.1 isId with earlier | here
    · exact .inl ⟨k, earlier, due⟩
    · obtain rfl := List.mem_singleton.1 here
      exact .inr due
  · rintro (wakes | due)
    · exact wakes.mono (List.subset_append_left ..)
    · exact ⟨id, by simp, due⟩

/-- A sender whose sound is due is not muted. -/
theorem Wakes.unmuted {ids : List Nat} {part : Part}
    (wakes : Wakes server world i parts ids part.sender) : part.Unmuted server world i := by
  obtain ⟨_, _, part', _, due, same⟩ := wakes
  exact ⟨same ▸ due.unmuted.1, due.unmuted.2⟩

theorem mem_groupOf_iff {sender : UInt8} {id : Nat} : id ∈ groupOf keys parts sender ↔
    id ∈ keys ∧ ∃ part, parts id = some part ∧ part.sender = sender := by
  simp only [groupOf, List.mem_filter, Option.any_eq_true, decide_eq_true_eq]

theorem groupOf_of_one {id : Nat} {part : Part} (isKey : id ∈ keys)
    (isPart : parts id = some part) (one : ¬ Several keys parts part.sender) :
    groupOf keys parts part.sender = [id] := by
  have isMember := mem_groupOf_iff.2 ⟨isKey, part, isPart, rfl⟩
  have some := List.length_pos_of_mem isMember
  rw [Several] at one
  obtain ⟨k, same⟩ := List.length_eq_one_iff.1 (show (groupOf keys parts part.sender).length = 1 by
    omega)
  rw [same] at isMember ⊢
  rw [List.mem_singleton.1 isMember]

/-- A sender with one sound is woken by that sound. -/
theorem Wakes.mem_of_one {ids : List Nat} {id : Nat} {part : Part} (known : ids ⊆ keys)
    (wakes : Wakes server world i parts ids part.sender) (isKey : id ∈ keys)
    (isPart : parts id = some part) (one : ¬ Several keys parts part.sender) : id ∈ ids := by
  obtain ⟨k, isId, part', isPart', -, same⟩ := wakes
  have isMember := mem_groupOf_iff.2 ⟨known isId, part', isPart', same⟩
  rw [groupOf_of_one isKey isPart one, List.mem_singleton] at isMember
  exact isMember ▸ isId

theorem wanted_of_due {id : Nat} {part : Part} (isKey : id ∈ keys)
    (isPart : parts id = some part) (due : part.Due server world i) :
    Wanted server world i keys parts id :=
  ⟨part, isPart, due.unmuted, due.plays, id, isKey, part, isPart, due, rfl⟩

/-- A sound of a sender that is woken is wanted, when such sounds play. -/
theorem wanted_iff {id : Nat} (plays : ∀ id part, parts id = some part →
      Wakes server world i parts keys part.sender → part.receiver.state = .play) :
    Wanted server world i keys parts id ↔
      ∃ part, parts id = some part ∧ Wakes server world i parts keys part.sender := by
  constructor
  · rintro ⟨part, isPart, -, -, woken⟩
    exact ⟨part, isPart, woken⟩
  · rintro ⟨part, isPart, woken⟩
    exact ⟨part, isPart, woken.unmuted, plays id part isPart woken, woken⟩

end Client

theorem takenIds_append (first second : List Sent) :
    takenIds (first ++ second) = takenIds first ++ takenIds second := by
  rw [takenIds, List.flatMap_append, List.map_append]
  rfl

theorem mem_takenIds_iff {packets : List Sent} {id : Nat} : id ∈ takenIds packets ↔
    ∃ packet ∈ packets, id ∈ packet.sources.map Source.id := by
  simp only [takenIds, List.mem_map, List.mem_flatMap]
  constructor
  · rintro ⟨source, ⟨packet, isPacket, isSource⟩, same⟩
    exact ⟨packet, isPacket, source, isSource, same⟩
  · rintro ⟨packet, isPacket, source, isSource, same⟩
    exact ⟨source, ⟨packet, isPacket, isSource⟩, same⟩

namespace Sweep

variable {σ : Type} {server : Server σ} {b s t u : Sweep σ} {before : List Nat}
  {packets : List Sent} {id : Nat} {part : Part}

/-- A sound of the sender was due at the start of the walk. -/
abbrev Woken (server : Server σ) (b : Sweep σ) (ids : List Nat) (sender : UInt8) : Prop :=
  Wakes server b.world b.client (fun id => b.part server id) ids sender

abbrev Grouped (server : Server σ) (b : Sweep σ) (sender : UInt8) : Prop :=
  Several b.waves.keys (fun id => b.part server id) sender

/-- The walk up to a sound: the senders that were woken were sent, each once and by itself, and the
sounds of the others are what they were. -/
structure Follows (server : Server σ) (b : Sweep σ) (before : List Nat) (packets : List Sent)
    (s : Sweep σ) : Prop where
  trace : Trace server b before packets s
  asleep : ∀ id part, b.part server id = some part → ¬ Woken server b before part.sender →
    s.part server id = some part
  woken : ∀ id part, b.part server id = some part → Woken server b before part.sender →
    ∃ unit, (Grouped server b part.sender → unit = 1000) ∧
      s.part server id = some (part.advanced server b.client unit id)
  handled : ∀ id ∈ s.handled, id ∈ before ∨
    id = b.client ∧ ∃ sender, Woken server b before sender ∧ Grouped server b sender
  marked : ∀ sender, Woken server b before sender → Grouped server b sender →
    b.client ∈ s.handled
  mix : s.mix = mixOf s.mixed
  fresh : (∀ sender, Woken server b before sender → ¬ Grouped server b sender) → s.mixed = []
  once : (takenIds packets).Nodup
  exact : ∀ id, id ∈ takenIds packets ↔
    ∃ part, b.part server id = some part ∧ Woken server b before part.sender
  taken : ∀ packet ∈ packets, ∀ source ∈ packet.sources, ∃ part,
    b.part server source.id = some part ∧ source = part.source source.id
  mixed : ∀ packet ∈ packets, packet.mixed = packet.sources ∧
    packet.samples = mixOf packet.sources

namespace Follows

theorem nil (handled : b.handled = []) (mix : b.mix = []) (mixed : b.mixed = []) :
    Follows server b [] [] b := by
  have none (sender : UInt8) : ¬ Woken server b [] sender := by
    rintro ⟨id, isId, -⟩
    exact List.not_mem_nil isId
  constructor
  case trace => exact .nil server b
  case asleep => exact fun _ _ isPart _ => isPart
  case woken => exact fun _ _ _ woken => absurd woken (none _)
  case handled => intro id isHandled; rw [handled] at isHandled; cases isHandled
  case marked => exact fun sender woken => absurd woken (none sender)
  case mix => rw [mix, mixed]; rfl
  case fresh => exact fun _ => mixed
  case once => exact List.nodup_nil
  case exact =>
    intro id
    constructor
    · intro isTaken
      cases isTaken
    · rintro ⟨part, -, woken⟩
      exact absurd woken (none _)
  all_goals exact fun _ isPacket => absurd isPacket List.not_mem_nil

/-- A visit to a sound that is not due. -/
theorem leaves (follows : Follows server b before packets s)
    (idle : ∀ part, b.part server id = some part → ¬ Woken server b before part.sender →
      ¬ part.Due server b.world b.client) : Follows server b (before ++ [id]) packets s := by
  have wakes (sender : UInt8) : Woken server b (before ++ [id]) sender ↔
      Woken server b before sender := by
    rw [Woken, wakes_concat]
    constructor
    · rintro (woken | ⟨part, isPart, due, rfl⟩)
      · exact woken
      · by_contra asleep
        exact idle part isPart asleep due
    · exact .inl
  constructor
  case trace => exact follows.trace.leaves id
  case mix => exact follows.mix
  case once => exact follows.once
  case taken => exact follows.taken
  case mixed => exact follows.mixed
  case handled =>
    intro k isHandled
    simp only [wakes]
    rcases follows.handled k isHandled with earlier | here
    · exact .inl (List.mem_append_left _ earlier)
    · exact .inr here
  all_goals simp only [wakes]
  case asleep => exact follows.asleep
  case woken => exact follows.woken
  case marked => exact follows.marked
  case fresh => exact follows.fresh
  case exact => exact follows.exact

/-- A visit to a sound that is due, the first one of its sender. -/
theorem sends (follows : Follows server b before packets s) {ids : List Nat} {packet : Sent}
    (isPart : b.part server id = some part) (due : part.Due server b.world b.client)
    (asleep : ¬ Woken server b before part.sender)
    (alone : Grouped server b part.sender → ∀ sender, Woken server b before sender →
      ¬ Grouped server b sender)
    (sends : Sends server id part ids packet s t) :
    Follows server b (before ++ [id]) (packets ++ [packet]) t := by
  have isGroup : ids.Perm (b.group server part.sender) := follows.trace.group _ ▸ sends.group
  have several : 1 < ids.length ↔ Grouped server b part.sender := by
    rw [isGroup.length_eq]
    exact Iff.rfl
  have isMember {k : Nat} {part' : Part} (isPart' : b.part server k = some part') :
      k ∈ ids ↔ part'.sender = part.sender := by
    rw [isGroup.mem_iff, mem_group_iff]
    constructor
    · rintro ⟨part'', isPart'', same⟩
      rw [Option.some.inj (isPart'.symm.trans isPart''), same]
    · exact fun same => ⟨part', isPart', same⟩
  have wakes (sender : UInt8) : Woken server b (before ++ [id]) sender ↔
      Woken server b before sender ∨ part.sender = sender := by
    rw [Woken, wakes_concat]
    constructor
    · rintro (woken | ⟨part', isPart', -, same⟩)
      · exact .inl woken
      · exact .inr (Option.some.inj (isPart.symm.trans isPart') ▸ same)
    · rintro (woken | same)
      · exact .inl woken
      · exact .inr ⟨part, isPart, due, same⟩
  -- the sounds of the sender are what they were
  have still (k : Nat) (isId : k ∈ ids) : ∃ part', b.part server k = some part' ∧
      s.part server k = some part' := by
    obtain ⟨part', isPart', same⟩ := mem_group_iff.1 (isGroup.mem_iff.1 isId)
    exact ⟨part', isPart', follows.asleep k part' isPart' (same ▸ asleep)⟩
  obtain ⟨-, -, sources⟩ := sends.takes
  have isSources : packet.sources = b.sources server ids := by
    rw [sources]
    refine List.filterMap_congr fun k isId => ?_
    obtain ⟨part', first, second⟩ := still k isId
    rw [first, second]
  have isIds : packet.sources.map Source.id = ids := by
    rw [isSources]
    refine ids_sources fun k isId => ?_
    obtain ⟨part', isPart', -⟩ := still k isId
    exact ⟨part', isPart'⟩
  have isTaken : takenIds (packets ++ [packet]) = takenIds packets ++ ids := by
    rw [takenIds_append, ← isIds]
    simp only [takenIds, List.flatMap_cons, List.flatMap_nil, List.append_nil]
  obtain ⟨unit, isUnit, advances⟩ := sends.advances
  have moves (k : Nat) : t.part server k = if k ∈ ids then
      (s.part server k).map (Part.advanced server b.client unit k) else s.part server k := by
    rw [Sweep.part, sends.world, sends.client, advances.here, Sweep.part, follows.trace.client]
  have isAwake := (wakes part.sender).2 (.inr rfl)
  constructor
  case trace =>
    exact follows.trace.sends (follows.asleep id part isPart asleep) sends
  case asleep =>
    intro k part' isPart' stays
    rw [wakes, not_or] at stays
    rw [moves, if_neg fun isId => stays.2 ((isMember isPart').1 isId).symm]
    exact follows.asleep k part' isPart' stays.1
  case woken =>
    intro k part' isPart' woken
    by_cases isId : k ∈ ids
    · obtain ⟨part'', first, second⟩ := still k isId
      obtain rfl := Option.some.inj (isPart'.symm.trans first)
      refine ⟨unit, fun grouped => isUnit (several.2 ?_), ?_⟩
      · rw [← (isMember isPart').1 isId]
        exact grouped
      · rw [moves, if_pos isId, second]
        rfl
    · rw [moves, if_neg isId]
      rcases (wakes _).1 woken with earlier | same
      · exact follows.woken k part' isPart' earlier
      · exact absurd ((isMember isPart').2 same.symm) isId
  case handled =>
    intro k isHandled
    rcases (sends.handled k).1 isHandled with earlier | here
    · rcases follows.handled k earlier with isBefore | ⟨isClient, sender, woken, grouped⟩
      · exact .inl (List.mem_append_left _ isBefore)
      · exact .inr ⟨isClient, sender, (wakes sender).2 (.inl woken), grouped⟩
    · split at here
      · next more =>
          exact .inr ⟨here.trans follows.trace.client, part.sender, isAwake, several.1 more⟩
      · exact .inl (here ▸ by simp)
  case marked =>
    intro sender woken grouped
    rw [sends.handled]
    rcases (wakes sender).1 woken with earlier | rfl
    · exact .inl (follows.marked sender earlier grouped)
    · exact .inr (by rw [if_pos (several.2 grouped), follows.trace.client])
  case mix => exact (sends.samples follows.mix).1
  case fresh =>
    intro none
    have mixed := sends.mixed
    rw [if_neg fun more => none _ isAwake (several.1 more)] at mixed
    rw [mixed.1]
    exact follows.fresh fun sender woken => none sender ((wakes sender).2 (.inl woken))
  case once =>
    rw [isTaken]
    refine List.nodup_append.2 ⟨follows.once, isGroup.nodup_iff.2 (group_nodup ..), ?_⟩
    rintro k isEarlier _ isId rfl
    obtain ⟨part', isPart', woken⟩ := (follows.exact k).1 isEarlier
    rw [(isMember isPart').1 isId] at woken
    exact asleep woken
  case exact =>
    intro k
    rw [isTaken, List.mem_append, follows.exact]
    constructor
    · rintro (⟨part', isPart', woken⟩ | isId)
      · exact ⟨part', isPart', (wakes _).2 (.inl woken)⟩
      · obtain ⟨part', isPart', -⟩ := still k isId
        exact ⟨part', isPart', (wakes _).2 (.inr ((isMember isPart').1 isId).symm)⟩
    · rintro ⟨part', isPart', woken⟩
      rcases (wakes _).1 woken with earlier | same
      · exact .inl ⟨part', isPart', earlier⟩
      · exact .inr ((isMember isPart').2 same.symm)
  case taken =>
    intro packet' isPacket source isSource
    rcases List.mem_append.1 isPacket with earlier | here
    · exact follows.taken packet' earlier source isSource
    · rw [List.mem_singleton.1 here, isSources] at isSource
      obtain ⟨k, -, taken⟩ := List.mem_filterMap.1 isSource
      obtain ⟨part', isPart', rfl⟩ := Option.map_eq_some_iff.1 taken
      exact ⟨part', isPart', rfl⟩
  case mixed =>
    intro packet' isPacket
    rcases List.mem_append.1 isPacket with earlier | here
    · exact follows.mixed packet' earlier
    · rw [List.mem_singleton.1 here]
      have onlyThese : packet.mixed = packet.sources := by
        have mixed := sends.mixed
        split at mixed
        · next more =>
            rw [mixed.2, follows.fresh (alone (several.1 more)), List.nil_append]
        · exact mixed.2
      exact ⟨onlyThese, onlyThese ▸ (sends.samples follows.mix).2⟩

/-- The iterator is another matter. -/
theorem moves (follows : Follows server b before packets s) (sound : Option (Cursor Nat)) :
    Follows server b before packets { s with sound } :=
  { follows with trace := follows.trace.moves sound }

/-- A sound of a sender that was sent is not due again, or was marked. -/
theorem not_due_again (follows : Follows server b before packets s)
    (known : before ⊆ b.waves.keys) (fresh : id ∉ before)
    (passes : Passes server b.world b.client b.waves.keys (fun id => b.part server id) before id)
    (isPart : b.part server id = some part) (woken : Woken server b before part.sender)
    {part' : Part} (isPart' : s.part server id = some part')
    (due : part'.Due server b.world b.client) : id ∈ s.handled := by
  have grouped : Grouped server b part.sender := by
    by_contra one
    exact fresh (woken.mem_of_one known (Waves.mem_keys_of_part isPart) isPart one)
  by_cases isClient : id = b.client
  · rw [isClient]
    exact follows.marked _ woken grouped
  · obtain ⟨unit, isUnit, moved⟩ := follows.woken id part isPart woken
    obtain rfl := Option.some.inj (isPart'.symm.trans moved)
    have later := (passes _ woken grouped part isPart).2 isClient rfl
    have now := due.now
    rw [isUnit grouped, Part.advanced_now_iff] at now
    omega

/-- A sound whose sender was not sent is not marked, when it is due. -/
theorem fresh_of_due (follows : Follows server b before packets s) (fresh : id ∉ before)
    (passes : Passes server b.world b.client b.waves.keys (fun id => b.part server id) before id)
    (isPart : b.part server id = some part) (asleep : ¬ Woken server b before part.sender)
    (due : part.Due server b.world b.client) : id ∉ s.handled := by
  intro isHandled
  rcases follows.handled id isHandled with earlier | ⟨isClient, sender, woken, grouped⟩
  · exact fresh earlier
  · have same := (passes sender woken grouped part isPart).1 isClient due
    exact asleep (same ▸ woken)

/-- One sound more. -/
theorem visit (follows : Follows server b before packets s) (known : before ⊆ b.waves.keys)
    (fresh : id ∉ before)
    (alone : ∀ part, b.part server id = some part → part.Due server b.world b.client →
      ¬ Woken server b before part.sender → Grouped server b part.sender →
      ∀ sender, Woken server b before sender → ¬ Grouped server b sender)
    (passes : Passes server b.world b.client b.waves.keys (fun id => b.part server id) before id)
    (visit : Visit server id s t) (quiet : t.Quiet) :
    ∃ more, Follows server b (before ++ [id]) (packets ++ more) t := by
  have client := follows.trace.client
  have world := follows.trace.world
  rcases visit.sends quiet with ⟨rfl, passed⟩ | ⟨part, ids, packet, isPart, due, isFresh, sends⟩
  · refine ⟨[], ?_⟩
    rw [List.append_nil]
    apply follows.leaves
    intro part isPart asleep due
    apply follows.fresh_of_due fresh passes isPart asleep due
    exact passed part (follows.asleep id part isPart asleep) (by rw [client, world]; exact due)
  · rw [client, world] at due
    refine ⟨[packet], ?_⟩
    obtain ⟨part', isPart', -⟩ := follows.trace.part_before isPart
    by_cases woken : Woken server b before part'.sender
    · exact absurd (follows.not_due_again known fresh passes isPart' woken isPart due) isFresh
    · obtain rfl := Option.some.inj (isPart.symm.trans (follows.asleep id part' isPart' woken))
      exact follows.sends isPart' due woken (alone part isPart' due woken) sends

/-- **A walk that passes every sound sends each sender once, and by itself.** -/
theorem walk {ids rest : List Nat} (follows : Follows server b before packets s)
    (walk : Walk server ids s u) (quiet : u.Quiet)
    (known : b.waves.keys = before ++ (ids ++ rest))
    (alone : ∀ sender sender', Woken server b b.waves.keys sender → Grouped server b sender →
      Woken server b b.waves.keys sender' → Grouped server b sender' → sender = sender')
    (passes : ∀ first id behind, ids = first ++ id :: behind → Passes server b.world b.client
      b.waves.keys (fun id => b.part server id) (before ++ first) id) :
    ∃ more, Follows server b (before ++ ids) (packets ++ more) u := by
  induction walk generalizing before packets with
  | nil s => exact ⟨[], by rw [List.append_nil, List.append_nil]; exact follows⟩
  | @cons id ids s t u sound isVisit later ih =>
      have still := (later.quiet quiet).moves
      have isBefore : before ⊆ b.waves.keys := by
        rw [known]
        exact List.subset_append_left ..
      have isKey : id ∈ b.waves.keys := by
        rw [known]
        simp
      have fresh : id ∉ before := (Waves.not_mem_of_keys known).1
      have here := passes [] id ids rfl
      rw [List.append_nil] at here
      obtain ⟨more, first⟩ := follows.visit isBefore fresh (by
        intro part isPart due asleep grouped sender woken grouped'
        have same := alone sender part.sender (woken.mono isBefore) grouped'
          ⟨id, isKey, part, isPart, due, rfl⟩ grouped
        exact asleep (same ▸ woken)) here isVisit still
      obtain ⟨more', ends⟩ := ih (first.moves sound) quiet
        (by rw [known, List.append_assoc]; rfl) (by
          intro first k behind same
          rw [List.append_assoc]
          exact passes (id :: first) k behind (by rw [same]; rfl))
      refine ⟨more ++ more', ?_⟩
      rw [List.append_assoc, List.append_assoc] at ends
      exact ends

end Follows

/-- A walk that finds what it takes for granted throws nothing. -/
theorem not_throws_of_fair {first rest : List Nat} (walk : Walk server first b u) (quiet : u.Quiet)
    (start : Follows server b [] [] b) (known : b.waves.keys = first ++ id :: rest)
    (fair : Fair server b.world b.client b.waves.keys fun id => b.part server id) :
    ¬ u.Throws server id := by
  rintro ⟨part, isPart, due, isFresh, -, behind⟩
  obtain ⟨more, follows⟩ := start.walk walk quiet (by rw [known]; rfl) fair.oneGroup (by
    intro earlier k later same
    refine fair.passes earlier k (later ++ id :: rest) ?_
    rw [known, same, List.append_assoc, List.cons_append])
  have isBefore : first ⊆ b.waves.keys := by
    rw [known]
    exact List.subset_append_left ..
  obtain ⟨part', isPart', -⟩ := follows.trace.part_before isPart
  rw [follows.trace.client, follows.trace.world] at due
  have asleep : ¬ Woken server b first part'.sender := fun woken =>
    isFresh (follows.not_due_again isBefore (Waves.not_mem_of_keys known).1
      (fair.passes first id rest known) isPart' woken isPart due)
  obtain rfl := Option.some.inj (isPart.symm.trans (follows.asleep id part' isPart' asleep))
  -- the sounds of the sender are what they were
  refine behind fun k isId partK isPartK => ?_
  obtain ⟨other, isOther, sameK⟩ := follows.trace.part_before isPartK
  obtain ⟨partK', isPartK', senderK⟩ := mem_group_iff.1 isId
  obtain rfl := Option.some.inj (isPartK.symm.trans isPartK')
  have isSender : other.sender = part.sender := sameK.trans senderK
  obtain rfl := Option.some.inj
    (isPartK.symm.trans (follows.asleep k other isOther (isSender ▸ asleep)))
  exact fair.inside k partK isOther
    ⟨id, Waves.mem_keys_of_part isPart', part, isPart', due, isSender.symm⟩

/-- A client is served, when the loop finds what it takes for granted. -/
theorem served_of_fair (follows : Follows server b b.waves.keys packets u)
    (fair : Fair server b.world b.client b.waves.keys fun id => b.part server id) :
    Served server b.world b.client b.waves.keys (fun id => b.part server id) packets
      fun id => u.part server id := by
  have wanted (id : Nat) : Wanted server b.world b.client b.waves.keys
      (fun id => b.part server id) id ↔ _ := wanted_iff fair.plays
  constructor
  case once => exact follows.once
  case exact => exact fun id => (follows.exact id).trans (wanted id).symm
  case taken => exact follows.taken
  case mixed => exact follows.mixed
  case grouped =>
    intro packet isPacket id part isPart
    rw [(follows.trace.groups packet isPacket).mem_iff]
    constructor
    · intro isMember
      obtain ⟨part', isPart', sender⟩ := mem_group_iff.1 isMember
      obtain rfl := Option.some.inj (isPart.symm.trans isPart')
      have isTaken := (follows.trace.groups packet isPacket).mem_iff.2 isMember
      have woken := (follows.exact id).1 (mem_takenIds_iff.2 ⟨packet, isPacket, isTaken⟩)
      exact ⟨(wanted id).2 woken, sender⟩
    · exact fun isWanted => mem_group_iff.2 ⟨part, isPart, isWanted.2⟩
  case advanced =>
    intro id part isPart
    by_cases woken : Woken server b b.waves.keys part.sender
    · obtain ⟨unit, -, moved⟩ := follows.woken id part isPart woken
      refine ⟨_, moved, fun _ => rfl, fun unwanted => absurd ?_ unwanted⟩
      exact (wanted id).2 ⟨part, isPart, woken⟩
    · refine ⟨part, follows.asleep id part isPart woken, fun isWanted => absurd ?_ woken,
        fun _ => rfl⟩
      obtain ⟨part', isPart', woken⟩ := (wanted id).1 isWanted
      obtain rfl := Option.some.inj (isPart.symm.trans isPart')
      exact woken

/-! ## Clients that are served -/

section Served

variable (trace : Trace server b b.waves.keys packets u)
  (served : Served server b.world b.client b.waves.keys (fun id => b.part server id) packets
    fun id => u.part server id)

include trace served

omit trace in
/-- A sender that is woken is sent a packet. -/
theorem packet_of_woken {sender : UInt8} (woken : Woken server b b.waves.keys sender) :
    ∃ packet ∈ packets, packet.sender = sender := by
  obtain ⟨id, isKey, part, isPart, due, same⟩ := woken
  obtain ⟨packet, isPacket, isTaken⟩ := mem_takenIds_iff.1
    ((served.exact id).2 (wanted_of_due isKey isPart due))
  have isSender := ((served.grouped packet isPacket id part isPart).1 isTaken).2
  exact ⟨packet, isPacket, isSender.symm.trans same⟩

/-- And with it each of its sounds. -/
theorem taken_of_woken {id : Nat} {part : Part} (isPart : b.part server id = some part)
    (woken : Woken server b b.waves.keys part.sender) :
    ∃ packet ∈ packets, id ∈ packet.sources.map Source.id := by
  obtain ⟨packet, isPacket, sender⟩ := packet_of_woken served woken
  exact ⟨packet, isPacket, (trace.groups packet isPacket).mem_iff.2
    (mem_group_iff.2 ⟨part, isPart, sender.symm⟩)⟩

theorem plays_of_served (id : Nat) (part : Part) (isPart : b.part server id = some part)
    (woken : Woken server b b.waves.keys part.sender) : part.receiver.state = .play := by
  obtain ⟨packet, isPacket, isTaken⟩ := taken_of_woken trace served isPart woken
  obtain ⟨⟨part', isPart', -, plays, -⟩, -⟩ :=
    (served.grouped packet isPacket id part isPart).1 isTaken
  rw [Option.some.inj (isPart.symm.trans isPart')]
  exact plays

/-- What was taken was not behind the end of its wave. -/
theorem inside_of_served (id : Nat) (part : Part) (isPart : b.part server id = some part)
    (woken : Woken server b b.waves.keys part.sender) : part.Inside := by
  obtain ⟨packet, isPacket, isTaken⟩ := taken_of_woken trace served isPart woken
  obtain ⟨source, isSource, rfl⟩ := List.mem_map.1 isTaken
  obtain ⟨part', isPart', same⟩ := served.taken packet isPacket source isSource
  obtain rfl := Option.some.inj (isPart.symm.trans isPart')
  have within := trace.within packet isPacket source isSource part isPart
  rw [same] at within
  exact within

omit served in
theorem sender_of_subset {first second : Sent} (isFirst : first ∈ packets)
    (isSecond : second ∈ packets) (within : first.sources ⊆ second.sources) :
    first.sender = second.sender := by
  obtain ⟨id, -, isMember⟩ := trace.visited first isFirst
  have isTaken := (trace.groups first isFirst).mem_iff.2 isMember
  have isOther := (trace.groups second isSecond).mem_iff.1 (List.map_subset _ within isTaken)
  obtain ⟨part, isPart, sender⟩ := mem_group_iff.1 isMember
  obtain ⟨part', isPart', sender'⟩ := mem_group_iff.1 isOther
  rw [← sender, ← sender', Option.some.inj (isPart.symm.trans isPart')]

/-- What is mixed for one sender is mixed for the next one. -/
theorem oneGroup_of_served (sender sender' : UInt8) (woken : Woken server b b.waves.keys sender)
    (grouped : Grouped server b sender) (woken' : Woken server b b.waves.keys sender')
    (grouped' : Grouped server b sender') : sender = sender' := by
  obtain ⟨first, isFirst, rfl⟩ := packet_of_woken served woken
  obtain ⟨second, isSecond, rfl⟩ := packet_of_woken served woken'
  by_cases same : first = second
  · rw [same]
  · rcases trace.meets isFirst isSecond (Ne.symm same) grouped grouped' with within | within
    · rw [(served.mixed second isSecond).1] at within
      exact sender_of_subset trace isFirst isSecond within
    · rw [(served.mixed first isFirst).1] at within
      exact (sender_of_subset trace isSecond isFirst within).symm

end Served

/-! ## A sound of a client that is served -/

section Visit

variable {more : List Sent} {behind : List Nat} {sound : Option (Cursor Nat)}
  (follows : Follows server b before packets s)
  (known : b.waves.keys = before ++ id :: behind)
  (served : Served server b.world b.client b.waves.keys (fun id => b.part server id)
    (packets ++ more) fun id => u.part server id)
  (visit : Visit server id s t) (walk : Walk server behind { t with sound } u)
  (quiet : u.Quiet) (sent : u.sent = s.sent ++ more)

include follows known served visit walk quiet sent

/-- The sound with the number of the client is marked behind several sounds of another sender, and
is not sent. -/
theorem marked_of_served (isPart : b.part server id = some part)
    (due : part.Due server b.world b.client) (isHandled : id ∈ s.handled) :
    Grouped server b part.sender ∨ Woken server b before part.sender := by
  have still := (walk.quiet quiet).moves
  rcases visit.sends still with ⟨rfl, -⟩ | ⟨_, _, _, _, _, fresh, _⟩
  · have isKey : id ∈ b.waves.keys := Waves.mem_keys_of_part isPart
    have isTaken := (served.exact id).2 (wanted_of_due isKey isPart due)
    rw [takenIds_append, List.mem_append, follows.exact] at isTaken
    rcases isTaken with ⟨part', isPart', woken⟩ | isLater
    · obtain rfl := Option.some.inj (isPart.symm.trans isPart')
      exact .inr woken
    · -- the packet was sent for another sound of the sender
      obtain ⟨later, trace⟩ := (Trace.nil server { t with sound }).walk walk quiet
      obtain rfl := List.append_cancel_left (sent.symm.trans trace.sent)
      obtain ⟨packet, isPacket, isMember⟩ := mem_takenIds_iff.1 isLater
      have group : Sweep.group server packet.sender { t with sound } =
          b.group server packet.sender := (follows.trace.moves sound).group _
      obtain ⟨k, isBehind, isOther⟩ := trace.visited packet isPacket
      rw [(trace.groups packet isPacket).mem_iff, group] at isMember
      rw [group] at isOther
      obtain ⟨part', isPart', sender⟩ := mem_group_iff.1 isMember
      obtain rfl := Option.some.inj (isPart.symm.trans isPart')
      by_contra one
      have single : b.group server part.sender = [id] :=
        groupOf_of_one isKey isPart fun grouped => one (.inl grouped)
      rw [← sender, single] at isOther
      exact (Waves.not_mem_of_keys known).2 (List.mem_singleton.1 isOther ▸ isBehind)
  · exact absurd isHandled fresh

/-- A sound that is due again at once is sent again. -/
theorem later_of_served (isPart : b.part server id = some part)
    (plays : part.receiver.state = .play) (woken : Woken server b before part.sender)
    (grouped : Grouped server b part.sender) (other : id ≠ b.client) :
    0 < part.offset 1000 + server.delay b.client id := by
  by_contra none
  have still := (walk.quiet quiet).moves
  obtain ⟨unit, isUnit, moved⟩ := follows.woken id part isPart woken
  rw [isUnit grouped] at moved
  have due : Part.Due server s.world s.client (part.advanced server b.client 1000 id) := by
    rw [follows.trace.world, follows.trace.client]
    exact ⟨woken.unmuted, plays, Part.advanced_now_iff.2 (by omega)⟩
  have fresh : id ∉ s.handled := by
    intro isHandled
    rcases follows.handled id isHandled with earlier | ⟨isClient, -⟩
    · exact (Waves.not_mem_of_keys known).1 earlier
    · exact other isClient
  rcases visit.sends still with ⟨rfl, passed⟩ | ⟨part', ids, packet, isPart', -, -, sends⟩
  · exact fresh (passed _ moved due)
  · obtain rfl := Option.some.inj (moved.symm.trans isPart')
    have trace := follows.trace.sends moved sends
    obtain ⟨later, ends⟩ := (trace.moves sound).walk walk quiet
    have same : more = packet :: later := by
      have ends := ends.sent
      rw [sent, follows.trace.sent, List.append_assoc, List.append_assoc] at ends
      exact List.append_cancel_left (List.append_cancel_left ends)
    have isTaken : id ∈ takenIds more := by
      refine mem_takenIds_iff.2 ⟨packet, same ▸ List.mem_cons_self, ?_⟩
      rw [(trace.groups packet (by simp)).mem_iff, sends.takes.2.1]
      exact mem_group_iff.2 ⟨part, isPart, rfl⟩
    have once := served.once
    rw [takenIds_append, List.nodup_append] at once
    exact once.2.2 id ((follows.exact id).2 ⟨part, isPart, woken⟩) id isTaken rfl

end Visit

/-- A client that is served is passed by the next sound. -/
theorem passes_of_served {behind : List Nat} (start : Follows server b [] [] b)
    (walk : Walk server b.waves.keys b u) (quiet : u.Quiet)
    (sent : u.sent = b.sent ++ packets)
    (served : Served server b.world b.client b.waves.keys (fun id => b.part server id) packets
      fun id => u.part server id)
    (known : b.waves.keys = before ++ id :: behind)
    (earlier : ∀ first k rest, before = first ++ k :: rest → Passes server b.world b.client
      b.waves.keys (fun id => b.part server id) first k) :
    Passes server b.world b.client b.waves.keys (fun id => b.part server id) before id := by
  obtain ⟨more, trace⟩ := (Trace.nil server b).walk walk quiet
  obtain rfl := List.append_cancel_left (sent.symm.trans trace.sent)
  have alone := oneGroup_of_served trace served
  rw [known] at walk
  obtain ⟨s, first, rest⟩ := walk.split
  obtain ⟨firstly, follows⟩ := start.walk first (rest.quiet quiet) (by rw [known]; rfl) alone
    earlier
  rw [List.nil_append, List.nil_append] at follows
  cases rest with
  | cons sound visit later =>
      -- what is sent from here on
      obtain ⟨secondly, same, ends⟩ : ∃ secondly, packets = firstly ++ secondly ∧
          u.sent = s.sent ++ secondly := by
        obtain ⟨all, whole⟩ := follows.trace.walk (.cons sound visit later) quiet
        refine ⟨all, ?_, ?_⟩
        · exact List.append_cancel_left (trace.sent.symm.trans whole.sent)
        · rw [whole.sent, follows.trace.sent, List.append_assoc]
      subst same
      intro sender woken grouped part isPart
      constructor
      · intro isClient due
        have isHandled : id ∈ s.handled := isClient ▸ follows.marked sender woken grouped
        have isBefore : before ⊆ b.waves.keys := by
          rw [known]
          exact List.subset_append_left ..
        have isKey : id ∈ b.waves.keys := Waves.mem_keys_of_part isPart
        rcases marked_of_served follows known served visit later quiet ends isPart due isHandled
          with grouped' | woken'
        · exact alone part.sender sender ⟨id, isKey, part, isPart, due, rfl⟩ grouped'
            (woken.mono isBefore) grouped
        · by_cases grouped' : Grouped server b part.sender
          · exact alone part.sender sender (woken'.mono isBefore) grouped'
              (woken.mono isBefore) grouped
          · have earlier := woken'.mem_of_one isBefore isKey isPart grouped'
            exact absurd earlier (Waves.not_mem_of_keys known).1
      · intro other same
        subst same
        have plays := plays_of_served trace served id part isPart
          (woken.mono (by rw [known]; exact List.subset_append_left ..))
        exact later_of_served follows known served visit later quiet ends isPart plays woken
          grouped other

/-- **A client is served exactly when the walk finds what it takes for granted.** -/
theorem served_iff_fair (start : Follows server b [] [] b) (walk : Walk server b.waves.keys b u)
    (quiet : u.Quiet) (sent : u.sent = b.sent ++ packets) :
    Served server b.world b.client b.waves.keys (fun id => b.part server id) packets
        (fun id => u.part server id) ↔
      Fair server b.world b.client b.waves.keys fun id => b.part server id := by
  constructor
  · intro served
    obtain ⟨more, trace⟩ := (Trace.nil server b).walk walk quiet
    obtain rfl := List.append_cancel_left (sent.symm.trans trace.sent)
    refine ⟨plays_of_served trace served, inside_of_served trace served,
      oneGroup_of_served trace served, ?_⟩
    intro before
    -- a sound is passed when those before it are
    induction length : before.length using Nat.strong_induction_on generalizing before with
    | _ n ih =>
        intro id behind known
        apply passes_of_served start walk quiet sent served known
        intro first k rest split
        refine ih first.length ?_ first rfl k (rest ++ id :: behind) ?_
        · rw [← length, split, List.length_append, List.length_cons]
          omega
        · rw [known, split, List.append_assoc, List.cons_append]
  · intro fair
    obtain ⟨more, follows⟩ := start.walk walk quiet (List.append_nil _).symm fair.oneGroup
      (fun first id behind same => fair.passes first id behind same)
    obtain rfl := List.append_cancel_left (sent.symm.trans follows.trace.sent)
    exact served_of_fair follows fair

end Sweep

end Refsapi.Revoice
