/-
# Revoice.Walks -- the walk of one client, when nothing is reported

A walk that reports nothing visits every sound once, or an exception ends it at one of them.
Whatever it finds, each of its packets holds the sounds of one sender, none of them from behind the
end of its wave, and what was mixed for one sender with several sounds is still in the mix of the
next one (`Trace`).
-/
import Refsapi.Revoice.Parts

namespace Refsapi.Revoice

set_option autoImplicit false

/-- The sum of samples, in the order in which they were taken. -/
def mixOf (sources : List Source) : List Int16 :=
  sources.foldl (fun mix source => mixInto mix source.samples) []

/-! ## Walks without reports -/

namespace Sweep

variable {σ : Type} {server : Server σ}

/-- The walk visits some sounds; the iterator is another matter. -/
inductive Walk (server : Server σ) : List Nat → Sweep σ → Sweep σ → Prop where
  | nil (s : Sweep σ) : Walk server [] s s
  | cons {id : Nat} {ids : List Nat} {s t u : Sweep σ} (sound : Option (Cursor Nat)) :
      Visit server id s t → Walk server ids { t with sound } u → Walk server (id :: ids) s u

theorem Visit.completed {id : Nat} {s t : Sweep σ} (visit : Visit server id s t) :
    s.completed <+: t.completed := by
  cases visit with
  | leaves => exact List.prefix_rfl
  | completes t reported => exact reported ▸ List.prefix_append ..
  | sendsOne | sendsGroup | throws => exact List.prefix_rfl

/-- Nothing was reported, and no exception has left the frame. -/
structure Quiet (s : Sweep σ) : Prop where
  completed : s.completed = []
  thrown : s.thrown = false

theorem Quiet.moves {sound : Option (Cursor Nat)} {s : Sweep σ}
    (quiet : Quiet { s with sound }) : s.Quiet := ⟨quiet.completed, quiet.thrown⟩

theorem Visit.quiet {id : Nat} {s t : Sweep σ} (visit : Visit server id s t) (quiet : t.Quiet) :
    s.Quiet := by
  cases visit with
  | leaves => exact quiet
  | completes t reported =>
      rw [quiet.completed] at reported
      simp at reported
  | sendsOne | sendsGroup => exact ⟨quiet.completed, quiet.thrown⟩
  | throws => exact absurd quiet.thrown Bool.noConfusion

theorem Visit.throws_of_thrown {id : Nat} {s t : Sweep σ} (visit : Visit server id s t)
    (before : s.thrown = false) (quiet : t.completed = []) (thrown : t.thrown = true) :
    s.Throws server id := by
  cases visit with
  | throws throws => exact throws
  | completes t reported =>
      rw [quiet] at reported
      simp at reported
  | leaves | sendsOne | sendsGroup => exact absurd (before.symm.trans thrown) Bool.noConfusion

/-- A walk that ends with nothing reported began so. -/
theorem Walk.quiet {ids : List Nat} {s u : Sweep σ} (walk : Walk server ids s u)
    (quiet : u.Quiet) : s.Quiet := by
  induction walk with
  | nil => exact quiet
  | cons _ visit _ ih => exact visit.quiet (ih quiet).moves

theorem completed_of_step {s t : Sweep σ} (moved : s.step server = .ok t) :
    s.completed <+: t.completed := by
  by_cases turns : ∀ id, s.sound ≠ some (.at id)
  · rcases moved_of_turn turns moved with ⟨-, rfl⟩ | rfl
    · exact List.prefix_rfl
    · exact List.prefix_rfl
  · obtain ⟨id, here⟩ := not_forall_not.1 turns
    obtain ⟨cursor, -, rfl⟩ := moved_of_step here moved
    exact (visit_spec server id s).completed

theorem completed_of_comes {s t : Sweep σ} (comes : Comes server s t) :
    s.completed <+: t.completed :=
  comes.invariant (I := fun t => s.completed <+: t.completed)
    (fun _ _ before _ moved => before.trans (completed_of_step moved)) List.prefix_rfl

/-- A sweep that is not done has thrown nothing. -/
theorem quiet_of_goes {s t : Sweep σ} (comes : Comes server s t) (quiet : t.completed = [])
    (goes : s.done server = false) : s.Quiet where
  completed := by
    have before := completed_of_comes comes
    rw [quiet, List.prefix_nil] at before
    exact before
  thrown := (Bool.or_eq_false_iff.1 goes).1

/-- A walk that reports nothing visits each sound once, or throws at one of them. -/
theorem walk_of_comes {behind : List Nat} {s t : Sweep σ} {before : List Nat}
    (comes : Comes server s t) (ended : t.done server = true) (quiet : t.completed = [])
    (goes : s.done server = false) (isAt : s.sound = some (Cursor.first behind))
    (keys : s.waves.keys = before ++ behind) :
    (∃ u, Walk server behind s u ∧ u.Quiet ∧
      Comes server { u with client := s.client + 1, sound := none } t) ∨
    t.thrown = true ∧ ∃ first id rest u, behind = first ++ id :: rest ∧ Walk server first s u ∧
      u.Quiet ∧ u.Throws server id := by
  induction behind generalizing s before with
  | nil =>
      have isQuiet := quiet_of_goes comes quiet goes
      rcases Steps.comes_iff.1 comes with rfl | ⟨-, next, moved, comes⟩
      · rw [goes] at ended
        cases ended
      · rw [step, isAt] at moved
        cases moved
        exact .inl ⟨s, .nil s, isQuiet, comes⟩
  | cons id behind ih =>
      have isQuiet := quiet_of_goes comes quiet goes
      rcases Steps.comes_iff.1 comes with rfl | ⟨-, next, moved, comes⟩
      · rw [goes] at ended
        cases ended
      · obtain ⟨cursor, moves, rfl⟩ := moved_of_step isAt moved
        have visit := visit_spec server id s
        have visits := visits server id s
        generalize s.visit server id = result at moves comes visit visits
        cases visits with
        | begins _ t' _ _ _ _ _ _ _ reported =>
            have more := completed_of_comes comes
            rw [quiet, List.prefix_nil] at more
            rw [show t'.completed = [] from more] at reported
            simp at reported
        | stays t' _ keeps =>
            have keys' : t'.waves.keys = before ++ id :: behind := keeps.keys.trans keys
            have fresh : id ∉ before := (Waves.not_mem_of_keys keys').1
            simp only [keys', Cursor.next_append fresh, Except.ok.injEq] at moves
            subst moves
            by_cases throws : t'.thrown = true
            · have isDone : done server { t' with sound := some (Cursor.first behind) } = true := by
                rw [done, throws]
                rfl
              obtain rfl := (Steps.comes_iff.1 comes).resolve_right fun later => by
                rw [isDone] at later
                cases later.1
              refine .inr ⟨throws, [], id, behind, s, rfl, .nil s, isQuiet, ?_⟩
              exact visit.throws_of_thrown isQuiet.thrown quiet throws
            · have goes' : done server { t' with sound := some (Cursor.first behind) } = false := by
                rw [done, Bool.eq_false_of_not_eq_true throws, keeps.client]
                exact (Bool.or_eq_false_iff.1 goes).2
              have keysBehind : t'.waves.keys = (before ++ [id]) ++ behind := by simp [keys']
              rcases ih comes goes' rfl keysBehind with
                ⟨u, walk, ends, comes⟩ | ⟨thrown, first, k, rest, u, same, walk, ends, throws⟩
              · refine .inl ⟨u, .cons _ visit walk, ends, ?_⟩
                rw [← keeps.client]
                exact comes
              · exact .inr ⟨thrown, id :: first, k, rest, u, by rw [same]; rfl,
                  .cons _ visit walk, ends, throws⟩

/-! ## Packets -/

/-- A packet is sent for a sound that is due, with the samples of those of its sender; the number of
the client is marked as handled when there are several of them, and the sound otherwise. -/
structure Sends (server : Server σ) (id : Nat) (part : Part) (ids : List Nat) (packet : Sent)
    (s t : Sweep σ) : Prop where
  client : t.client = s.client
  world : t.world = s.world
  group : ids.Perm (s.group server part.sender)
  within : s.Within server ids
  advances : ∃ unit, (1 < ids.length → unit = 1000) ∧
    s.waves.Advances server s.world s.client unit ids t.waves
  takes : packet.client = s.client ∧ packet.sender = part.sender ∧
    packet.sources = s.sources server ids
  sent : t.sent = s.sent ++ [packet]
  handled : ∀ k, k ∈ t.handled ↔
    k ∈ s.handled ∨ if 1 < ids.length then k = s.client else k = id
  mixed : if 1 < ids.length then
      t.mixed = s.mixed ++ packet.sources ∧ packet.mixed = s.mixed ++ packet.sources
    else t.mixed = s.mixed ∧ packet.mixed = packet.sources
  samples : s.mix = mixOf s.mixed → t.mix = mixOf t.mixed ∧ packet.samples = mixOf packet.mixed

theorem mixOf_append (first second : List Source) : mixOf (first ++ second) =
    second.foldl (fun mix source => mixInto mix source.samples) (mixOf first) :=
  List.foldl_append ..

theorem mixInto_nil (samples : List Int16) : mixInto [] samples = samples := by
  cases samples <;> rfl

/-- A visit that reports nothing leaves the sweep as it is or sends a packet. -/
theorem Visit.sends {id : Nat} {s t : Sweep σ} (visit : Visit server id s t) (quiet : t.Quiet) :
    (t = s ∧ ∀ part, s.part server id = some part → part.Due server s.world s.client →
      id ∈ s.handled) ∨
    ∃ part ids packet, s.part server id = some part ∧ part.Due server s.world s.client ∧
      id ∉ s.handled ∧ Sends server id part ids packet s t := by
  cases visit with
  | leaves passed => exact .inl ⟨rfl, passed⟩
  | completes t reported =>
      rw [quiet.completed] at reported
      simp at reported
  | throws => exact absurd quiet.thrown Bool.noConfusion
  | sendsOne part waves isPart due fresh single within advances =>
      have sources : s.sources server [id] = [part.source id] := by
        rw [Sweep.sources, List.filterMap_cons_some (by rw [isPart]; rfl), List.filterMap_nil]
      refine .inr ⟨part, [id],
        ⟨s.client, part.sender, [part.source id], [part.source id], part.samples⟩,
        isPart, due, fresh, ?_⟩
      have one : ¬ 1 < [id].length := by simp
      constructor
      case client | world | sent => rfl
      case group => rw [single]
      case within => exact within
      case advances => exact ⟨1000000, fun several => absurd several one, advances⟩
      case takes => exact ⟨rfl, rfl, sources.symm⟩
      case handled => intro k; rw [if_neg one, List.mem_cons, or_comm]
      case mixed => rw [if_neg one]; exact ⟨rfl, rfl⟩
      case samples => exact fun same => ⟨same, (mixInto_nil _).symm⟩
  | sendsGroup part ids waves mix isPart due fresh isGroup several within advances isMix =>
      refine .inr ⟨part, ids,
        ⟨s.client, part.sender, s.sources server ids, s.mixed ++ s.sources server ids, mix⟩,
        isPart, due, fresh, ?_⟩
      constructor
      case client | world | sent => rfl
      case group => exact isGroup
      case within => exact within
      case advances => exact ⟨1000, fun _ => rfl, advances⟩
      case takes => exact ⟨rfl, rfl, rfl⟩
      case handled =>
        intro k
        have some : ids.length ≠ 0 := by omega
        rw [if_pos several, List.mem_append, List.mem_replicate, or_comm]
        simp only [ne_eq, some, not_false_eq_true, true_and]
      case mixed => rw [if_pos several]; exact ⟨rfl, rfl⟩
      case samples =>
        intro same
        have sum : mix = mixOf (s.mixed ++ s.sources server ids) := by
          rw [isMix, mixOf_append, same]
        exact ⟨sum, sum⟩

/-! ## Traces -/

theorem group_congr {s t : Sweep σ} (keys : t.waves.keys = s.waves.keys)
    (senders : ∀ id, (t.part server id).map Part.sender = (s.part server id).map Part.sender)
    (sender : UInt8) : t.group server sender = s.group server sender := by
  rw [group, group, keys]
  refine List.filter_congr fun id _ => ?_
  have same := congrArg (Option.any fun k => decide (k = sender)) (senders id)
  rw [Option.any_map, Option.any_map] at same
  exact same

/-- The samples that are taken of sounds are of these sounds. -/
theorem ids_sources {s : Sweep σ} {ids : List Nat}
    (known : ∀ id ∈ ids, ∃ part, s.part server id = some part) :
    (s.sources server ids).map Source.id = ids := by
  induction ids with
  | nil => rfl
  | cons id ids ih =>
      obtain ⟨part, isPart⟩ := known id List.mem_cons_self
      rw [sources, List.filterMap_cons_some (by rw [isPart]; rfl), List.map_cons]
      exact congrArg _ (ih fun k isLater => known k (List.mem_cons_of_mem _ isLater))

/-- What a walk of a client does, whatever it finds. -/
structure Trace (server : Server σ) (b : Sweep σ) (ids : List Nat) (packets : List Sent)
    (s : Sweep σ) : Prop where
  client : s.client = b.client
  world : s.world = b.world
  keys : s.waves.keys = b.waves.keys
  senders : ∀ id, (s.part server id).map Part.sender = (b.part server id).map Part.sender
  waves : ∀ id, (s.part server id).map Part.wave = (b.part server id).map Part.wave
  elsewhere : ∀ j ≠ b.client, ∀ id,
    s.waves.part server b.world j id = b.waves.part server b.world j id
  sent : s.sent = b.sent ++ packets
  clients : ∀ packet ∈ packets, packet.client = b.client
  visited : ∀ packet ∈ packets, ∃ id ∈ ids, id ∈ b.group server packet.sender
  groups : ∀ packet ∈ packets,
    (packet.sources.map Source.id).Perm (b.group server packet.sender)
  within : ∀ packet ∈ packets, ∀ source ∈ packet.sources, ∀ part,
    b.part server source.id = some part → source.pos ≤ part.wave.numFrames
  mixed : ∀ packet ∈ packets, 1 < (b.group server packet.sender).length →
    packet.sources ⊆ s.mixed
  mixes : packets.Pairwise fun first second => 1 < (b.group server first.sender).length →
    1 < (b.group server second.sender).length → first.sources ⊆ second.mixed

namespace Trace

variable {b s t u : Sweep σ} {before : List Nat} {packets : List Sent} {id : Nat}

theorem nil (server : Server σ) (b : Sweep σ) : Trace server b [] [] b := by
  constructor
  case client | world | keys => rfl
  case senders | waves => exact fun _ => rfl
  case elsewhere => exact fun _ _ _ => rfl
  case sent => exact (List.append_nil _).symm
  case mixes => exact .nil
  all_goals exact fun _ none => absurd none List.not_mem_nil

theorem group (trace : Trace server b before packets s) (sender : UInt8) :
    s.group server sender = b.group server sender :=
  group_congr trace.keys trace.senders sender

/-- A sound is of the sender that it was of. -/
theorem part_before (trace : Trace server b before packets s) {part : Part}
    (isPart : s.part server id = some part) :
    ∃ part', b.part server id = some part' ∧ part'.sender = part.sender := by
  have same := trace.senders id
  rw [isPart] at same
  exact Option.map_eq_some_iff.1 same.symm

/-- A visit that leaves the sweep as it is. -/
theorem leaves (trace : Trace server b before packets s) (id : Nat) :
    Trace server b (before ++ [id]) packets s :=
  { trace with
    visited := fun packet isPacket => by
      obtain ⟨k, isBefore, isKey⟩ := trace.visited packet isPacket
      exact ⟨k, List.mem_append_left _ isBefore, isKey⟩ }

/-- A visit that sends a packet. -/
theorem sends (trace : Trace server b before packets s) {part : Part} {ids : List Nat}
    {packet : Sent} (isPart : s.part server id = some part)
    (sends : Sends server id part ids packet s t) :
    Trace server b (before ++ [id]) (packets ++ [packet]) t := by
  obtain ⟨unit, -, advances⟩ := sends.advances
  obtain ⟨client, sender, sources⟩ := sends.takes
  have isGroup : ids.Perm (b.group server packet.sender) := by
    rw [sender, ← trace.group]
    exact sends.group
  have isSources : packet.sources.map Source.id = ids := by
    rw [sources]
    refine ids_sources fun k isId => ?_
    obtain ⟨part', isPart', -⟩ := mem_group_iff.1 (sends.group.mem_iff.1 isId)
    exact ⟨part', isPart'⟩
  have kept : s.mixed ⊆ t.mixed := by
    have mixed := sends.mixed
    split at mixed
    · rw [mixed.1]
      exact List.subset_append_left ..
    · rw [mixed.1]
      exact List.Subset.refl _
  constructor
  case client => rw [sends.client, trace.client]
  case world => rw [sends.world, trace.world]
  case keys => rw [advances.keys, trace.keys]
  case senders =>
    intro k
    rw [← trace.senders, Sweep.part, sends.world, sends.client]
    exact advances.keeps (fun _ _ => rfl) k
  case waves =>
    intro k
    rw [← trace.waves, Sweep.part, sends.world, sends.client]
    exact advances.keeps (fun _ _ => rfl) k
  case elsewhere =>
    intro j other k
    rw [← trace.elsewhere j other, ← trace.world]
    exact advances.elsewhere j (trace.client ▸ other) k
  case sent => rw [sends.sent, trace.sent, List.append_assoc]
  case clients =>
    intro packet' isPacket
    rcases List.mem_append.1 isPacket with earlier | here
    · exact trace.clients packet' earlier
    · rw [List.mem_singleton.1 here, client, trace.client]
  case visited =>
    intro packet' isPacket
    rcases List.mem_append.1 isPacket with earlier | here
    · exact (trace.leaves id).visited packet' earlier
    · rw [List.mem_singleton.1 here, sender, ← trace.group]
      exact ⟨id, by simp, mem_group_iff.2 ⟨part, isPart, rfl⟩⟩
  case groups =>
    intro packet' isPacket
    rcases List.mem_append.1 isPacket with earlier | here
    · exact trace.groups packet' earlier
    · rw [List.mem_singleton.1 here, isSources]
      exact isGroup
  case within =>
    intro packet' isPacket source isSource part isPart
    rcases List.mem_append.1 isPacket with earlier | here
    · exact trace.within packet' earlier source isSource part isPart
    · rw [List.mem_singleton.1 here, sources] at isSource
      obtain ⟨k, isId, taken⟩ := List.mem_filterMap.1 isSource
      obtain ⟨part', isPart', rfl⟩ := Option.map_eq_some_iff.1 taken
      have same := trace.waves k
      rw [isPart', show b.part server k = some part from isPart] at same
      exact Option.some.inj same ▸ sends.within k isId part' isPart'
  case mixed =>
    intro packet' isPacket several
    rcases List.mem_append.1 isPacket with earlier | here
    · exact List.Subset.trans (trace.mixed packet' earlier several) kept
    · rw [List.mem_singleton.1 here] at several ⊢
      have mixed := sends.mixed
      rw [if_pos (isGroup.length_eq ▸ several)] at mixed
      rw [mixed.1]
      exact List.subset_append_right ..
  case mixes =>
    refine List.pairwise_append.2 ⟨trace.mixes, List.pairwise_singleton .., ?_⟩
    intro packet' earlier later here several' several
    rw [List.mem_singleton.1 here] at several ⊢
    have mixed := sends.mixed
    rw [if_pos (isGroup.length_eq ▸ several)] at mixed
    rw [mixed.2]
    exact List.Subset.trans (trace.mixed packet' earlier several') (List.subset_append_left ..)

/-- Of two packets with several sounds each, one is mixed with the other. -/
theorem meets (trace : Trace server b before packets s) {first second : Sent}
    (isFirst : first ∈ packets) (isSecond : second ∈ packets) (other : second ≠ first)
    (several : 1 < (b.group server first.sender).length)
    (several' : 1 < (b.group server second.sender).length) :
    first.sources ⊆ second.mixed ∨ second.sources ⊆ first.mixed := by
  obtain ⟨earlier, later, same⟩ := List.append_of_mem isFirst
  have mixes := trace.mixes
  rw [same, List.pairwise_append, List.pairwise_cons] at mixes
  rw [same] at isSecond
  rcases List.mem_append.1 isSecond with isEarlier | isLater
  · exact .inr (mixes.2.2 second isEarlier first List.mem_cons_self several' several)
  · exact .inl (mixes.2.1.1 second (List.mem_of_ne_of_mem other isLater) several several')

/-- The iterator is another matter. -/
theorem moves (trace : Trace server b before packets s) (sound : Option (Cursor Nat)) :
    Trace server b before packets { s with sound } :=
  { trace with }

/-- **A walk leaves a trace.** -/
theorem walk {ids : List Nat} (trace : Trace server b before packets s)
    (walk : Walk server ids s u) (quiet : u.Quiet) :
    ∃ more, Trace server b (before ++ ids) (packets ++ more) u := by
  induction walk generalizing before packets with
  | nil s => exact ⟨[], by rw [List.append_nil, List.append_nil]; exact trace⟩
  | cons sound visit rest ih =>
      rcases visit.sends (rest.quiet quiet).moves with
        ⟨rfl, -⟩ | ⟨part, _, packet, isPart, -, -, sends⟩
      · obtain ⟨more, ends⟩ := ih ((trace.leaves _).moves sound) quiet
        exact ⟨more, by rw [List.append_assoc] at ends; exact ends⟩
      · obtain ⟨more, ends⟩ := ih ((trace.sends isPart sends).moves sound) quiet
        refine ⟨packet :: more, ?_⟩
        rw [List.append_assoc, List.append_assoc] at ends
        exact ends

end Trace

theorem Walk.split {first second : List Nat} {s u : Sweep σ}
    (walk : Walk server (first ++ second) s u) :
    ∃ t, Walk server first s t ∧ Walk server second t u := by
  induction first generalizing s with
  | nil => exact ⟨s, .nil s, walk⟩
  | cons id first ih =>
      cases walk with
      | cons sound visit rest =>
          obtain ⟨t, before, behind⟩ := ih rest
          exact ⟨t, .cons sound visit before, behind⟩

end Sweep

end Refsapi.Revoice
