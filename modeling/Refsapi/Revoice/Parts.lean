/-
# Revoice.Parts -- what the sweep does to the sounds of one client

What a sound is for a client is a `Part`: its sender, the wave that the client is sent, and the
client's receiver.  To take samples of some sounds advances their parts for the client
(`Advances`), if none of them is behind the end of its wave (`Sweep.Within`); a visit of the sweep
to a sound changes nothing, reports the sound, sends it with those of its sender, or throws
(`Visit`).
-/
import Refsapi.Revoice.Sweep

namespace Refsapi.Revoice

set_option autoImplicit false

/-! ## Parts -/

/-- What a sound is for a client. -/
structure Part where
  sender : UInt8
  wave : Wave
  receiver : Receiver

namespace Part

/-- The position is not behind the end of the wave. -/
def Inside (part : Part) : Prop := part.receiver.currentPos ≤ part.wave.numFrames

instance (part : Part) : Decidable part.Inside := inferInstanceAs (Decidable (_ ≤ _))

/-- The samples that are due. -/
def samples (part : Part) : List Int16 :=
  (part.wave.getSamples part.receiver.currentPos (part.wave.sampleRate / 10)).getD []

theorem getSamples_of_inside {part : Part} (inside : part.Inside) :
    part.wave.getSamples part.receiver.currentPos (part.wave.sampleRate / 10) =
      some part.samples := by
  rw [samples, Wave.getSamples, if_pos (show _ ≤ _ from inside)]
  rfl

theorem getSamples_of_behind {part : Part} (behind : ¬ part.Inside) :
    part.wave.getSamples part.receiver.currentPos (part.wave.sampleRate / 10) = none :=
  if_neg behind

def source (id : Nat) (part : Part) : Source := ⟨id, part.receiver.currentPos, part.samples⟩

/-- The time that the samples take, counted in a fraction of a second. -/
def offset (unit : Nat) (part : Part) : Nat :=
  part.samples.length * unit / part.wave.sampleRate * (1000000000 / unit)

def setReceiver (receiver : Receiver) (part : Part) : Part := { part with receiver }

section Server

variable {σ : Type} (server : Server σ)

/-- The part behind the samples that are due. -/
def advanced (i unit id : Nat) (part : Part) : Part :=
  part.setReceiver
    { part.receiver with
      nextSend := server.now + part.offset unit + server.delay i id
      currentPos := part.receiver.currentPos + part.samples.length }

variable {server} in
theorem advanced_now_iff {i unit id : Nat} {part : Part} :
    (part.advanced server i unit id).receiver.nextSend ≤ server.now ↔
      part.offset unit + server.delay i id = 0 := by
  show server.now + part.offset unit + server.delay i id ≤ server.now ↔ _
  omega

/-- The client of an index does not mute the sender of the sound. -/
def Unmuted (world : σ) (i : Nat) (part : Part) : Prop :=
  server.mutes world i part.sender = false ∧ server.mutes world i 255 = false

/-- The sound is to be sent. -/
structure Due (world : σ) (i : Nat) (part : Part) : Prop where
  unmuted : part.Unmuted server world i
  plays : part.receiver.state = .play
  now : part.receiver.nextSend ≤ server.now

end Server

end Part

namespace Waves

theorem lookup_alter (id k : Nat) (change : Sound → Sound) (sounds : List (Nat × Sound)) :
    (sounds.map (alter id change)).lookup k =
      (sounds.lookup k).map fun sound => if k = id then change sound else sound := by
  induction sounds with
  | nil => rfl
  | cons entry sounds ih =>
      obtain ⟨key, sound⟩ := entry
      rw [List.map_cons, alter, List.lookup_cons, List.lookup_cons, ih]
      by_cases here : k = key
      · subst here
        rw [beq_self_eq_true]
        rfl
      · rw [beq_false_of_ne here]

theorem find_update (id k : Nat) (change : Sound → Sound) (waves : Waves) :
    (waves.update id change).find k =
      (waves.find k).map fun sound => if k = id then change sound else sound :=
  lookup_alter id k change waves.sounds

theorem find_eq_some_iff {id : Nat} {waves : Waves} {sound : Sound} :
    waves.find id = some sound ↔ (id, sound) ∈ waves.sounds := by
  constructor
  · intro found
    obtain ⟨before, behind, same, -⟩ := List.lookup_eq_some_iff.1 found
    rw [same]
    exact List.mem_append_right _ List.mem_cons_self
  · intro isSound
    obtain ⟨before, behind, same⟩ := List.append_of_mem isSound
    refine List.lookup_eq_some_iff.2 ⟨before, behind, same, fun entry isBefore => ?_⟩
    have distinct := waves.distinct
    rw [same, List.map_append, List.nodup_append] at distinct
    exact bne_iff_ne.2 fun same =>
      distinct.2.2 entry.1 (List.mem_map_of_mem isBefore) id List.mem_cons_self same.symm

/-- A sound is walked once. -/
theorem not_mem_of_keys {waves : Waves} {before behind : List Nat} {id : Nat}
    (known : waves.keys = before ++ id :: behind) : id ∉ before ∧ id ∉ behind := by
  have distinct : waves.keys.Nodup := waves.distinct
  rw [known, List.nodup_append, List.nodup_cons] at distinct
  exact ⟨fun earlier => distinct.2.2 id earlier id List.mem_cons_self rfl, distinct.2.1.1⟩

/-- What a sound is for the client of an index. -/
def part {σ : Type} (server : Server σ) (world : σ) (i id : Nat) (waves : Waves) : Option Part :=
  (waves.find id).bind fun sound => (sound.receivers i).map fun receiver =>
    ⟨sound.senderClientIndex, if server.speex world i then sound.wave8k else sound.wave16k,
      receiver⟩

section Part

variable {σ : Type} {server : Server σ} {world : σ} {waves : Waves} {i id : Nat} {part : Part}

theorem mem_keys_of_part (isPart : waves.part server world i id = some part) : id ∈ waves.keys := by
  obtain ⟨sound, found, -⟩ := Option.bind_eq_some_iff.1 isPart
  exact mem_keys_of_find found

theorem part_setReceiver (isPart : waves.part server world i id = some part)
    (receiver : Receiver) (j k : Nat) :
    (waves.update id (Sound.setReceiver i receiver)).part server world j k =
      if k = id ∧ j = i then some (part.setReceiver receiver) else waves.part server world j k := by
  obtain ⟨sound, found, isPart⟩ := Option.bind_eq_some_iff.1 isPart
  obtain ⟨before, isReceiver, rfl⟩ := Option.map_eq_some_iff.1 isPart
  rw [Waves.part, find_update]
  by_cases here : k = id
  · subst here
    by_cases client : j = i
    · subst client
      simp [found, Sound.setReceiver, Part.setReceiver]
    · simp [found, Sound.setReceiver, client, Waves.part]
  · simp only [here, false_and, if_false, Option.map_id', Waves.part]

end Part

section Advances

variable {σ : Type} {server : Server σ} {world : σ}

variable (server world) in
/-- Samples were taken of some sounds for a client, and the sounds are what they were otherwise. -/
structure Advances (i unit : Nat) (ids : List Nat) (before after : Waves) : Prop where
  keys : after.keys = before.keys
  here : ∀ id, after.part server world i id =
    if id ∈ ids then (before.part server world i id).map (Part.advanced server i unit id)
    else before.part server world i id
  elsewhere : ∀ j ≠ i, ∀ id, after.part server world j id = before.part server world j id

theorem Advances.nil (i unit : Nat) (waves : Waves) :
    Advances server world i unit [] waves waves :=
  ⟨rfl, fun _ => (if_neg List.not_mem_nil).symm, fun _ _ _ => rfl⟩

/-- One sound more. -/
theorem Advances.cons {i unit id : Nat} {ids : List Nat} {waves between after : Waves}
    (fresh : id ∉ ids) (first : Advances server world i unit [id] waves between)
    (rest : Advances server world i unit ids between after) :
    Advances server world i unit (id :: ids) waves after where
  keys := rest.keys.trans first.keys
  here k := by
    rw [rest.here, first.here]
    by_cases same : k = id
    · subst same
      rw [if_neg fresh, if_pos List.mem_cons_self, if_pos List.mem_cons_self]
    · simp only [List.mem_cons, same, false_or, List.not_mem_nil, or_false, if_false]
  elsewhere j other k := (rest.elsewhere j other k).trans (first.elsewhere j other k)

/-- Only receivers change. -/
theorem Advances.keeps {α : Type} {f : Part → α}
    (same : ∀ part receiver, f (Part.setReceiver receiver part) = f part) {i unit : Nat}
    {ids : List Nat} {before after : Waves}
    (advances : Advances server world i unit ids before after) (id : Nat) :
    (after.part server world i id).map f = (before.part server world i id).map f := by
  rw [advances.here]
  split
  · rw [Option.map_map]
    exact congrArg (fun g => Option.map g (before.part server world i id))
      (funext fun part => same part _)
  · rfl

end Advances

end Waves

/-! ## Taking samples -/

namespace Sweep

variable {σ : Type} {server : Server σ}

variable (server) in
/-- What a sound is for the client that is walked for. -/
def part (id : Nat) (s : Sweep σ) : Option Part := s.waves.part server s.world s.client id

variable (server) in
/-- What is taken of some sounds. -/
def sources (ids : List Nat) (s : Sweep σ) : List Source :=
  ids.filterMap fun id => (s.part server id).map (Part.source id)

theorem part_eq_some_iff {s : Sweep σ} {id : Nat} {part : Part} :
    s.part server id = some part ↔ ∃ sound receiver, s.waves.find id = some sound ∧
      sound.receivers s.client = some receiver ∧
      part = ⟨sound.senderClientIndex, s.wave server sound, receiver⟩ := by
  constructor
  · intro isPart
    obtain ⟨sound, found, isPart⟩ := Option.bind_eq_some_iff.1 isPart
    obtain ⟨receiver, isReceiver, rfl⟩ := Option.map_eq_some_iff.1 isPart
    exact ⟨sound, receiver, found, isReceiver, rfl⟩
  · rintro ⟨sound, receiver, found, isReceiver, rfl⟩
    simp only [Sweep.part, Waves.part, found, Option.bind_some, isReceiver, Option.map_some, wave]

variable (server) in
/-- No sound of some is behind the end of its wave. -/
def Within (ids : List Nat) (s : Sweep σ) : Prop :=
  ∀ id ∈ ids, ∀ part, s.part server id = some part → part.Inside

theorem within_cons {s : Sweep σ} {id : Nat} {ids : List Nat} :
    s.Within server (id :: ids) ↔ s.Within server [id] ∧ s.Within server ids := by
  rw [Within, List.forall_mem_cons, Within, List.forall_mem_singleton]
  rfl

/-- The sounds that are still to be taken are what they were. -/
theorem part_of_fresh {i unit id k : Nat} {ids : List Nat} {s : Sweep σ} {waves : Waves}
    (fresh : id ∉ ids) (isClient : s.client = i)
    (advances : s.waves.Advances server s.world i unit [id] waves) (isLater : k ∈ ids) :
    waves.part server s.world i k = s.part server k := by
  have other : k ∉ [id] := fun here => fresh (List.mem_singleton.1 here ▸ isLater)
  rw [advances.here, if_neg other, Sweep.part, isClient]

/-- The rule for `take`. -/
theorem take_spec (unit : Nat) {id : Nat} {s : Sweep σ} (within : s.Within server [id]) :
    ∃ waves, s.waves.Advances server s.world s.client unit [id] waves ∧
      s.take server unit id = some (s.sources server [id], { s with waves }) := by
  cases isPart : s.part server id with
  | none =>
      refine ⟨s.waves, ⟨rfl, fun k => ?_, fun _ _ _ => rfl⟩, ?_⟩
      · split
        · next here =>
            obtain rfl := List.mem_singleton.1 here
            rw [show s.waves.part server s.world s.client k = none from isPart]
            rfl
        · rfl
      · rw [sources, List.filterMap_cons_none (by rw [isPart]; rfl), List.filterMap_nil, take]
        split
        · rfl
        · next sound found =>
            split
            · rfl
            · next receiver isReceiver =>
                rw [part_eq_some_iff.2 ⟨sound, receiver, found, isReceiver, rfl⟩] at isPart
                cases isPart
  | some part =>
      have samples := Part.getSamples_of_inside (within id List.mem_cons_self part isPart)
      obtain ⟨sound, receiver, found, isReceiver, rfl⟩ := part_eq_some_iff.1 isPart
      have moves := Waves.part_setReceiver isPart
        (Part.advanced server s.client unit id
          ⟨sound.senderClientIndex, s.wave server sound, receiver⟩).receiver
      refine ⟨s.waves.update id (Sound.setReceiver s.client
        (Part.advanced server s.client unit id
          ⟨sound.senderClientIndex, s.wave server sound, receiver⟩).receiver),
        ⟨Waves.keys_update .., fun k => ?_, fun j other k => ?_⟩, ?_⟩
      · rw [moves]
        by_cases here : k = id
        · subst here
          rw [if_pos ⟨rfl, rfl⟩, if_pos (List.mem_singleton.2 rfl),
            show s.waves.part server s.world s.client k = _ from isPart]
          rfl
        · rw [if_neg (fun same => here same.1),
            if_neg (fun same => here (List.mem_singleton.1 same))]
      · rw [moves, if_neg fun same => other same.2]
      · rw [sources, List.filterMap_cons_some (by rw [isPart]; rfl), List.filterMap_nil, take,
          found]
        dsimp only at samples ⊢
        rw [isReceiver]
        dsimp only
        rw [advance, samples]
        rfl

theorem take_eq_none (unit : Nat) {id : Nat} {s : Sweep σ} (behind : ¬ s.Within server [id]) :
    s.take server unit id = none := by
  simp only [Within, List.forall_mem_singleton, not_forall] at behind
  obtain ⟨part, isPart, behind⟩ := behind
  have samples := Part.getSamples_of_behind behind
  obtain ⟨sound, receiver, found, isReceiver, rfl⟩ := part_eq_some_iff.1 isPart
  rw [take, found]
  dsimp only at samples ⊢
  rw [isReceiver]
  dsimp only
  rw [advance, samples]
  rfl

/-- The rule for a round of the loop over `need_mix`. -/
theorem mixOne_spec {s : Sweep σ} {id : Nat} (within : s.Within server [id]) :
    ∃ waves, s.waves.Advances server s.world s.client 1000 [id] waves ∧
      s.mixOne server id = some { s with
        waves
        handled := s.client :: s.handled
        mix := (s.sources server [id]).foldl (fun mix source => mixInto mix source.samples) s.mix
        mixed := s.mixed ++ s.sources server [id]
        taken := s.taken ++ s.sources server [id] } := by
  obtain ⟨waves, advances, taken⟩ :=
    take_spec (s := { s with handled := s.client :: s.handled }) 1000 within
  refine ⟨waves, advances, ?_⟩
  rw [mixOne, taken]
  rfl

/-- The rule for the loop over `need_mix`. -/
theorem mix_spec {ids : List Nat} (distinct : ids.Nodup) {s : Sweep σ}
    (within : s.Within server ids) :
    ∃ waves, s.waves.Advances server s.world s.client 1000 ids waves ∧
      ids.foldlM (mixOne server) s = some { s with
        waves
        handled := List.replicate ids.length s.client ++ s.handled
        mix := (s.sources server ids).foldl (fun mix source => mixInto mix source.samples) s.mix
        mixed := s.mixed ++ s.sources server ids
        taken := s.taken ++ s.sources server ids } := by
  induction ids generalizing s with
  | nil =>
      refine ⟨s.waves, .nil .., ?_⟩
      simp only [List.foldlM_nil, sources, List.filterMap_nil, List.append_nil, List.length_nil,
        List.replicate_zero, List.nil_append, List.foldl_nil]
      rfl
  | cons id ids ih =>
      obtain ⟨fresh, distinct⟩ := List.nodup_cons.1 distinct
      obtain ⟨here, others⟩ := within_cons.1 within
      obtain ⟨between, first, same⟩ := mixOne_spec here
      rw [List.foldlM_cons, same]
      generalize isNext : ({ s with
        waves := between
        handled := s.client :: s.handled
        mix := (s.sources server [id]).foldl (fun mix source => mixInto mix source.samples) s.mix
        mixed := s.mixed ++ s.sources server [id]
        taken := s.taken ++ s.sources server [id] } : Sweep σ) = next
      have later (k : Nat) (isLater : k ∈ ids) : next.part server k = s.part server k := by
        rw [← isNext]
        exact part_of_fresh fresh rfl first isLater
      have nextSources : next.sources server ids = s.sources server ids :=
        List.filterMap_congr fun k isLater => by rw [later k isLater]
      obtain ⟨waves, rest, ends⟩ := ih distinct (s := next) fun k isLater part isPart =>
        others k isLater part (later k isLater ▸ isPart)
      have split : s.sources server (id :: ids) =
          s.sources server [id] ++ s.sources server ids := by
        rw [sources, sources, sources, ← List.filterMap_append, List.singleton_append]
      rw [nextSources] at ends
      subst isNext
      refine ⟨waves, .cons fresh first rest, ends.trans ?_⟩
      rw [split]
      simp only [List.foldl_append, List.append_assoc, List.length_cons, List.replicate_succ',
        List.singleton_append]

theorem mix_eq_none {ids : List Nat} (distinct : ids.Nodup) {s : Sweep σ}
    (behind : ¬ s.Within server ids) : ids.foldlM (mixOne server) s = none := by
  induction ids generalizing s with
  | nil => exact absurd (fun _ none => absurd none List.not_mem_nil) behind
  | cons id ids ih =>
      obtain ⟨fresh, distinct⟩ := List.nodup_cons.1 distinct
      rw [List.foldlM_cons]
      by_cases here : s.Within server [id]
      · obtain ⟨between, first, same⟩ := mixOne_spec here
        rw [same]
        refine ih distinct fun within => behind ?_
        refine within_cons.2 ⟨here, fun k isLater part isPart => within k isLater part ?_⟩
        exact (part_of_fresh fresh rfl first isLater).trans isPart
      · have taken : { s with handled := s.client :: s.handled }.take server 1000 id = none :=
          take_eq_none 1000 here
        rw [mixOne, taken]
        rfl

/-- The sounds of a sender for the client that is walked for. -/
def group (server : Server σ) (sender : UInt8) (s : Sweep σ) : List Nat :=
  s.waves.keys.filter fun id => (s.part server id).any fun part => part.sender = sender

theorem mem_group_iff {s : Sweep σ} {sender : UInt8} {id : Nat} :
    id ∈ s.group server sender ↔ ∃ part, s.part server id = some part ∧ part.sender = sender := by
  simp only [group, List.mem_filter, Option.any_eq_true, decide_eq_true_eq]
  constructor
  · exact And.right
  · rintro ⟨part, isPart, same⟩
    exact ⟨Waves.mem_keys_of_part isPart, part, isPart, same⟩

theorem group_nodup (s : Sweep σ) (sender : UInt8) : (s.group server sender).Nodup :=
  s.waves.distinct.filter _

variable (server) in
/-- `need_mix` is the group of the sound. -/
theorem needMix_perm {s : Sweep σ} {id : Nat} {sound : Sound} {receiver : Receiver}
    (found : s.waves.find id = some sound) (isReceiver : sound.receivers s.client = some receiver)
    (plays : receiver.state = .play) :
    (s.needMix id sound receiver).Perm (s.group server sound.senderClientIndex) := by
  have others (k : Nat) : k ∈ ((s.waves.sounds.filter fun entry => receiver.state = .play &&
      id ≠ entry.1 && sound.senderClientIndex = entry.2.senderClientIndex &&
      (entry.2.receivers s.client).isSome).map Prod.fst) ↔ k ≠ id ∧ ∃ part,
        s.part server k = some part ∧ part.sender = sound.senderClientIndex := by
    simp only [List.mem_map, List.mem_filter, Bool.and_eq_true, decide_eq_true_eq, plays, true_and]
    constructor
    · rintro ⟨⟨k, sound2⟩, ⟨isSound, ⟨other, sender⟩, listens⟩, rfl⟩
      obtain ⟨receiver2, isReceiver2⟩ := Option.isSome_iff_exists.1 listens
      exact ⟨other.symm, _, part_eq_some_iff.2 ⟨sound2, receiver2,
        Waves.find_eq_some_iff.2 isSound, isReceiver2, rfl⟩, sender.symm⟩
    · rintro ⟨other, part, isPart, sender⟩
      obtain ⟨sound2, receiver2, found2, isReceiver2, rfl⟩ := part_eq_some_iff.1 isPart
      exact ⟨(k, sound2), ⟨Waves.find_eq_some_iff.1 found2, ⟨Ne.symm other, sender.symm⟩,
        by rw [isReceiver2]; rfl⟩, rfl⟩
  have here : s.part server id = some ⟨sound.senderClientIndex, s.wave server sound, receiver⟩ :=
    part_eq_some_iff.2 ⟨sound, receiver, found, isReceiver, rfl⟩
  refine (List.perm_ext_iff_of_nodup ?_ (group_nodup s _)).2 fun k => ?_
  · refine List.nodup_cons.2 ⟨fun isOther => ((others id).1 isOther).1 rfl, ?_⟩
    exact s.waves.distinct.sublist (List.filter_sublist.map Prod.fst)
  · rw [mem_group_iff, needMix, List.mem_cons, others]
    constructor
    · rintro (rfl | ⟨-, isPart⟩)
      · exact ⟨_, here, rfl⟩
      · exact isPart
    · intro isPart
      by_cases same : k = id
      · exact .inl same
      · exact .inr ⟨same, isPart⟩

/-! ## Visits -/

variable (server) in
/-- A sound that is due is to be mixed with one that is behind the end of its wave. -/
def Throws (id : Nat) (s : Sweep σ) : Prop :=
  ∃ part, s.part server id = some part ∧ part.Due server s.world s.client ∧ id ∉ s.handled ∧
    1 < (s.group server part.sender).length ∧ ¬ s.Within server (s.group server part.sender)

/-- What a visit does to the sweep: nothing, when the sound is handled or not due; it reports a
sound at its end; it sends the sound, alone or with those of its sender; or it throws. -/
inductive Visit (server : Server σ) (id : Nat) (s : Sweep σ) : Sweep σ → Prop where
  | leaves : (∀ part, s.part server id = some part → part.Due server s.world s.client →
      id ∈ s.handled) → Visit server id s s
  | completes (t : Sweep σ) : t.completed = s.completed ++ [(s.client, id)] → Visit server id s t
  | sendsOne (part : Part) (waves : Waves) : s.part server id = some part →
      part.Due server s.world s.client → id ∉ s.handled → s.group server part.sender = [id] →
      s.Within server [id] →
      s.waves.Advances server s.world s.client 1000000 [id] waves →
      Visit server id s { s with
        waves
        handled := id :: s.handled
        taken := [part.source id]
        sent := s.sent ++
          [⟨s.client, part.sender, [part.source id], [part.source id], part.samples⟩] }
  | sendsGroup (part : Part) (ids : List Nat) (waves : Waves) (mix : List Int16) :
      s.part server id = some part → part.Due server s.world s.client → id ∉ s.handled →
      ids.Perm (s.group server part.sender) → 1 < ids.length → s.Within server ids →
      s.waves.Advances server s.world s.client 1000 ids waves →
      mix = (s.sources server ids).foldl (fun mix source => mixInto mix source.samples) s.mix →
      Visit server id s { s with
        waves
        handled := List.replicate ids.length s.client ++ s.handled
        mix
        mixed := s.mixed ++ s.sources server ids
        taken := s.sources server ids
        sent := s.sent ++
          [⟨s.client, part.sender, s.sources server ids, s.mixed ++ s.sources server ids, mix⟩] }
  | throws : s.Throws server id → Visit server id s { s with thrown := true }

theorem visit_send {s : Sweep σ} {id : Nat} {sound : Sound} {receiver : Receiver}
    (found : s.waves.find id = some sound) (isReceiver : sound.receivers s.client = some receiver)
    (fresh : id ∉ s.handled)
    (due : Part.Due server s.world s.client
      ⟨sound.senderClientIndex, s.wave server sound, receiver⟩)
    (more : receiver.currentPos < (s.wave server sound).numFrames) :
    Visit server id s ((s.send server id sound receiver).getD { s with thrown := true }) := by
  have isPart : s.part server id = some ⟨sound.senderClientIndex, s.wave server sound, receiver⟩ :=
    part_eq_some_iff.2 ⟨sound, receiver, found, isReceiver, rfl⟩
  have perm := needMix_perm server found isReceiver due.plays
  rw [send]
  dsimp only
  split
  · next several =>
      have ordered := server.ordered (s.needMix id sound receiver)
      have isGroup := ordered.trans perm
      have distinct := isGroup.nodup_iff.2 (group_nodup s _)
      rw [← ordered.length_eq] at several
      by_cases within : s.Within server (server.bucketOrder (s.needMix id sound receiver))
      · obtain ⟨waves, advances, same⟩ := mix_spec (s := { s with taken := [] }) distinct within
        rw [same]
        exact .sendsGroup _ _ waves _ isPart due fresh isGroup several within advances rfl
      · have none : (server.bucketOrder (s.needMix id sound receiver)).foldlM (mixOne server)
            { s with taken := [] } = none := mix_eq_none distinct within
        rw [none]
        refine .throws ⟨_, isPart, due, fresh, isGroup.length_eq ▸ several, fun group => ?_⟩
        exact within fun k isId => group k (isGroup.mem_iff.1 isId)
  · next one =>
      have within : s.Within server [id] := by
        intro k here part isPart'
        obtain rfl := List.mem_singleton.1 here
        obtain rfl := Option.some.inj (isPart.symm.trans isPart')
        exact Nat.le_of_lt more
      obtain ⟨waves, advances, same⟩ :=
        take_spec (s := { s with handled := id :: s.handled }) 1000000 within
      have single : s.group server sound.senderClientIndex = [id] := by
        have short : (s.needMix id sound receiver).length = 1 := by
          have pos : 0 < (s.needMix id sound receiver).length := Nat.zero_lt_succ _
          omega
        have same : s.needMix id sound receiver = [id] := by
          rw [needMix] at short ⊢
          rw [List.eq_nil_of_length_eq_zero (Nat.succ.inj short)]
        rw [same] at perm
        exact List.perm_singleton.1 perm.symm
      have taken : sources server [id] { s with handled := id :: s.handled } =
          [Part.source id ⟨sound.senderClientIndex, s.wave server sound, receiver⟩] := by
        rw [sources, List.filterMap_cons_some (by rw [show Sweep.part server id
          { s with handled := id :: s.handled } = _ from isPart]; rfl), List.filterMap_nil]
      rw [same, taken]
      rw [Option.bind_eq_bind, Option.bind_some]
      dsimp only
      rw [List.flatMap_singleton]
      exact .sendsOne _ waves isPart due fresh single within advances

variable (server) in
/-- The rule for a visit. -/
theorem visit_spec (id : Nat) (s : Sweep σ) : Visit server id s (s.visit server id).2 := by
  rw [visit]
  split
  · next none =>
      refine .leaves fun part isPart => ?_
      obtain ⟨sound, _, found, _⟩ := part_eq_some_iff.1 isPart
      rw [none] at found
      cases found
  · next sound found =>
      split
      · next isHandled => exact .leaves fun _ _ _ => isHandled
      · next fresh =>
          split
          · next muted =>
              refine .leaves fun part isPart due => ?_
              obtain ⟨sound', _, found', _, rfl⟩ := part_eq_some_iff.1 isPart
              obtain rfl := Option.some.inj (found.symm.trans found')
              rw [due.unmuted.1, due.unmuted.2] at muted
              cases muted
          · next heard =>
              split
              · next none =>
                  refine .leaves fun part isPart => ?_
                  obtain ⟨sound', receiver, found', isReceiver, -⟩ := part_eq_some_iff.1 isPart
                  obtain rfl := Option.some.inj (found.symm.trans found')
                  rw [none] at isReceiver
                  cases isReceiver
              · next receiver isReceiver =>
                  have isPart : s.part server id =
                      some ⟨sound.senderClientIndex, s.wave server sound, receiver⟩ :=
                    part_eq_some_iff.2 ⟨sound, receiver, found, isReceiver, rfl⟩
                  split
                  · next other =>
                      refine .leaves fun part isPart' due => absurd due.plays ?_
                      obtain rfl := Option.some.inj (isPart.symm.trans isPart')
                      exact other
                  · next plays =>
                      split
                      · refine .completes _ ?_
                        rw [complete]
                        dsimp only
                        split <;> rfl
                      next more =>
                        split
                        · next now =>
                            rw [Bool.not_eq_true, Bool.or_eq_false_iff] at heard
                            exact visit_send found isReceiver fresh
                              ⟨heard, Decidable.not_not.1 plays, now⟩ (Nat.not_le.1 more)
                        · next later =>
                            refine .leaves fun part isPart' due => absurd due.now ?_
                            obtain rfl := Option.some.inj (isPart.symm.trans isPart')
                            exact later

end Sweep

end Refsapi.Revoice
