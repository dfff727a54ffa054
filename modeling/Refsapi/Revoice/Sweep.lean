/-
# Revoice.Sweep -- the sweep and the subscribers of `g_OnSoundComplete`

The subscribers change the sounds that the sweep is walking.  So the loop begins again behind a
report, at the first sound that there is then; but the increment of the loop comes before its test,
and with no sound left it leaves the container.

A step fails there and nowhere else (an exception that a mix throws leaves the loop), and behind
every report there is one sound less that was not handled.  So the sweep is safe, and ends when
finitely many sounds are added, exactly when every report leaves a sound (`sweep_survives_iff`).
-/
import Refsapi.Revoice.Sounds
import Mathlib.Data.Prod.Lex
import Mathlib.Order.WellFounded

namespace Refsapi.Revoice

set_option autoImplicit false

/-! ## What the body leaves alone -/

namespace Waves

@[simp] theorem keys_update (id : Nat) (change : Sound → Sound) (waves : Waves) :
    (waves.update id change).keys = waves.keys := by
  simp only [keys, update, List.map_map]
  rfl

theorem mem_keys_of_find {id : Nat} {waves : Waves} {sound : Sound}
    (found : waves.find id = some sound) : id ∈ waves.keys := by
  obtain ⟨before, behind, same, -⟩ := List.lookup_eq_some_iff.1 found
  rw [keys, same, List.map_append]
  exact List.mem_append_right _ List.mem_cons_self

end Waves

namespace Sweep

variable {σ : Type} {server : Server σ}

/-- A state that walks the same sounds for the same client, with what was handled. -/
structure Keeps (s t : Sweep σ) : Prop where
  client : t.client = s.client
  keys : t.waves.keys = s.waves.keys
  handled : ∀ id ∈ s.handled, id ∈ t.handled

theorem Keeps.refl (s : Sweep σ) : Keeps s s := ⟨rfl, rfl, fun _ isHandled => isHandled⟩

theorem Keeps.trans {s t u : Sweep σ} (first : Keeps s t) (second : Keeps t u) : Keeps s u where
  client := second.client.trans first.client
  keys := second.keys.trans first.keys
  handled id isHandled := second.handled id (first.handled id isHandled)

theorem keeps_take {unit id : Nat} {s t : Sweep σ} {sources : List Source}
    (taken : s.take server unit id = some (sources, t)) : Keeps s t := by
  rw [take] at taken
  split at taken
  · cases taken
    exact .refl s
  · split at taken
    · cases taken
      exact .refl s
    · obtain ⟨_, -, same⟩ := Option.bind_eq_some_iff.1 taken
      cases same
      exact ⟨rfl, Waves.keys_update .., fun _ isHandled => isHandled⟩

theorem keeps_mixOne {s t : Sweep σ} {id : Nat} (mixed : s.mixOne server id = some t) :
    Keeps s t := by
  have marked : Keeps s { s with handled := s.client :: s.handled } :=
    ⟨rfl, rfl, fun _ isHandled => List.mem_cons_of_mem _ isHandled⟩
  obtain ⟨⟨sources, u⟩, taken, same⟩ := Option.bind_eq_some_iff.1 mixed
  cases same
  have kept := marked.trans (keeps_take taken)
  exact ⟨kept.client, kept.keys, kept.handled⟩

theorem keeps_mix {ids : List Nat} {s t : Sweep σ}
    (mixed : ids.foldlM (mixOne server) s = some t) : Keeps s t := by
  induction ids generalizing s with
  | nil =>
      cases mixed
      exact .refl _
  | cons id ids ih =>
      obtain ⟨u, first, rest⟩ := Option.bind_eq_some_iff.1 mixed
      exact (keeps_mixOne first).trans (ih rest)

theorem keeps_send {id : Nat} {sound : Sound} {receiver : Receiver} {s t : Sweep σ}
    (sends : s.send server id sound receiver = some t) : Keeps s t := by
  rw [send] at sends
  dsimp only at sends
  split at sends
  · obtain ⟨u, mixed, same⟩ := Option.bind_eq_some_iff.1 sends
    cases same
    have kept : Keeps { s with taken := [] } u := keeps_mix mixed
    exact ⟨kept.client, kept.keys, kept.handled⟩
  · have marked : Keeps s { s with handled := id :: s.handled } :=
      ⟨rfl, rfl, fun _ isHandled => List.mem_cons_of_mem _ isHandled⟩
    obtain ⟨⟨sources, u⟩, taken, same⟩ := Option.bind_eq_some_iff.1 sends
    cases same
    have kept := marked.trans (keeps_take taken)
    exact ⟨kept.client, kept.keys, kept.handled⟩

/-! ## Reports to the subscribers -/

variable (server) in
/-- The body reports the sound that it is at. -/
def reports (id : Nat) (s : Sweep σ) : Bool :=
  match s.waves.find id with
  | none => false
  | some sound =>
      match sound.receivers s.client with
      | none => false
      | some receiver =>
          id ∉ s.handled && !(server.mutes s.world s.client sound.senderClientIndex ||
            server.mutes s.world s.client 255) && receiver.state = .play &&
            (s.wave server sound).numFrames ≤ receiver.currentPos && !sound.autoClear

variable (server) in
/-- The sounds that the subscribers leave, and what they leave of the server. -/
def answer (id : Nat) (s : Sweep σ) : Waves × σ :=
  server.onSoundComplete (s.client + 1) id (s.waves, s.world)

/-- What the body does: it stays at its sound, or begins again at what the subscribers left. -/
inductive Visits (server : Server σ) (id : Nat) (s : Sweep σ) : Cursor Nat × Sweep σ → Prop where
  | stays (t : Sweep σ) : s.reports server id = false → Keeps s t → Visits server id s (.at id, t)
  | begins (cursor : Cursor Nat) (t : Sweep σ) : s.reports server id = true →
      cursor = Cursor.first t.waves.keys → t.client = s.client →
      t.waves = (s.answer server id).1 → (∀ k ∈ s.handled, k ∈ t.handled) → id ∈ t.handled →
      id ∉ s.handled → t.completed = s.completed ++ [(s.client, id)] →
      Visits server id s (cursor, t)

theorem visits_complete {id : Nat} {sound : Sound} {s : Sweep σ} (fresh : id ∉ s.handled)
    (reports : s.reports server id = !sound.autoClear) :
    Visits server id s (s.complete server id sound) := by
  have kept : ∀ k ∈ s.handled, k ∈ id :: s.handled := fun _ => List.mem_cons_of_mem id
  rw [complete]
  dsimp only
  split
  · next clears =>
      rw [clears] at reports
      exact .stays _ reports ⟨rfl, rfl, kept⟩
  · next tells =>
      rw [Bool.eq_false_of_not_eq_true tells] at reports
      exact .begins _ _ reports rfl rfl rfl kept List.mem_cons_self fresh rfl

variable (server) in
theorem visits (id : Nat) (s : Sweep σ) : Visits server id s (s.visit server id) := by
  rw [visit]
  split
  · next none => exact .stays s (by simp [reports, none]) (.refl s)
  · next sound found =>
      split
      · next isHandled =>
          refine .stays s ?_ (.refl s)
          simp only [reports, found]
          split <;> simp [isHandled]
      · next fresh =>
          split
          · next muted =>
              refine .stays s ?_ (.refl s)
              simp only [reports, found]
              split <;> simp [muted]
          · next unmuted =>
              split
              · next none => exact .stays s (by simp [reports, found, none]) (.refl s)
              · next receiver isReceiver =>
                  split
                  · next other =>
                      exact .stays s (by simp [reports, found, isReceiver, other]) (.refl s)
                  · next plays =>
                      split
                      · next ends =>
                          refine visits_complete fresh ?_
                          simp [reports, found, isReceiver, fresh, unmuted,
                            Decidable.not_not.1 plays, ends]
                      · next more =>
                          have quiet : s.reports server id = false := by
                            simp [reports, found, isReceiver, Nat.not_le.1 more]
                          split
                          · cases sends : s.send server id sound receiver with
                            | none => exact .stays _ quiet ⟨rfl, rfl, fun _ isHandled => isHandled⟩
                            | some t => exact .stays t quiet (keeps_send sends)
                          · exact .stays s quiet (.refl s)

/-! ## Steps -/

/-- The iterator may be dereferenced, or stands at the end. -/
def Stands (s : Sweep σ) : Prop :=
  ∀ cursor, s.sound = some cursor → Cursor.Valid s.waves.keys cursor

theorem step_at {s : Sweep σ} {id : Nat} (isAt : s.sound = some (.at id)) :
    s.step server = (Cursor.next (s.visit server id).2.waves.keys (s.visit server id).1).map
      fun cursor => { (s.visit server id).2 with sound := some cursor } := by
  rw [step, isAt]
  dsimp only
  cases Cursor.next (s.visit server id).2.waves.keys (s.visit server id).1 <;> rfl

/-- **A step fails behind a report that leaves no sound, and nowhere else.** -/
theorem step_fails_iff {s : Sweep σ} (stands : s.Stands) :
    (∃ t, s.step server = .ok t) ↔ ∀ id, s.sound = some (.at id) → s.reports server id = true →
      (s.answer server id).1.sounds ≠ [] := by
  cases isAt : s.sound with
  | none =>
      refine iff_of_true ?_ fun _ none => by cases none
      rw [step, isAt]
      dsimp only
      split <;> exact ⟨_, rfl⟩
  | some cursor =>
      cases cursor with
      | atEnd =>
          refine iff_of_true ?_ fun _ none => by cases none
          rw [step, isAt]
          exact ⟨_, rfl⟩
      | «at» id =>
          have isKey : id ∈ s.waves.keys := stands _ isAt
          rw [step_at isAt]
          generalize after : s.visit server id = result
          have visits := visits server id s
          rw [after] at visits
          cases visits with
          | stays t quiet keeps =>
              refine iff_of_true ?_ fun k same reports => ?_
              · rw [← keeps.keys] at isKey
                obtain ⟨cursor, moved, -⟩ := Cursor.next_of_mem isKey
                exact ⟨_, by simp only [moved]; rfl⟩
              · cases same
                rw [quiet] at reports
                cases reports
          | begins cursor t reports first _ waves =>
              subst first
              constructor
              · rintro ⟨u, moved⟩ k same - empty
                cases same
                have none : t.waves.keys = [] := by rw [waves, Waves.keys, empty]; rfl
                simp only [none] at moved
                cases moved
              · intro leaves
                have some : t.waves.keys ≠ [] := by
                  intro none
                  apply leaves id rfl reports
                  rw [← waves]
                  exact List.map_eq_nil_iff.1 none
                obtain ⟨cursor, moved⟩ := Cursor.next_first some
                exact ⟨_, by simp only [moved]; rfl⟩

/-- The step at a sound: the body, and the increment. -/
theorem moved_of_step {s t : Sweep σ} {id : Nat} (isAt : s.sound = some (.at id))
    (moved : s.step server = .ok t) :
    ∃ cursor, Cursor.next (s.visit server id).2.waves.keys (s.visit server id).1 = .ok cursor ∧
      t = { (s.visit server id).2 with sound := some cursor } := by
  rw [step_at isAt] at moved
  cases next : Cursor.next (s.visit server id).2.waves.keys (s.visit server id).1 with
  | error => simp [next, Except.map] at moved
  | ok cursor =>
      rw [next] at moved
      exact ⟨cursor, rfl, (Except.ok.inj moved).symm⟩

/-- The step outside the sounds: into the walk of a client, or on to the next one. -/
theorem moved_of_turn {s t : Sweep σ} (turns : ∀ id, s.sound ≠ some (.at id))
    (moved : s.step server = .ok t) :
    (s.sound = none ∧ t = { s with
      sound := some (Cursor.first s.waves.keys), handled := [], mix := [], mixed := [] }) ∨
    t = { s with client := s.client + 1, sound := none } := by
  rw [step] at moved
  split at moved
  · next outside =>
      split at moved
      · cases moved
        exact .inl ⟨outside, rfl⟩
      · cases moved
        exact .inr (by rw [← outside])
  · cases moved
    exact .inr rfl
  · next id isAt => exact absurd isAt (turns id)

theorem stands_of_step {s t : Sweep σ} (moved : s.step server = .ok t) : t.Stands := by
  intro cursor isAt
  by_cases turns : ∀ id, s.sound ≠ some (.at id)
  · rcases moved_of_turn turns moved with ⟨-, rfl⟩ | rfl
    · cases isAt
      exact Cursor.valid_first _
    · cases isAt
  · obtain ⟨id, here⟩ := not_forall_not.1 turns
    obtain ⟨next, moves, rfl⟩ := moved_of_step here moved
    cases isAt
    exact Cursor.valid_of_next moves

/-! ## The sweep ends -/

/-- The clients that are left, the sounds that are not handled, and the sounds ahead. -/
def left (server : Server σ) (ids : List Nat) (s : Sweep σ) : Nat × Nat × Nat :=
  (server.maxclients - s.client,
    if s.sound = none then ids.length + 1 else (ids.filter fun id => id ∉ s.handled).length,
    s.sound.elim 0 (Cursor.ahead s.waves.keys))

/-- Fewer clients, or fewer sounds that are not handled, or fewer sounds ahead. -/
def Less : Nat × Nat × Nat → Nat × Nat × Nat → Prop :=
  Prod.Lex (· < ·) (Prod.Lex (· < ·) (· < ·))

theorem wellFounded_less : WellFounded Less :=
  WellFounded.prod_lex Nat.lt_wfRel.wf (WellFounded.prod_lex Nat.lt_wfRel.wf Nat.lt_wfRel.wf)

theorem filter_length_le (ids : List Nat) {handled handled' : List Nat}
    (more : ∀ id ∈ handled, id ∈ handled') :
    (ids.filter fun id => id ∉ handled').length ≤ (ids.filter fun id => id ∉ handled).length := by
  rw [← List.countP_eq_length_filter, ← List.countP_eq_length_filter]
  refine List.countP_mono_left fun id _ fresh => ?_
  exact decide_eq_true fun isHandled => of_decide_eq_true fresh (more id isHandled)

theorem filter_length_lt {ids handled handled' : List Nat}
    (more : ∀ id ∈ handled, id ∈ handled') {id : Nat} (isId : id ∈ ids) (fresh : id ∉ handled)
    (isHandled : id ∈ handled') :
    (ids.filter fun id => id ∉ handled').length < (ids.filter fun id => id ∉ handled).length := by
  rw [← List.countP_eq_length_filter, ← List.countP_eq_length_filter]
  obtain ⟨before, behind, rfl⟩ := List.append_of_mem isId
  have fewer (part : List Nat) : part.countP (fun id => decide (id ∉ handled')) ≤
      part.countP fun id => decide (id ∉ handled) :=
    List.countP_mono_left fun id _ fresh =>
      decide_eq_true fun isHandled => of_decide_eq_true fresh (more id isHandled)
  rw [List.countP_append, List.countP_append, List.countP_cons_of_neg (by simpa using isHandled),
    List.countP_cons_of_pos (by simpa using fresh)]
  have first := fewer before
  have second := fewer behind
  omega

/-- A step that does not fail leaves less to do, when only these sounds are in the map. -/
theorem less_of_step {ids : List Nat} {s t : Sweep σ} (stands : s.Stands)
    (goes : s.done server = false) (known : ∀ id ∈ s.waves.keys, id ∈ ids)
    (moved : s.step server = .ok t) : Less (t.left server ids) (s.left server ids) := by
  have more : s.client < server.maxclients :=
    Nat.not_le.1 (of_decide_eq_false (Bool.or_eq_false_iff.1 goes).2)
  by_cases turns : ∀ id, s.sound ≠ some (.at id)
  · rcases moved_of_turn turns moved with ⟨outside, rfl⟩ | rfl
    · refine .right _ (.left _ _ ?_)
      rw [if_pos outside, if_neg (by simp)]
      exact Nat.lt_succ_of_le (List.length_filter_le _ _)
    · exact .left _ _ (by show server.maxclients - (s.client + 1) < _; omega)
  · obtain ⟨id, here⟩ := not_forall_not.1 turns
    have isKey : id ∈ s.waves.keys := stands _ here
    obtain ⟨cursor, moves, rfl⟩ := moved_of_step here moved
    generalize after : s.visit server id = result at moves
    have visits := visits server id s
    rw [after] at visits
    simp only [left, here, Option.elim_some]
    cases visits with
    | stays t _ keeps =>
        have distinct : t.waves.keys.Nodup := t.waves.distinct
        have ahead := Cursor.ahead_of_next distinct moves
        rw [keeps.client]
        refine .right _ ?_
        rw [if_neg (by simp), if_neg (by simp)]
        rcases (filter_length_le ids keeps.handled).lt_or_eq with fewer | same
        · exact .left _ _ fewer
        · rw [same, ← keeps.keys, ahead]
          exact .right _ (Nat.lt_succ_self _)
    | begins cursor t _ _ client _ kept isHandled fresh _ =>
        rw [client]
        refine .right _ (.left _ _ ?_)
        rw [if_neg (by simp), if_neg (by simp)]
        exact filter_length_lt kept (known id isKey) fresh isHandled

/-! ## Subscribers -/

variable (server) in
/-- The sweep comes to a state. -/
abbrev Comes : Sweep σ → Sweep σ → Prop := Steps.Comes (step server) (done server)

/-- The increments are all at sounds of the map, and the sweep ends when finitely many sounds are
ever in it. -/
structure Survives (server : Server σ) (waves : Waves) (world : σ) : Prop where
  safe : Steps.Safe (step server) (done server) (start waves world)
  ends : (∃ ids : List Nat, ∀ t, Comes server (start waves world) t →
      ∀ id ∈ t.waves.keys, id ∈ ids) →
    ∃ t, Comes server (start waves world) t ∧ t.done server = true

/-- Every report leaves a sound. -/
def LeavesSounds (server : Server σ) (waves : Waves) (world : σ) : Prop :=
  ∀ t, Comes server (start waves world) t → t.done server = false → ∀ id,
    t.sound = some (.at id) → t.reports server id = true → (t.answer server id).1.sounds ≠ []

theorem stands_of_comes {waves : Waves} {world : σ} {t : Sweep σ}
    (comes : Comes server (start waves world) t) : t.Stands := by
  refine comes.invariant (I := Stands) (fun s t _ _ moved => stands_of_step moved) ?_
  intro cursor isAt
  cases isAt

theorem safe_iff_leaves (server : Server σ) (waves : Waves) (world : σ) :
    Steps.Safe (step server) (done server) (start waves world) ↔
      LeavesSounds server waves world := by
  rw [Steps.safe_iff]
  constructor
  · intro safe t comes goes
    exact (step_fails_iff (stands_of_comes comes)).1 (safe t comes goes)
  · intro leaves t comes goes
    exact (step_fails_iff (stands_of_comes comes)).2 (leaves t comes goes)

/-- **The sweep survives its subscribers exactly when every report leaves a sound.** -/
theorem sweep_survives_iff (server : Server σ) (waves : Waves) (world : σ) :
    Survives server waves world ↔ LeavesSounds server waves world := by
  rw [← safe_iff_leaves]
  constructor
  · exact Survives.safe
  · intro safe
    refine ⟨safe, ?_⟩
    rintro ⟨ids, known⟩
    apply Steps.stops (InvImage.wf (left server ids) wellFounded_less) safe
    intro t u comes goes moved
    exact less_of_step (stands_of_comes comes) goes (known t comes) moved

end Sweep

/-- A server of one client, with a subscriber who deletes the sound that is reported. -/
def Server.deleting : Server Unit where
  maxclients := 1
  present _ _ := true
  speex _ _ := false
  mutes _ _ _ := false
  onSoundComplete _ id left := (left.1.delete id, left.2)
  now := 0
  delay _ _ := 0
  bucketOrder ids := ids
  ordered _ := .refl _

/-- One sound, which its receiver was sent to the end. -/
def Waves.played : Waves where
  sounds := [(1, ⟨0, fun _ => some ⟨.play, 0, 2⟩, false, ⟨1, 8000, [0, 0]⟩, ⟨1, 16000, [0, 0]⟩⟩)]
  distinct := List.nodup_singleton 1

/-- The subscriber deletes the only sound, and the loop increments the end. -/
theorem not_always_survives : ¬ ∀ (server : Server Unit) (waves : Waves) (world : Unit),
    Sweep.Survives server waves world := by
  intro always
  obtain ⟨t, ends⟩ := (always .deleting .played ()).safe 2
  have fails : Steps.after (Sweep.step .deleting) (Sweep.done .deleting) 2
      (Sweep.start .played ()) = .error .atEnd := rfl
  rw [fails] at ends
  cases ends

end Refsapi.Revoice
