/-
# Revoice.Rounds -- what a sweep sends to each of its clients

A sweep walks its clients one after the other, and the walk of one client leaves the receivers of
the others alone.  So when it reports nothing, each client is served or not by its own sounds as the
sweep finds them at its start, unless an exception ends the sweep for all of them
(`sweep_serves_iff`).
-/
import Refsapi.Revoice.Mixing

namespace Refsapi.Revoice

set_option autoImplicit false

/-! ## The sounds of a client -/

namespace Waves

variable {σ : Type} (server : Server σ) (world : σ) (i : Nat)

/-- Its packets serve the client of an index with its sounds. -/
def Serves (packets : List Sent) (before after : Waves) : Prop :=
  Served server world i before.keys (fun id => before.part server world i id)
    (packets.filter fun packet => packet.client = i) fun id => after.part server world i id

/-- The walk of the client of an index finds what it takes for granted. -/
def FairTo (waves : Waves) : Prop :=
  Fair server world i waves.keys fun id => waves.part server world i id

section Congr

variable {server : Server σ} {world : σ} {i : Nat} {before before' : Waves}

theorem serves_congr {packets packets' : List Sent} {after after' : Waves}
    (keys : before'.keys = before.keys)
    (parts : ∀ id, before'.part server world i id = before.part server world i id)
    (sent : (packets'.filter fun packet => packet.client = i) =
      packets.filter fun packet => packet.client = i)
    (afters : ∀ id, after'.part server world i id = after.part server world i id) :
    before'.Serves server world i packets' after' ↔ before.Serves server world i packets after := by
  rw [Serves, Serves, keys, sent, funext parts, funext afters]

theorem fairTo_congr (keys : before'.keys = before.keys)
    (parts : ∀ id, before'.part server world i id = before.part server world i id) :
    before'.FairTo server world i ↔ before.FairTo server world i := by
  rw [FairTo, FairTo, keys, funext parts]

end Congr

end Waves

/-! ## Clients one after the other -/

namespace Sweep

variable {σ : Type} {server : Server σ}

/-- What a sweep does for the clients that are left. -/
structure Rounds (server : Server σ) (s t : Sweep σ) (packets : List Sent) : Prop where
  thrown : t.thrown = false
  earlier : ∀ j < s.client, ∀ id,
    t.waves.part server s.world j id = s.waves.part server s.world j id
  sent : t.sent = s.sent ++ packets
  clients : ∀ packet ∈ packets, s.client ≤ packet.client
  serves : ∀ j, s.client ≤ j → j < server.maxclients → server.present s.world j = true →
    (s.waves.Serves server s.world j packets t.waves ↔ s.waves.FairTo server s.world j)

theorem Rounds.nil {s : Sweep σ} (thrown : s.thrown = false)
    (ended : server.maxclients ≤ s.client) : Rounds server s s [] where
  thrown
  earlier _ _ _ := rfl
  sent := (List.append_nil _).symm
  clients _ isPacket := absurd isPacket List.not_mem_nil
  serves j behind inRange _ := by omega

theorem filter_client {packets : List Sent} {i : Nat}
    (others : ∀ packet ∈ packets, packet.client ≠ i) :
    (packets.filter fun packet => packet.client = i) = [] := by
  rw [List.filter_eq_nil_iff]
  exact fun packet isPacket same => others packet isPacket (of_decide_eq_true same)

/-- One client more. -/
theorem Rounds.cons {s u t : Sweep σ} {ids : List Nat} {packets more : List Sent}
    (trace : Trace server s ids packets u)
    (serves : server.present s.world s.client = true →
      (s.waves.Serves server s.world s.client packets u.waves ↔
        s.waves.FairTo server s.world s.client))
    (rounds : Rounds server { u with client := s.client + 1, sound := none } t more) :
    Rounds server s t (packets ++ more) := by
  have moved (j : Nat) (isEarlier : j < s.client + 1) (id : Nat) :
      t.waves.part server s.world j id = u.waves.part server s.world j id := by
    have same := rounds.earlier j isEarlier id
    dsimp only at same
    rw [trace.world] at same
    exact same
  constructor
  case thrown => exact rounds.thrown
  case earlier =>
    intro j isEarlier id
    rw [moved j (by omega), trace.elsewhere j (by omega)]
  case sent =>
    rw [rounds.sent, ← List.append_assoc]
    exact congrArg (· ++ more) trace.sent
  case clients =>
    intro packet isPacket
    rcases List.mem_append.1 isPacket with here | later
    · exact (trace.clients packet here).ge
    · exact Nat.le_of_succ_le (rounds.clients packet later)
  case serves =>
    intro j behind inRange present
    rcases behind.eq_or_lt with rfl | later
    · have mine : ((packets ++ more).filter fun packet => packet.client = s.client) =
          packets.filter fun packet => packet.client = s.client := by
        have none : (more.filter fun packet => packet.client = s.client) = [] :=
          filter_client fun packet isLater => Nat.ne_of_gt (rounds.clients packet isLater)
        rw [List.filter_append, none, List.append_nil]
      rw [← serves present]
      exact Waves.serves_congr rfl (fun _ => rfl) mine (moved s.client (Nat.lt_succ_self _))
    · have theirs : ((packets ++ more).filter fun packet => packet.client = j) =
          more.filter fun packet => packet.client = j := by
        rw [List.filter_append, filter_client, List.nil_append]
        intro packet isHere
        rw [trace.clients packet isHere]
        exact later.ne
      have serves := rounds.serves j later inRange (by dsimp only; rw [trace.world]; exact present)
      dsimp only at serves
      rw [trace.world] at serves
      have keys := trace.keys.symm
      have parts (id : Nat) := (trace.elsewhere j later.ne' id).symm
      exact (Waves.serves_congr keys parts theirs fun _ => rfl).trans
        (serves.trans (Waves.fairTo_congr keys parts).symm)

/-- The walks of the clients that are left find what they take for granted. -/
def FairToRest (server : Server σ) (s : Sweep σ) : Prop :=
  ∀ j, s.client ≤ j → j < server.maxclients → server.present s.world j = true →
    s.waves.FairTo server s.world j

theorem FairToRest.next {s u : Sweep σ} {ids : List Nat} {packets : List Sent}
    (fair : s.FairToRest server) (trace : Trace server s ids packets u) :
    FairToRest server { u with client := s.client + 1, sound := none } := by
  intro j later inRange present
  dsimp only at present ⊢
  rw [trace.world] at present ⊢
  refine (Waves.fairTo_congr trace.keys fun id => ?_).2
    (fair j (Nat.le_of_succ_le later) inRange present)
  exact trace.elsewhere j (Nat.ne_of_gt later) id

/-- **What a sweep that reports nothing does for the clients that are left**, when no exception ends
it; there is none when their walks find what they take for granted. -/
theorem rounds_of_comes {s t : Sweep σ} (comes : Comes server s t) (ended : t.done server = true)
    (quiet : t.completed = []) (outside : s.sound = none) (before : s.thrown = false)
    (runs : t.thrown = false ∨ s.FairToRest server) :
    ∃ packets, Rounds server s t packets := by
  induction more : server.maxclients - s.client generalizing s with
  | zero =>
      have none : server.maxclients ≤ s.client := by omega
      rcases Steps.comes_iff.1 comes with rfl | ⟨goes, -⟩
      · exact ⟨[], .nil before none⟩
      · rw [done, decide_eq_true none, Bool.or_true] at goes
        cases goes
  | succ n ih =>
      have goes : s.done server = false := by
        rw [done, before, Bool.false_or]
        exact decide_eq_false (by omega)
      rcases Steps.comes_iff.1 comes with rfl | ⟨-, next, moved, rest⟩
      · rw [goes] at ended
        cases ended
      · have fewer : server.maxclients - (s.client + 1) = n := by omega
        rw [step, outside] at moved
        dsimp only at moved
        split at moved
        · obtain rfl := Except.ok.inj moved
          next present =>
          rcases walk_of_comes rest ended quiet goes rfl (List.nil_append s.waves.keys).symm with
            ⟨u, walk, still, later⟩ | ⟨thrown, first, id, behind, u, known, walk, still, throws⟩
          · obtain ⟨packets, trace⟩ := (Trace.nil server _).walk walk still
            obtain ⟨later, rounds⟩ := ih later rfl still.thrown
              (runs.imp_right fun fair => fair.next { trace with }) fewer
            refine ⟨packets ++ later, .cons { trace with } (fun _ => ?_) rounds⟩
            have mine : (packets.filter fun packet => packet.client = s.client) = packets :=
              List.filter_eq_self.2 fun packet isPacket =>
                decide_eq_true (trace.clients packet isPacket)
            have serves := served_iff_fair (.nil rfl rfl rfl) walk still trace.sent
            simp only [Sweep.part, trace.world, trace.client] at serves
            rw [Waves.Serves, mine]
            exact serves
          · rcases runs with none | fair
            · rw [thrown] at none
              cases none
            · have isFair := fair s.client le_rfl (by omega) present
              exact absurd throws (not_throws_of_fair walk still (.nil rfl rfl rfl) known isFair)
        · next absent =>
            obtain rfl := Except.ok.inj moved
            obtain ⟨later, rounds⟩ := ih rest rfl before
              (runs.imp_right fun fair => fair.next (.nil server s)) fewer
            exact ⟨later, .cons (.nil server s) (fun present => absurd present absent) rounds⟩

/-- **When nothing was reported, the clients were served exactly when their walks found what they
take for granted**; and each of them by itself, when no exception ended the sweep. -/
theorem sweep_serves_iff (server : Server σ) (waves : Waves) (world : σ) (t : Sweep σ)
    (comes : Comes server (start waves world) t) (ended : t.done server = true)
    (quiet : t.completed = []) :
    (t.thrown = false ∧ (∀ i < server.maxclients, server.present world i = true →
        waves.Serves server world i t.sent t.waves) ↔
      ∀ i < server.maxclients, server.present world i = true → waves.FairTo server world i) ∧
    (t.thrown = false → ∀ i < server.maxclients, server.present world i = true →
      (waves.Serves server world i t.sent t.waves ↔ waves.FairTo server world i)) := by
  have each (runs : t.thrown = false ∨ (start waves world).FairToRest server) :
      t.thrown = false ∧ ∀ i < server.maxclients, server.present world i = true →
        (waves.Serves server world i t.sent t.waves ↔ waves.FairTo server world i) := by
    obtain ⟨packets, rounds⟩ := rounds_of_comes comes ended quiet rfl rfl runs
    refine ⟨rounds.thrown, fun i inRange present => ?_⟩
    have sent : t.sent = packets := rounds.sent
    rw [sent]
    exact rounds.serves i (Nat.zero_le i) inRange present
  refine ⟨⟨?_, fun fair => ?_⟩, fun none => (each (.inl none)).2⟩
  · rintro ⟨none, served⟩ i inRange present
    exact ((each (.inl none)).2 i inRange present).1 (served i inRange present)
  · obtain ⟨none, serves⟩ := each (.inr fun j _ => fair j)
    exact ⟨none, fun i inRange present => (serves i inRange present).2 (fair i inRange present)⟩

end Sweep

/-- Two sounds of one sender, in these states for every client. -/
def Waves.pair (first second : PlayState) : Waves where
  sounds := [
    (1, ⟨0, fun _ => some ⟨first, 0, 0⟩, true, ⟨1, 10, [30000, 1]⟩, ⟨1, 10, [30000, 1]⟩⟩),
    (2, ⟨0, fun _ => some ⟨second, 0, 0⟩, true, ⟨1, 10, [20000, 2]⟩, ⟨1, 10, [20000, 2]⟩⟩)]
  distinct := by simp

/-- Two sounds that play. -/
theorem sweep_serves_pair : ∃ t, Sweep.Comes .deleting (Sweep.start (.pair .play .play) ()) t ∧
    t.sent.map Sent.samples = [[32767]] ∧
    (Waves.pair .play .play).Serves .deleting () 0 t.sent t.waves := by
  refine ⟨_, ⟨4, rfl⟩, rfl, ((Sweep.sweep_serves_iff _ _ () _ ⟨4, rfl⟩ rfl rfl).2 rfl 0
    (by decide) rfl).2 ?_⟩
  have known (id : Nat) (part : Part)
      (isPart : (Waves.pair .play .play).part .deleting () 0 id = some part) :
      id ≠ 0 ∧ part.sender = 0 ∧ part.receiver.state = .play ∧ part.Inside ∧
        part.offset 1000 = 100000000 := by
    have isKey : id ∈ [1, 2] := Waves.mem_keys_of_part isPart
    simp only [List.mem_cons, List.not_mem_nil, or_false] at isKey
    rcases isKey with rfl | rfl
    · cases isPart
      decide
    · cases isPart
      decide
  constructor
  case plays => exact fun id part isPart _ => (known id part isPart).2.2.1
  case inside => exact fun id part isPart _ => (known id part isPart).2.2.2.1
  case oneGroup =>
    rintro sender sender' ⟨id, -, part, isPart, -, rfl⟩ - ⟨id', -, part', isPart', -, rfl⟩ -
    rw [(known id part isPart).2.1, (known id' part' isPart').2.1]
  case passes =>
    intro before id behind _ sender _ _ part isPart
    obtain ⟨other, -, -, -, offset⟩ := known id part isPart
    refine ⟨fun isClient => absurd isClient other, fun _ _ => ?_⟩
    rw [offset]
    exact Nat.lt_add_right _ (by decide)

/-- A sound that is paused is sent with one of its sender that plays. -/
theorem not_always_serves : ¬ ∀ (server : Server Unit) (waves : Waves) (world : Unit)
    (t : Sweep Unit), Sweep.Comes server (Sweep.start waves world) t → t.done server = true →
    t.completed = [] → ∀ i < server.maxclients, server.present world i = true →
    waves.Serves server world i t.sent t.waves := by
  intro always
  have served := always .deleting (.pair .play .pause) () _ ⟨4, rfl⟩ rfl rfl 0 (by decide) rfl
  obtain ⟨part, isPart, -, plays, -⟩ := (served.exact 2).1 (by decide)
  cases isPart
  cases plays

end Refsapi.Revoice
