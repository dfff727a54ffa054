/-
# Clients.Teams -- the team counters are exact

In every run of the events, `g_PlayersNum` of each of the four teams is the
number of connected slots whose tracked team it is (`counters_exact`).  A slot
that is not connected may change its team without being counted, so the
invariant speaks of all slots and a step compares what one slot contributes
before and after it.
-/
import Refsapi.Clients.Model
import Refsapi.Lib.Count

namespace Refsapi.Clients

set_option autoImplicit false

variable {s s' : State} {e : Event}

/-! ## The state functions -/

namespace State

@[simp] theorem setClient_playersNum (s : State) (id : Nat) (c : Client) :
    (s.setClient id c).playersNum = s.playersNum := rfl

@[simp] theorem setClient_edicts (s : State) (id : Nat) (c : Client) :
    (s.setClient id c).edicts = s.edicts := rfl

@[simp] theorem setClient_maxClients (s : State) (id : Nat) (c : Client) :
    (s.setClient id c).maxClients = s.maxClients := rfl

@[simp] theorem add_clients (s : State) (i : Nat) (d : Int) : (s.add i d).clients = s.clients := rfl

@[simp] theorem add_edicts (s : State) (i : Nat) (d : Int) : (s.add i d).edicts = s.edicts := rfl

@[simp] theorem add_maxClients (s : State) (i : Nat) (d : Int) :
    (s.add i d).maxClients = s.maxClients := rfl

@[simp] theorem setEdict_clients (s : State) (id : Nat) (p : Edict) :
    (s.setEdict id p).clients = s.clients := rfl

@[simp] theorem setEdict_playersNum (s : State) (id : Nat) (p : Edict) :
    (s.setEdict id p).playersNum = s.playersNum := rfl

@[simp] theorem setEdict_maxClients (s : State) (id : Nat) (p : Edict) :
    (s.setEdict id p).maxClients = s.maxClients := rfl

theorem add_playersNum (s : State) (i : Nat) (d : Int) (j : Nat) :
    (s.add i d).playersNum j = s.playersNum j + if j = i then d else 0 := by
  by_cases here : j = i
  · subst here
    simp [add]
  · simp [add, here]

theorem setClient_apply (s : State) (id : Nat) (c : Client) (x : Nat) :
    (s.setClient id c).clients x = if x = id then c else s.clients x := by
  simp [setClient, Function.update_apply]

end State

/-! ## The dead counters are none of the team counters -/

theorem deadIndex_ge {team : Int} (valid : isValidTeam team = true) : 4 ≤ deadIndex team := by
  simp only [isValidTeam, Bool.and_eq_true, decide_eq_true_eq] at valid
  simp only [Team.num] at valid
  simp only [deadIndex, Team.num]
  omega

/-- Only the counters change, and not those of the teams. -/
def SameTeams (s s' : State) : Prop :=
  s'.clients = s.clients ∧ s'.edicts = s.edicts ∧ s'.maxClients = s.maxClients ∧
    ∀ j < 4, s'.playersNum j = s.playersNum j

theorem SameTeams.refl (s : State) : SameTeams s s := ⟨rfl, rfl, rfl, fun _ _ => rfl⟩

theorem SameTeams.trans {s₁ s₂ s₃ : State} (first : SameTeams s₁ s₂) (second : SameTeams s₂ s₃) :
    SameTeams s₁ s₃ :=
  ⟨second.1.trans first.1, second.2.1.trans first.2.1, second.2.2.1.trans first.2.2.1,
    fun j small => (second.2.2.2 j small).trans (first.2.2.2 j small)⟩

theorem sameTeams_add {team : Int} (valid : isValidTeam team = true) (d : Int) :
    SameTeams s (s.add (deadIndex team) d) := by
  have := deadIndex_ge valid
  refine ⟨rfl, rfl, rfl, fun j small => ?_⟩
  rw [State.add_playersNum, if_neg (by omega), Int.add_zero]

theorem sameTeams_adjustDead (s : State) (team d : Int) : SameTeams s (s.adjustDead team d) := by
  unfold State.adjustDead
  split
  · next has =>
      simp only [State.hasDead, Bool.and_eq_true] at has
      exact sameTeams_add has.1 d
  · exact .refl s

theorem sameTeams_moveDead (s : State) (id : Nat) (new : Team) :
    SameTeams s (s.moveDead id new) := by
  unfold State.moveDead
  split
  · exact (sameTeams_adjustDead s _ _).trans (sameTeams_adjustDead _ _ _)
  · exact .refl s

/-! ## The invariant -/

/-- The slots counted for a team. -/
def State.inTeam (s : State) (t : Team) (id : Nat) : Bool := s.connected id && s.team id == t

/-- Only slots are connected, the tracked teams are the four real ones, and each
has its count. -/
structure Exact (s : State) : Prop where
  inside : ∀ id, s.connected id = true → 0 < id ∧ id ≤ s.maxClients
  real : ∀ id, (s.team id).num < 4
  count : ∀ t : Team, t.num < 4 → s.playersNum t.num = slots s.maxClients (s.inTeam t)

theorem Exact.of_same (exact : Exact s) (same : SameTeams s s') : Exact s' := by
  obtain ⟨clients, -, max, num⟩ := same
  have team : s'.team = s.team := by
    funext id
    simp [State.team, clients]
  have inTeam : s'.inTeam = s.inTeam := by
    funext t id
    simp [State.inTeam, State.connected, State.team, clients]
  have connected : s'.connected = s.connected := by
    funext id
    simp [State.connected, clients]
  refine ⟨fun id => ?_, fun id => team ▸ exact.real id, fun t small => ?_⟩
  · rw [connected, max]
    exact exact.inside id
  rw [num _ small, max, inTeam]
  exact exact.count t small

theorem num_inj {t t' : Team} : t.num = t'.num ↔ t = t' := by
  constructor
  · intro same
    cases t <;> cases t' <;> first | rfl | cases same
  · rintro rfl
    rfl

/-- A slot gets another client record and the counters move with it. -/
theorem Exact.setClient (exact : Exact s) {id : Nat} (c : Client)
    (inside : 0 < id ∧ id ≤ s.maxClients) (clients : s'.clients = Function.update s.clients id c)
    (max : s'.maxClients = s.maxClients) (real : c.team.num < 4)
    (num : ∀ t : Team, t.num < 4 → s'.playersNum t.num = s.playersNum t.num
      - (s.inTeam t id).toNat + (c.isConnected && c.team == t).toNat) : Exact s' := by
  have at_id : s'.clients id = c := by simp [clients]
  have elsewhere : ∀ x, x ≠ id → s'.clients x = s.clients x := fun x other => by
    simp [clients, other]
  constructor
  · intro x isConnected
    by_cases here : x = id
    · rw [here, max]
      exact inside
    · rw [max]
      refine exact.inside x ?_
      simpa [State.connected, elsewhere x here] using isConnected
  · intro x
    by_cases here : x = id
    · simpa [State.team, here, at_id] using real
    · simpa [State.team, elsewhere x here] using exact.real x
  · intro t small
    have changed := slots_change (s.inTeam t) (s'.inTeam t) inside.1 inside.2
      fun x other => by simp [State.inTeam, State.connected, State.team, elsewhere x other]
    have now : s'.inTeam t id = (c.isConnected && c.team == t) := by
      simp [State.inTeam, State.connected, State.team, at_id]
    have before := exact.count t small
    rw [num t small, max, before]
    rw [now] at changed
    omega

/-! ## One event -/

theorem Exact.putInServer (exact : Exact s) {id : Nat} (isBot : Bool)
    (free : s.connected id = false) : Exact (s.clientPutInServer id isBot) := by
  unfold State.clientPutInServer
  split
  · next inside =>
      refine exact.setClient { isBot, isConnected := true, team := .unassigned }
        ((isValidIndex_iff _ _).1 inside) rfl rfl (Nat.zero_lt_succ 3) fun t small => ?_
      have out : s.inTeam t id = false := by simp [State.inTeam, free]
      rw [State.add_playersNum, out]
      simp only [num_inj, eq_comm (a := t)]
      by_cases here : Team.unassigned = t <;> simp [here]
  · exact exact

theorem Exact.disconnected (exact : Exact s) (id : Nat) : Exact (s.clientDisconnected id) := by
  unfold State.clientDisconnected
  split
  · next inside =>
      simp only [Bool.and_eq_true, isValidIndex_iff] at inside
      let c : Client := { s.clients id with isConnected := false, isBot := false }
      let left := (s.setClient id c).add ((s.setClient id c).team id).num (-1)
      have same : (s.setClient id c).team id = s.team id := by
        simp [State.team, State.setClient_apply, c]
      have counted : Exact left := by
        refine exact.setClient c inside.1 rfl rfl (exact.real id) fun t small => ?_
        simp only [left, same, State.add_playersNum, State.setClient_playersNum, num_inj]
        simp only [State.inTeam, inside.2, c]
        by_cases here : t = s.team id <;> simp [here] <;> grind
      simp only
      split
      · exact counted.of_same (sameTeams_adjustDead left _ _)
      · exact counted
  · exact exact

theorem newTeam_real (text : List Char) : (newTeam text).num < 4 := by
  unfold newTeam
  split <;> decide

theorem Exact.setEdict (exact : Exact s) (id : Nat) (p : Edict) : Exact (s.setEdict id p) :=
  ⟨exact.inside, exact.real, exact.count⟩

theorem Exact.changeTeam (exact : Exact s) {id : Nat} {new : Team}
    (inside : 0 < id ∧ id ≤ s.maxClients) (real : new.num < 4) : Exact (s.changeTeam id new) := by
  unfold State.changeTeam
  split
  · next free =>
      refine exact.setClient _ inside rfl rfl real fun t small => ?_
      have out : s.connected id = false := by simpa using free
      simp only [State.inTeam, out, State.setClient_playersNum]
      simp only [State.connected] at out
      simp [out]
  · next isConnected =>
      split
      · next moves =>
          have isConnected : s.connected id = true := by simpa using isConnected
          obtain ⟨-, other⟩ : new ≠ .unassigned ∧ s.team id ≠ new := by simpa using moves
          obtain ⟨clients, edicts, max, num⟩ := sameTeams_moveDead s id new
          have team : (s.moveDead id new).team id = s.team id := by simp [State.team, clients]
          refine exact.setClient { s.clients id with team := new } inside ?_ max real
            fun t small => ?_
          · simp [State.setClient, clients, State.add]
          · simp only [State.setClient_playersNum, State.add_playersNum, team, num _ small, num_inj]
            simp only [State.inTeam, isConnected]
            simp only [State.connected] at isConnected
            simp only [isConnected]
            grind
      · exact exact

theorem Exact.teamInfo (exact : Exact s) {id : Nat} {new : Team}
    (inside : 0 < id ∧ id ≤ s.maxClients) (real : new.num < 4) : Exact (s.teamInfo id new) := by
  have changed := exact.changeTeam inside real
  unfold State.teamInfo
  simp only
  split
  · exact changed.setEdict _ _
  · exact changed

theorem Exact.step (exact : Exact s) (moved : step s e = some s') : Exact s' := by
  cases e with
  | putInServer id isBot =>
      simp only [Clients.step] at moved
      split at moved
      · cases moved
      · next free =>
          cases moved
          exact exact.putInServer isBot (by simpa using free)
  | teamInfo id text =>
      simp only [Clients.step, teamInfoMessage_eq] at moved
      have begun : Exact { s with mState := 2, infoId := id } :=
        ⟨exact.inside, exact.real, exact.count⟩
      cases text with
      | none =>
          cases moved
          exact begun
      | some text =>
          simp only [Option.some.injEq] at moved
          subst moved
          split
          · next inside =>
              exact begun.teamInfo ((isValidIndex_iff _ _).1 inside) (newTeam_real text)
          · exact begun
  | disconnected id =>
      cases moved
      exact exact.disconnected id
  | killed id mTeam flag =>
      simp only [Clients.step] at moved
      split at moved
      · cases moved
      · cases moved
        unfold State.killed
        simp only
        refine Exact.setEdict ?_ _ _
        split
        · next counted =>
            simp only [Bool.and_eq_true] at counted
            exact exact.of_same (sameTeams_add counted.2 1)
        · exact exact
  | spawn id =>
      cases moved
      unfold State.spawn
      simp only
      refine Exact.setEdict ?_ _ _
      split
      · exact exact.of_same (sameTeams_adjustDead _ _ _)
      · exact exact
  | checkMapConditions =>
      cases moved
      refine exact.of_same ⟨rfl, rfl, rfl, fun j small => ?_⟩
      simp only [State.checkMapConditions, Team.num]
      rw [Function.update_of_ne (by omega), Function.update_of_ne (by omega)]
  | engine id p =>
      cases moved
      exact exact.setEdict id p

theorem exact_zero (maxClients : Nat) (edicts : Nat → Edict) : Exact (.zero maxClients edicts) := by
  refine ⟨fun _ isConnected => (nomatch isConnected), fun _ => Nat.zero_lt_succ 3, fun t _ => ?_⟩
  have none : slots maxClients ((State.zero maxClients edicts).inTeam t) = 0 :=
    slots_eq_zero fun _ _ _ => rfl
  exact (congrArg Int.ofNat none).symm

theorem exact_of_reachable (run : machine.Reachable s) : Exact s := by
  refine Machine.Reaches.invariant ?_ (fun _ _ _ _ exact _ moved => exact.step moved) run
  rintro _ ⟨maxClients, edicts, rfl⟩
  exact exact_zero maxClients edicts

/-- The connected slots are those of the four teams. -/
theorem slots_connected (exact : Exact s) :
    (slots s.maxClients s.connected : Int) = s.playersNum Team.terrorist.num +
      s.playersNum Team.ct.num + s.playersNum Team.unassigned.num +
        s.playersNum Team.spectrator.num := by
  have parts : slots s.maxClients s.connected =
      slots s.maxClients (s.inTeam .terrorist) + slots s.maxClients (s.inTeam .ct) +
        slots s.maxClients (s.inTeam .unassigned) + slots s.maxClients (s.inTeam .spectrator) := by
    simp only [slots_eq_sum, ← Finset.sum_add_distrib]
    refine Finset.sum_congr rfl fun id _ => ?_
    have real := exact.real id
    simp only [State.inTeam]
    cases s.connected id
    · rfl
    · cases team : s.team id <;> first | rfl | (rw [team] at real; simp [Team.num] at real)
  have terrorist := exact.count .terrorist (by decide)
  have ct := exact.count .ct (by decide)
  have unassigned := exact.count .unassigned (by decide)
  have spectrator := exact.count .spectrator (by decide)
  omega

/-- **The team counters are exact.**  In every run each counter is the number of
connected slots whose tracked team is that team, no counter is negative, and
`rf_get_players_num` returns the number of connected slots. -/
theorem counters_exact (run : machine.Reachable s) :
    (∀ t ∈ [Team.unassigned, .terrorist, .ct, .spectrator],
      s.playersNum t.num = slots s.maxClients (fun id => s.connected id && s.team id == t) ∧
        0 ≤ s.playersNum t.num) ∧
    ∀ size, (s.rfGetPlayersNum size false).2 = slots s.maxClients s.connected := by
  have exact := exact_of_reachable run
  constructor
  · intro t listed
    have small : t.num < 4 := by
      simp only [List.mem_cons, List.not_mem_nil, or_false] at listed
      rcases listed with rfl | rfl | rfl | rfl <;> decide
    have count := exact.count t small
    exact ⟨count, count ▸ Int.natCast_nonneg _⟩
  · intro size
    rw [slots_connected exact]
    rfl

/-- A client enters, joins the terrorists, and another slot is told its team. -/
theorem counters_exact_twoSlots : ∃ s : State, (s.connected 1 = true ∧ s.team 1 = .terrorist) ∧
    (∀ t ∈ [Team.unassigned, .terrorist, .ct, .spectrator],
      s.playersNum t.num = slots s.maxClients (fun id => s.connected id && s.team id == t) ∧
        0 ≤ s.playersNum t.num) ∧
    ∀ size, (s.rfGetPlayersNum size false).2 = slots s.maxClients s.connected := by
  have ends : (machine.exec (.zero 32 fun _ => .zero)
      [.putInServer 1 false, .teamInfo 1 (some ['T']), .teamInfo 2 (some ['C'])]).map
        (fun s => decide (s.connected 1 = true ∧ s.team 1 = .terrorist)) = some true := by decide
  obtain ⟨s, run, facts⟩ := Machine.exists_reachable (M := machine) ⟨32, _, rfl⟩ ends
  exact ⟨s, of_decide_eq_true facts, counters_exact run⟩

end Refsapi.Clients
