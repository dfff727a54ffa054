/-
# Clients.Dead -- when the dead counters are exact

After a reset of the round the two dead counters ought to hold how many
connected clients of each team are dead (`Law`).  A step keeps the law exactly
when it meets `Counted` (`law_step_iff`); the one ordinary step that does not is
a dead client joining a team none of whose members is counted as dead, because
`Client_TeamInfo` puts the guard of its decrement on the increment as well.
-/
import Refsapi.Clients.Teams

namespace Refsapi.Clients

set_option autoImplicit false

variable {s s' : State} {e : Event}

/-! ## The law -/

/-- The dead counter of a team. -/
def State.deadNum (s : State) (t : Team) : Int := s.playersNum (deadIndex t.num)

/-- The slots counted as the dead of a team. -/
def State.deadIn (s : State) (t : Team) (id : Nat) : Bool :=
  s.connected id && s.team id == t && s.dead id

/-- Each dead counter is the number of connected slots of the team that are dead. -/
def Law (s : State) : Prop :=
  ∀ t ∈ [Team.terrorist, .ct], s.deadNum t = slots s.maxClients (s.deadIn t)

theorem mem_valid {t : Team} : t ∈ [Team.terrorist, .ct] ↔ isValidTeam t.num = true := by
  cases t <;> decide

theorem deadIndex_inj {t t' : Team} (valid : t ∈ [Team.terrorist, .ct])
    (valid' : t' ∈ [Team.terrorist, .ct]) : deadIndex t.num = deadIndex t'.num ↔ t = t' := by
  simp only [List.mem_cons, List.not_mem_nil, or_false] at valid valid'
  rcases valid with rfl | rfl <;> rcases valid' with rfl | rfl <;> decide

theorem deadNum_add {t u : Team} (valid : t ∈ [Team.terrorist, .ct])
    (valid' : u ∈ [Team.terrorist, .ct]) (d : Int) :
    (s.add (deadIndex u.num) d).deadNum t = s.deadNum t + if u = t then d else 0 := by
  simp only [State.deadNum, State.add_playersNum, deadIndex_inj valid valid', eq_comm (a := t)]

theorem deadNum_add_num {t : Team} (valid : t ∈ [Team.terrorist, .ct]) {j : Nat} (small : j < 4)
    (d : Int) : (s.add j d).deadNum t = s.deadNum t := by
  have := deadIndex_ge (mem_valid.1 valid)
  rw [State.deadNum, State.add_playersNum, if_neg (by omega), Int.add_zero, State.deadNum]

theorem deadNum_adjustDead {t : Team} (valid : t ∈ [Team.terrorist, .ct]) (u : Team) (d : Int) :
    (s.adjustDead u.num d).deadNum t =
      s.deadNum t + if u = t ∧ 0 < s.deadNum t then d else 0 := by
  unfold State.adjustDead State.hasDead
  by_cases valid' : u ∈ [Team.terrorist, .ct]
  · simp only [mem_valid.1 valid', Bool.true_and, decide_eq_true_eq]
    split
    · rw [deadNum_add valid valid']
      by_cases same : u = t
      · subst same
        simp_all [State.deadNum]
      · simp [same]
    · by_cases same : u = t
      · subst same
        simp_all [State.deadNum]
      · simp [same]
  · have other : u ≠ t := fun same => valid' (same ▸ valid)
    have invalid : isValidTeam u.num = false := by
      rwa [mem_valid, Bool.not_eq_true] at valid'
    simp [invalid, other]

/-- Only one slot changes: the law goes on when the counters follow it. -/
theorem law_change_iff (law : Law s) {id : Nat} (inside : 0 < id ∧ id ≤ s.maxClients)
    (max : s'.maxClients = s.maxClients)
    (same : ∀ t x, x ≠ id → s'.deadIn t x = s.deadIn t x) :
    Law s' ↔ ∀ t ∈ [Team.terrorist, .ct],
      s'.deadNum t + (s.deadIn t id).toNat = s.deadNum t + (s'.deadIn t id).toNat := by
  refine forall₂_congr fun t valid => ?_
  have changed := slots_change (s.deadIn t) (s'.deadIn t) inside.1 inside.2 (same t)
  have before := law t valid
  rw [max]
  omega

theorem Law.congr (law : Law s) (max : s'.maxClients = s.maxClients)
    (num : ∀ t ∈ [Team.terrorist, .ct], s'.deadNum t = s.deadNum t)
    (same : ∀ t ∈ [Team.terrorist, .ct], ∀ id, 0 < id → id ≤ s.maxClients →
      s'.deadIn t id = s.deadIn t id) : Law s' := by
  intro t valid
  rw [num t valid, max, slots_congr fun id low high => same t valid id low high]
  exact law t valid

/-- An edict may change as long as its `deadflag` stays. -/
theorem law_setEdict_iff {id : Nat} {p : Edict} (same : p.deadflag = (s.edicts id).deadflag) :
    Law (s.setEdict id p) ↔ Law s := by
  have deadIn : (s.setEdict id p).deadIn = s.deadIn := by
    funext t x
    by_cases here : x = id
    · subst here
      simp [State.deadIn, State.connected, State.team, State.dead, State.setEdict, same]
    · simp [State.deadIn, State.connected, State.team, State.dead, State.setEdict, here]
  unfold Law
  rw [deadIn]
  rfl

/-- A counted slot makes its counter positive. -/
theorem Law.pos (law : Law s) (id : Nat) {t : Team} (valid : t ∈ [Team.terrorist, .ct])
    (inside : 0 < id ∧ id ≤ s.maxClients) (counted : s.deadIn t id = true) : 0 < s.deadNum t := by
  have := slots_pos inside.1 inside.2 counted
  rw [law t valid]
  omega

/-- A reset is right when all connected clients are alive. -/
theorem law_checkMapConditions (alive : ∀ id, s.connected id = true → s.dead id = false) :
    Law s.checkMapConditions := by
  intro t member
  have none : slots s.maxClients (s.checkMapConditions.deadIn t) = 0 := by
    refine slots_eq_zero fun id _ _ => ?_
    by_cases isConnected : s.connected id = true
    · have dead : s.checkMapConditions.dead id = false := alive id isConnected
      simp [State.deadIn, dead]
    · have free : s.checkMapConditions.connected id = false := Bool.eq_false_iff.2 isConnected
      simp [State.deadIn, free]
  have zero : s.checkMapConditions.deadNum t = 0 := by
    simp only [List.mem_cons, List.not_mem_nil, or_false] at member
    rcases member with rfl | rfl <;> simp [State.deadNum, State.checkMapConditions, deadIndex,
      Team.num]
  rw [zero]
  exact (congrArg Int.ofNat none).symm

/-! ## What the engine promises, and the condition -/

/-- What the engine keeps to in a round: `m_iTeam` is the tracked team, only kills and
spawns change `deadflag`, and another reset comes only when all connected are alive. -/
def Promised (s : State) : Event → Prop
  | .killed id mTeam _ => mTeam = (s.team id).num
  | .engine id p => p.deadflag = (s.edicts id).deadflag
  | .checkMapConditions => ∀ id, s.connected id = true → s.dead id = false
  | _ => True

/-- A dead client changes its team: its entity is valid if one of the teams is counted,
and the new team, if it is counted, has a dead member already. -/
def CountedMove (s : State) (id : Nat) (new : Team) : Prop :=
  s.connected id = true → s.dead id = true → new ≠ .unassigned → s.team id ≠ new →
    (isValidTeam (s.team id).num = true ∨ isValidTeam new.num = true →
      isValidEntity (s.edicts id) = true) ∧
    (isValidTeam new.num = true → 0 < s.deadNum new)

/-- The steps that keep the law. -/
def Counted (s : State) : Event → Prop
  | .killed id _ _ => s.connected id = true → isValidTeam (s.team id).num = true →
      s.dead id = false
  | .spawn id => isValidIndex s.maxClients id = true → s.connected id = false →
      s.dead id = true → s.hasDead (s.team id).num = false
  | .teamInfo id (some text) => isValidIndex s.maxClients id.toNat = true →
      CountedMove s id.toNat (newTeam text)
  | .disconnected id => s.connected id = true → s.dead id = true →
      isValidTeam (s.team id).num = true → isValidEntity (s.edicts id) = true
  | _ => True

/-! ## One step -/

/-- A kill counts the client, so it must not be counted already. -/
theorem law_killed_iff (law : Law s) {id : Nat} {flag : Int} (set : flag ≠ 0)
    (inside : s.connected id = true → 0 < id ∧ id ≤ s.maxClients) :
    Law (s.killed id (s.team id).num flag) ↔ Counted s (.killed id (s.team id).num flag) := by
  have max : (s.killed id (s.team id).num flag).maxClients = s.maxClients := by
    unfold State.killed
    simp only
    split <;> rfl
  have elsewhere (t : Team) (x : Nat) (other : x ≠ id) :
      (s.killed id (s.team id).num flag).deadIn t x = s.deadIn t x := by
    unfold State.killed
    simp only
    split <;> simp [State.deadIn, State.connected, State.team, State.dead, State.setEdict, other]
  have now (t : Team) : (s.killed id (s.team id).num flag).deadIn t id =
      (s.connected id && s.team id == t) := by
    unfold State.killed
    simp only
    split <;> simp [State.deadIn, State.connected, State.team, State.dead, State.setEdict, set]
  have num : ∀ t ∈ [Team.terrorist, .ct], (s.killed id (s.team id).num flag).deadNum t =
      s.deadNum t + if s.connected id = true ∧ s.team id = t then 1 else 0 := by
    intro t valid
    unfold State.killed
    simp only
    split
    · next counted =>
        simp only [Bool.and_eq_true] at counted
        have := deadNum_add (s := s) valid (mem_valid.2 counted.2) 1
        simpa [State.deadNum, counted.1] using this
    · next uncounted =>
        have : ¬ (s.connected id = true ∧ s.team id = t) := by
          rintro ⟨isConnected, rfl⟩
          exact uncounted (by simp [isConnected, mem_valid.1 valid])
        simp [State.deadNum, this]
  by_cases isConnected : s.connected id = true
  · rw [law_change_iff law (inside isConnected) max elsewhere]
    simp only [now]
    simp only [Counted, State.deadIn, isConnected, Bool.true_and, forall_const]
    constructor
    · intro follows valid
      have := follows (s.team id) (mem_valid.2 valid)
      rw [num _ (mem_valid.2 valid)] at this
      cases dead : s.dead id
      · rfl
      · simp [isConnected, dead] at this
    · intro alive t valid
      rw [num t valid]
      by_cases same : s.team id = t
      · subst same
        simp [alive (mem_valid.1 valid), isConnected]
      · have other : (s.team id == t) = false := by simpa using same
        simp [same, other]
  · refine iff_of_true (law.congr max (fun t valid => ?_) fun t _ x _ _ => ?_) ?_
    · simp [num t valid, isConnected]
    · by_cases here : x = id
      · subst here
        rw [now]
        simp [State.deadIn, isConnected]
      · exact elsewhere t x here
    · exact fun connected => absurd connected isConnected

/-- A spawn uncounts the client, connected or not. -/
theorem law_spawn_iff (law : Law s) (id : Nat) : Law (s.spawn id) ↔ Counted s (.spawn id) := by
  have max : (s.spawn id).maxClients = s.maxClients := by
    unfold State.spawn State.adjustDead
    simp only
    split
    · split <;> rfl
    · rfl
  have clients : (s.spawn id).clients = s.clients := by
    unfold State.spawn State.adjustDead
    simp only
    split
    · split <;> rfl
    · rfl
  have edicts : (s.spawn id).edicts =
      Function.update s.edicts id { s.edicts id with deadflag := 0 } := by
    unfold State.spawn State.adjustDead
    simp only
    split
    · split <;> rfl
    · rfl
  have elsewhere (t : Team) (x : Nat) (other : x ≠ id) :
      (s.spawn id).deadIn t x = s.deadIn t x := by
    simp [State.deadIn, State.connected, State.team, State.dead, clients, edicts, other]
  have now (t : Team) : (s.spawn id).deadIn t id = false := by
    simp [State.deadIn, State.dead, edicts]
  by_cases valid : isValidIndex s.maxClients id = true
  · have inside := (isValidIndex_iff _ _).1 valid
    have num : ∀ t ∈ [Team.terrorist, .ct], (s.spawn id).deadNum t = s.deadNum t +
        if s.dead id = true ∧ s.team id = t ∧ 0 < s.deadNum t then -1 else 0 := by
      intro t member
      have result : (s.spawn id).deadNum t =
          (if s.dead id then s.adjustDead (s.team id).num (-1) else s).deadNum t := by
        unfold State.spawn
        simp only [valid, Bool.true_and]
        rfl
      rw [result]
      split
      · next dead =>
          rw [deadNum_adjustDead member]
          simp only [dead, true_and]
      · next alive => rw [if_neg fun both => alive both.1, Int.add_zero]
    rw [law_change_iff law inside max elsewhere]
    simp only [Counted, now, State.hasDead, valid, Bool.toNat_false]
    constructor
    · intro follows _ free dead
      by_cases member : s.team id ∈ [Team.terrorist, .ct]
      · have := follows _ member
        rw [num _ member] at this
        simp only [State.deadIn, free, dead] at this
        simp only [State.deadNum] at this
        have positive : ¬ s.playersNum (deadIndex (s.team id).num) > 0 := by
          intro positive
          simp [positive] at this
        simp [positive]
      · rw [mem_valid, Bool.not_eq_true] at member
        simp [member]
    · intro free t member
      rw [num t member]
      have positive := law.pos id member inside
      by_cases same : s.team id = t
      · subst same
        have none : s.connected id = false → s.dead id = true → ¬ 0 < s.deadNum (s.team id) := by
          intro free' dead
          have := free trivial free' dead
          rw [mem_valid.1 member, Bool.true_and, decide_eq_false_iff_not] at this
          exact this
        simp only [State.deadIn] at positive ⊢
        clear num law elsewhere now
        grind
      · have other : (s.team id == t) = false := by simpa using same
        simp [same, State.deadIn, other]
  · refine iff_of_true (law.congr max (fun t member => ?_) fun t _ x low high => ?_) ?_
    · unfold State.spawn
      simp [valid, State.deadNum]
    · refine elsewhere t x fun here => valid ?_
      subst here
      exact (isValidIndex_iff _ _).2 ⟨low, high⟩
    · exact fun index => absurd index valid

/-- A disconnect uncounts the client while its entity is valid. -/
theorem law_disconnected_iff (law : Law s) {id : Nat} (real : (s.team id).num < 4)
    (inside : s.connected id = true → 0 < id ∧ id ≤ s.maxClients) :
    Law (s.clientDisconnected id) ↔ Counted s (.disconnected id) := by
  by_cases isConnected : s.connected id = true
  · have inside := inside isConnected
    let c : Client := { s.clients id with isConnected := false, isBot := false }
    let left := (s.setClient id c).add ((s.setClient id c).team id).num (-1)
    have result : s.clientDisconnected id =
        if isValidEntity (s.edicts id) && s.dead id then left.adjustDead (s.team id).num (-1)
        else left := by
      have team : (s.setClient id c).team id = s.team id := by
        simp [State.team, State.setClient_apply, c]
      unfold State.clientDisconnected
      rw [if_pos (by simp [isConnected, inside])]
      change (if isValidEntity (s.edicts id) && s.dead id then
        left.adjustDead ((s.setClient id c).team id).num (-1) else left) = _
      rw [team]
    have teams : SameTeams left (s.clientDisconnected id) := by
      rw [result]
      split
      · exact sameTeams_adjustDead left _ _
      · exact .refl left
    obtain ⟨clients, edicts, max, -⟩ := teams
    have elsewhere (t : Team) (x : Nat) (other : x ≠ id) :
        (s.clientDisconnected id).deadIn t x = s.deadIn t x := by
      simp [State.deadIn, State.connected, State.team, State.dead, clients, edicts, left,
        State.setClient_apply, other]
    have now (t : Team) : (s.clientDisconnected id).deadIn t id = false := by
      simp [State.deadIn, State.connected, clients, left, State.setClient_apply, c]
    have num : ∀ t ∈ [Team.terrorist, .ct], (s.clientDisconnected id).deadNum t = s.deadNum t +
        if isValidEntity (s.edicts id) = true ∧ s.dead id = true ∧ s.team id = t ∧
          0 < s.deadNum t then -1 else 0 := by
      intro t member
      have same : left.deadNum t = s.deadNum t := by
        have small : ((s.setClient id c).team id).num < 4 := by
          simpa [State.team, State.setClient_apply, c] using real
        exact deadNum_add_num member small (-1)
      rw [result]
      split
      · next both =>
          rw [deadNum_adjustDead member, same]
          simp_all
      · next neither =>
          rw [same]
          simp_all
    rw [law_change_iff law inside max elsewhere]
    simp only [now]
    simp only [Counted, State.deadIn, isConnected, Bool.true_and, forall_const]
    constructor
    · intro follows dead valid
      have := follows (s.team id) (mem_valid.2 valid)
      rw [num _ (mem_valid.2 valid)] at this
      cases entity : isValidEntity (s.edicts id)
      · simp [dead, entity] at this
      · rfl
    · intro entity t member
      rw [num t member]
      have positive := law.pos id member inside
      by_cases same : s.team id = t
      · subst same
        have entity := fun dead => entity dead (mem_valid.1 member)
        simp only [State.deadIn, isConnected] at positive
        cases dead : s.dead id <;> simp_all
      · simp [same]
  · have result : s.clientDisconnected id = s := by
      unfold State.clientDisconnected
      simp [isConnected]
    rw [result]
    exact iff_of_true law fun connected => absurd connected isConnected

/-- The dead counters after a dead client has changed its team. -/
theorem deadNum_moveDead {t : Team} (member : t ∈ [Team.terrorist, .ct]) {id : Nat} {new : Team}
    (other : s.team id ≠ new) : (s.moveDead id new).deadNum t = s.deadNum t +
      if isValidEntity (s.edicts id) = true ∧ s.dead id = true ∧ 0 < s.deadNum t then
        (if s.team id = t then -1 else 0) + if new = t then 1 else 0
      else 0 := by
  unfold State.moveDead
  by_cases both : isValidEntity (s.edicts id) = true ∧ s.dead id = true
  · rw [if_pos (by simp [both]), deadNum_adjustDead member, deadNum_adjustDead member]
    simp only [both, true_and]
    grind
  · rw [if_neg (by simpa using both)]
    grind

/-- A change of team moves the client from one dead counter to the other. -/
theorem law_changeTeam_iff (law : Law s) {id : Nat} (inside : 0 < id ∧ id ≤ s.maxClients)
    (old : (s.team id).num < 4) {new : Team} (real : new.num < 4) :
    Law (s.changeTeam id new) ↔ CountedMove s id new := by
  by_cases moves : s.connected id = true ∧ new ≠ .unassigned ∧ s.team id ≠ new
  · obtain ⟨isConnected, assigned, other⟩ := moves
    let moved := s.moveDead id new
    have result : s.changeTeam id new =
      ((moved.add (moved.team id).num (-1)).add new.num 1).setClient
        id { s.clients id with team := new } := by
      unfold State.changeTeam
      obtain ⟨clients, -, -, -⟩ := sameTeams_moveDead s id new
      rw [if_neg (by simp [isConnected]), if_pos (by simp [assigned, other])]
      simp only [moved, State.add_clients, clients]
    obtain ⟨clients, edicts, max, -⟩ : SameTeams s moved := sameTeams_moveDead s id new
    have team : moved.team id = s.team id := by simp [State.team, clients]
    have elsewhere (t : Team) (x : Nat) (apart : x ≠ id) :
        (s.changeTeam id new).deadIn t x = s.deadIn t x := by
      simp [result, State.deadIn, State.connected, State.team, State.dead, State.setClient_apply,
        clients, edicts, apart]
    have now (t : Team) : (s.changeTeam id new).deadIn t id = (new == t && s.dead id) := by
      have flag : (s.clients id).isConnected = true := isConnected
      simp [result, State.deadIn, State.connected, State.team, State.dead, State.setClient_apply,
        edicts, flag]
    have num : ∀ t ∈ [Team.terrorist, .ct], (s.changeTeam id new).deadNum t = moved.deadNum t := by
      intro t member
      rw [result]
      have first := deadNum_add_num (s := moved) member (team ▸ old : (moved.team id).num < 4) (-1)
      have second := deadNum_add_num (s := moved.add (moved.team id).num (-1)) member real 1
      exact second.trans first
    rw [law_change_iff law inside (by rw [result]; exact max) elsewhere]
    simp only [now]
    constructor
    · intro follows _ dead _ _
      have at_team := fun member => (num (s.team id) member).trans (deadNum_moveDead member other)
      have at_new := fun member => (num new member).trans (deadNum_moveDead member other)
      have follows_team := follows (s.team id)
      have follows_new := follows new
      simp only [State.deadIn, isConnected, dead] at follows_team follows_new
      have apart : (new == s.team id) = false := by simpa using other.symm
      have apart' : (s.team id == new) = false := by simpa using other
      simp only [← mem_valid]
      clear follows num now elsewhere law
      grind
    · intro counted t member
      rw [num t member, deadNum_moveDead member other]
      have counted := counted isConnected
      have positive := law.pos id member inside
      simp only [← mem_valid, State.deadIn, isConnected] at counted positive ⊢
      clear num now elsewhere law
      grind
  · have law' : Law (s.changeTeam id new) := by
      unfold State.changeTeam
      split
      · next free =>
          have free : (s.clients id).isConnected = false := by simpa [State.connected] using free
          refine law.congr rfl (fun _ _ => rfl) fun t _ x _ _ => ?_
          by_cases here : x = id
          · subst here
            simp [State.deadIn, State.connected, State.setClient_apply, free]
          · simp [State.deadIn, State.connected, State.team, State.dead, State.setClient_apply,
              here]
      · next isConnected =>
          rw [if_neg fun changes => moves ⟨by simpa using isConnected, by simpa using changes⟩]
          exact law
    exact iff_of_true law' fun isConnected _ assigned other =>
      absurd ⟨isConnected, assigned, other⟩ moves

theorem law_teamInfo_iff (law : Law s) {id : Nat} (inside : 0 < id ∧ id ≤ s.maxClients)
    (old : (s.team id).num < 4) {new : Team} (real : new.num < 4) :
    Law (s.teamInfo id new) ↔ CountedMove s id new := by
  rw [← law_changeTeam_iff law inside old real]
  unfold State.teamInfo
  simp only
  split
  · exact law_setEdict_iff rfl
  · rfl

/-- **A step of the round keeps the law exactly when it is counted.** -/
theorem law_step_iff (law : Law s) (exact : Exact s)
    (promised : Promised s e) (moved : step s e = some s') : Law s' ↔ Counted s e := by
  cases e with
  | putInServer id isBot =>
      refine iff_of_true ?_ trivial
      simp only [step] at moved
      split at moved
      · cases moved
      · next free =>
          cases moved
          have free : (s.clients id).isConnected = false := by simpa [State.connected] using free
          unfold State.clientPutInServer
          split
          · refine law.congr rfl (fun t member => deadNum_add_num member (by decide) 1)
              fun t member x _ _ => ?_
            by_cases here : x = id
            · subst here
              have other : (Team.unassigned == t) = false := by
                simp only [List.mem_cons, List.not_mem_nil, or_false] at member
                rcases member with rfl | rfl <;> rfl
              simp [State.deadIn, State.connected, State.team, State.setClient_apply, free, other]
            · simp [State.deadIn, State.connected, State.team, State.dead, State.setClient_apply,
                here]
          · exact law
  | teamInfo id text =>
      simp only [step, teamInfoMessage_eq] at moved
      have begun : Law { s with mState := 2, infoId := id } := law
      cases text with
      | none =>
          cases moved
          exact iff_of_true begun trivial
      | some text =>
          simp only [Option.some.injEq] at moved
          subst moved
          split
          · next valid =>
              have valid' := (isValidIndex_iff _ _).1 valid
              rw [law_teamInfo_iff begun valid' (exact.real id.toNat) (newTeam_real text)]
              exact (imp_iff_right valid).symm
          · next invalid => exact iff_of_true begun fun valid => absurd valid invalid
  | disconnected id =>
      cases moved
      exact law_disconnected_iff law (exact.real id) (exact.inside id)
  | killed id mTeam flag =>
      simp only [step] at moved
      split at moved
      · cases moved
      · next set =>
          cases moved
          subst promised
          exact law_killed_iff law set (exact.inside id)
  | spawn id =>
      cases moved
      exact law_spawn_iff law id
  | checkMapConditions =>
      cases moved
      exact iff_of_true (law_checkMapConditions promised) trivial
  | engine id p =>
      cases moved
      exact iff_of_true ((law_setEdict_iff promised).2 law) trivial

/-! ## The round -/

/-- The events from a reset on at which all connected clients are alive. -/
def round : Machine State Event where
  init s := ∃ s₀, machine.Reachable s₀ ∧ (∀ id, s₀.connected id = true → s₀.dead id = false) ∧
    s = s₀.checkMapConditions
  step := step

/-- A step that the engine makes in a round, and that keeps the law. -/
def Allowed (s : State) (e : Event) : Prop := Promised s e ∧ Counted s e

/-- **The dead counters.**  In every round whose steps are all counted, each dead
counter is the number of connected clients of its team that are dead; and from
there the counters are right after one more step exactly when that step is counted. -/
theorem dead_counted (run : round.Reaches Allowed s) :
    (∀ t ∈ [Team.terrorist, .ct], s.playersNum (deadIndex t.num) =
      slots s.maxClients fun id => s.connected id && s.team id == t && s.dead id) ∧
    ∀ e s', Promised s e → round.step s e = some s' → (Law s' ↔ Counted s e) := by
  have both : machine.Reachable s ∧ Law s := by
    refine Machine.Reaches.invariant (I := fun s => machine.Reachable s ∧ Law s) ?_ ?_ run
    · rintro _ ⟨s₀, run₀, alive, rfl⟩
      exact ⟨.step (a := .checkMapConditions) run₀ trivial rfl, law_checkMapConditions alive⟩
    · rintro s e s' - ⟨reachable, law⟩ ⟨promised, counted⟩ moved
      exact ⟨.step reachable trivial moved,
        (law_step_iff law (exact_of_reachable reachable) promised moved).2 counted⟩
  obtain ⟨reachable, law⟩ := both
  exact ⟨law, fun e s' promised moved => law_step_iff law (exact_of_reachable reachable)
    promised moved⟩

/-! ## The counterexample, and a round that is counted -/

/-- `Promised`, to be tested where it asks something of one slot. -/
def promised (s : State) : Event → Bool
  | .killed id mTeam _ => mTeam == (s.team id).num
  | .engine id p => p.deadflag == (s.edicts id).deadflag
  | .checkMapConditions => false
  | _ => true

theorem promised_sound (s : State) (e : Event) (ok : promised s e = true) : Promised s e := by
  cases e <;> simp_all [promised, Promised]

/-- Two clients join the two teams with valid entities, and the round begins. -/
def twoTeams : List Event :=
  [.engine 1 { Edict.zero with privateData := true },
    .engine 2 { Edict.zero with privateData := true },
    .putInServer 1 false, .putInServer 2 false,
    .teamInfo 1 (some ['T']), .teamInfo 2 (some ['C'])]

instance (s : State) (id : Nat) (new : Team) : Decidable (CountedMove s id new) :=
  inferInstanceAs (Decidable (_ → _ → _ → _ → _ ∧ _))

instance (s : State) : (e : Event) → Decidable (Counted s e)
  | .killed _ _ _ => inferInstanceAs (Decidable (_ → _ → _))
  | .spawn _ => inferInstanceAs (Decidable (_ → _ → _ → _))
  | .teamInfo _ (some _) => inferInstanceAs (Decidable (_ → _))
  | .teamInfo _ none => inferInstanceAs (Decidable True)
  | .disconnected _ => inferInstanceAs (Decidable (_ → _ → _ → _))
  | .putInServer _ _ | .checkMapConditions | .engine _ _ => inferInstanceAs (Decidable True)

/-- A round in which both clients are alive may begin after `twoTeams`. -/
theorem exists_round {ok : State → Event → Bool} {allowed : State → Event → Prop}
    (sound : ∀ s e, ok s e = true → allowed s e) (events : List Event) (p : State → Bool)
    (ends : ((machine.exec (.zero 2 fun _ => .zero) twoTeams).bind fun s =>
      if !s.dead 1 && !s.dead 2 && s.maxClients == 2 then
        (round.execIf ok s.checkMapConditions events).map p
      else none) = some true) : ∃ s, round.Reaches allowed s ∧ p s = true := by
  obtain ⟨s₀, begun, ends⟩ := Option.bind_eq_some_iff.1 ends
  have run : machine.Reachable s₀ := Machine.Reaches.of_exec (.init ⟨2, _, rfl⟩) begun
  split at ends
  · next alive =>
      simp only [Bool.and_eq_true, Bool.not_eq_true', beq_iff_eq] at alive
      refine Machine.exists_reaches (M := round) sound ⟨s₀, run, fun id isConnected => ?_, rfl⟩ ends
      obtain ⟨low, high⟩ := (exact_of_reachable run).inside id isConnected
      have either : id = 1 ∨ id = 2 := by omega
      rcases either with rfl | rfl
      · exact alive.1.1
      · exact alive.1.2
  · cases ends

theorem dead_counted_oneKill : ∃ s : State, s.deadNum .terrorist = 1 ∧
    (∀ t ∈ [Team.terrorist, .ct], s.playersNum (deadIndex t.num) =
      slots s.maxClients fun id => s.connected id && s.team id == t && s.dead id) ∧
    ∀ e s', Promised s e → round.step s e = some s' → (Law s' ↔ Counted s e) := by
  have sound : ∀ s e, (promised s e && decide (Counted s e)) = true → Allowed s e := by
    intro s e ok
    simp only [Bool.and_eq_true, decide_eq_true_eq] at ok
    exact ⟨promised_sound s e ok.1, ok.2⟩
  obtain ⟨s, run, one⟩ := exists_round sound [.killed 1 1 2]
    (fun s => decide (s.deadNum .terrorist = 1)) (by decide)
  exact ⟨s, of_decide_eq_true one, dead_counted run⟩

/-- A dead terrorist joins the counter-terrorists, none of whom is dead: nobody is
counted as dead any more. -/
theorem not_always_counted : ¬ ∀ s, round.Reaches Promised s →
    ∀ t ∈ [Team.terrorist, .ct], s.playersNum (deadIndex t.num) =
      slots s.maxClients fun id => s.connected id && s.team id == t && s.dead id := by
  intro always
  obtain ⟨s, run, facts⟩ := exists_round promised_sound
    [.killed 1 1 2, .teamInfo 1 (some ['C', 'T'])]
    (fun s => decide (s.deadNum .ct = 0 ∧ s.deadIn .ct 1 = true ∧ s.maxClients = 2)) (by decide)
  obtain ⟨zero, counted, max⟩ := of_decide_eq_true facts
  have law : s.deadNum .ct = slots s.maxClients (s.deadIn .ct) := always s run .ct (by decide)
  have := slots_pos (by decide) (by omega : 1 ≤ s.maxClients) counted
  omega

end Refsapi.Clients
