/-
# Clients.Model -- connected clients, their teams, and `g_PlayersNum`

`g_PlayersNum` holds how many clients are in each team and how many of the
terrorists and counter-terrorists are dead.  It is never recomputed: each engine
event moves it by one.  An `Event` is one call of the engine into the module
together with what the engine does around it; `engine` is everything else the
engine and the plugins do to an edict.
-/
import Mathlib.Logic.Function.Basic
import Refsapi.Lib.Transition
import Refsapi.Misc.Edict

namespace Refsapi.Clients

set_option autoImplicit false

/-! ## Data -/

/-- `TEAMS_t`.  The last two only index `g_PlayersNum`. -/
inductive Team where
  | unassigned
  | terrorist
  | ct
  | spectrator
  | deadTt
  | deadCt
  deriving DecidableEq, Repr

def Team.num : Team → Nat
  | unassigned => 0
  | terrorist => 1
  | ct => 2
  | spectrator => 3
  | deadTt => 4
  | deadCt => 5

def isValidTeam (team : Int) : Bool := Team.terrorist.num ≤ team && team ≤ Team.ct.num

/-- `TEAM_DEAD_TT + team - 1`. -/
def deadIndex (team : Int) : Nat := ((Team.deadTt.num : Int) + team - 1).toNat

/-- The team that the text of a `TeamInfo` message names. -/
def newTeam : List Char → Team
  | 'T' :: _ => .terrorist
  | 'C' :: _ => .ct
  | 'S' :: _ => .spectrator
  | _ => .unassigned

/-- `sClients`. -/
structure Client where
  isConnected : Bool
  isBot : Bool
  team : Team
  deriving DecidableEq, Repr

def Client.zero : Client := ⟨false, false, .unassigned⟩

/-- What the `void *` that a message hook is given points to. -/
inductive Value where
  | int (value : Int)
  /-- a C string, or the null pointer -/
  | string (text : Option (List Char))
  deriving DecidableEq, Repr

structure State where
  maxClients : Nat
  clients : Nat → Client
  playersNum : Nat → Int
  edicts : Nat → Edict
  /-- `m_state` -/
  mState : Nat
  /-- the static `id` of `Client_TeamInfo` -/
  infoId : Int

namespace State

/-- After the `memset`s of `ServerDeactivate_Post`. -/
def zero (maxClients : Nat) (edicts : Nat → Edict) : State where
  maxClients := maxClients
  clients := fun _ => .zero
  playersNum := fun _ => 0
  edicts := edicts
  mState := 0
  infoId := 0

def setClient (s : State) (id : Nat) (c : Client) : State :=
  { s with clients := Function.update s.clients id c }

def setEdict (s : State) (id : Nat) (p : Edict) : State :=
  { s with edicts := Function.update s.edicts id p }

/-- `g_PlayersNum[i] += d`. -/
def add (s : State) (i : Nat) (d : Int) : State :=
  { s with playersNum := Function.update s.playersNum i (s.playersNum i + d) }

def team (s : State) (id : Nat) : Team := (s.clients id).team

def connected (s : State) (id : Nat) : Bool := (s.clients id).isConnected

/-- `deadflag != DEAD_NO`. -/
def dead (s : State) (id : Nat) : Bool := (s.edicts id).deadflag != 0

/-- `is_valid_team(team) && g_PlayersNum[TEAM_DEAD_TT + team - 1] > 0`. -/
def hasDead (s : State) (team : Int) : Bool :=
  isValidTeam team && s.playersNum (deadIndex team) > 0

/-- Each handler moves a dead counter only when it is positive. -/
def adjustDead (s : State) (team d : Int) : State :=
  if s.hasDead team then s.add (deadIndex team) d else s

/-! ## The event handlers -/

def clientPutInServer (s : State) (id : Nat) (isBot : Bool) : State :=
  if isValidIndex s.maxClients id then
    (s.setClient id { s.clients id with isBot, isConnected := true, team := .unassigned }).add
      Team.unassigned.num 1
  else s

def clientDisconnected (s : State) (id : Nat) : State :=
  if isValidIndex s.maxClients id && s.connected id then
    let s := s.setClient id { s.clients id with isConnected := false, isBot := false }
    let s := s.add (s.team id).num (-1)
    if isValidEntity (s.edicts id) && s.dead id then s.adjustDead (s.team id).num (-1) else s
  else s

/-- The dead counters when a dead client changes its team. -/
def moveDead (s : State) (id : Nat) (new : Team) : State :=
  if isValidEntity (s.edicts id) && s.dead id then
    (s.adjustDead (s.team id).num (-1)).adjustDead new.num 1
  else s

/-- The tracked team and its counters. -/
def changeTeam (s : State) (id : Nat) (new : Team) : State :=
  if !s.connected id then s.setClient id { s.clients id with team := new }
  else if new != .unassigned && s.team id != new then
    let s := s.moveDead id new
    let s := (s.add (s.team id).num (-1)).add new.num 1
    s.setClient id { s.clients id with team := new }
  else s

/-- `Client_TeamInfo` once it has the id and the text. -/
def teamInfo (s : State) (id : Nat) (new : Team) : State :=
  let s := s.changeTeam id new
  if isValidEntity (s.edicts id) then s.setEdict id { s.edicts id with team := new.num } else s

/-- `Client_TeamInfo(m_value)`.  A byte is read where an id is expected, a string
where a text is; the message is never written in another order. -/
def clientTeamInfo (s : State) (value : Value) : Option State :=
  let next := { s with mState := s.mState + 1 }
  match s.mState, value with
  | 0, .int id => some { next with infoId := id }
  | 1, .string text =>
      some <| if isValidIndex s.maxClients s.infoId.toNat then
        match text with
        | none => next
        | some text => next.teamInfo s.infoId.toNat (newTeam text)
      else next
  | 0, .string _ | 1, .int _ => none
  | _, _ => some next

/-- A whole `TeamInfo` message: `MessageBegin`, `WriteByte`, `WriteString`. -/
def teamInfoMessage (s : State) (id : Int) (text : Option (List Char)) : Option State :=
  (clientTeamInfo { s with mState := 0 } (.int id)).bind fun s => s.clientTeamInfo (.string text)

/-- `CBasePlayer_Spawn_RG`; the engine clears `deadflag` in `callNext`. -/
def spawn (s : State) (id : Nat) : State :=
  let s :=
    if isValidIndex s.maxClients id && s.dead id then s.adjustDead (s.team id).num (-1) else s
  s.setEdict id { s.edicts id with deadflag := 0 }

def checkMapConditions (s : State) : State :=
  { s with playersNum :=
      Function.update (Function.update s.playersNum Team.deadTt.num 0) Team.deadCt.num 0 }

/-- `CBasePlayer_Killed_RG`; the engine sets `deadflag` in `callNext`. -/
def killed (s : State) (id : Nat) (mTeam flag : Int) : State :=
  let s := if s.connected id && isValidTeam mTeam then s.add (deadIndex mTeam) 1 else s
  s.setEdict id { s.edicts id with deadflag := flag }

/-- `rf_get_players_num`: the cells copied to the plugin, and the value returned. -/
def rfGetPlayersNum (s : State) (size : Nat) (teamsOnly : Bool) : List Int × Int :=
  let total := s.playersNum Team.terrorist.num + s.playersNum Team.ct.num
  ((List.range (min 6 size)).map s.playersNum,
    if teamsOnly then total
    else total + s.playersNum Team.unassigned.num + s.playersNum Team.spectrator.num)

end State

/-! ## Events -/

inductive Event where
  | putInServer (id : Nat) (isBot : Bool)
  | teamInfo (id : Int) (text : Option (List Char))
  | disconnected (id : Nat)
  /-- `mTeam` is the player's `m_iTeam`, `flag` the `deadflag` it gets -/
  | killed (id : Nat) (mTeam flag : Int)
  | spawn (id : Nat)
  | checkMapConditions
  | engine (id : Nat) (p : Edict)

/-- One event.  The engine puts a client only into a slot that is not connected,
and a kill leaves a `deadflag` other than `DEAD_NO`. -/
def step (s : State) : Event → Option State
  | .putInServer id isBot => if s.connected id then none else some (s.clientPutInServer id isBot)
  | .teamInfo id text => s.teamInfoMessage id text
  | .disconnected id => some (s.clientDisconnected id)
  | .killed id mTeam flag => if flag = 0 then none else some (s.killed id mTeam flag)
  | .spawn id => some (s.spawn id)
  | .checkMapConditions => some s.checkMapConditions
  | .engine id p => some (s.setEdict id p)

def machine : Machine State Event where
  init s := ∃ maxClients edicts, s = .zero maxClients edicts
  step := step

/-! ## The message -/

/-- A message for a slot with a text changes the team, and any other does nothing. -/
theorem teamInfoMessage_eq (s : State) (id : Int) (text : Option (List Char)) :
    s.teamInfoMessage id text =
      let s := { s with mState := 2, infoId := id }
      match text with
      | none => some s
      | some text =>
          some (if isValidIndex s.maxClients id.toNat then s.teamInfo id.toNat (newTeam text)
            else s) := by
  cases text <;> simp [State.teamInfoMessage, State.clientTeamInfo]

end Refsapi.Clients
