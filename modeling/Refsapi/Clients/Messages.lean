/-
# Clients.Messages -- user messages as the engine writes them

The engine tells the module of a user message piece by piece: the number that a
name is registered under, the beginning of a message with its number, each value
that is written, and the end.  What is kept between the pieces is a table of the
functions by number, the function of the message that was begun last, how many
values it was given (`m_state`) and the `id` that the first of them was.

So the `teamInfo` event of the model of the clients is a thing of a higher level,
and this module connects the two:

* `reachable_view`: however the pieces, the other events and the maps follow each
  other, the clients are those of a run of events;
* `exec_calls`: a stream of messages with an event for each `TeamInfo` message that
  comes after its registration, and for nothing else, ends in the same clients.
-/
import Refsapi.Clients.Teams

namespace Refsapi.Clients

set_option autoImplicit false

/-! ## The hooks of the messages -/

/-- The functions that `g_user_msg` names. -/
inductive MessageHook where
  | clientTeamInfo
  deriving DecidableEq, Repr

def MessageHook.call : MessageHook → State → Value → Option State
  | .clientTeamInfo => State.clientTeamInfo

/-- `g_RegUserMsg`, without the number, which nothing reads. -/
structure RegUserMsg where
  name : String
  func : MessageHook
  endmsg : Bool

/-- `g_user_msg` -/
def userMsg : List RegUserMsg := [⟨"TeamInfo", .clientTeamInfo, false⟩]

/-- The clients, and what the message hooks keep. -/
structure Hooks where
  clients : State
  modMsgs : Nat → Option MessageHook
  modMsgsEnd : Nat → Option MessageHook
  function : Option MessageHook
  endfunction : Option MessageHook

/-- What is written.  The hooks are given the address of a number, which is that of
the bits of a float, or the string. -/
inductive Write where
  | byte (iValue : Int)
  | char (iValue : Int)
  | short (iValue : Int)
  | long (iValue : Int)
  | angle (bits : Int)
  | coord (bits : Int)
  | string (sz : Option (List Char))
  | entity (iValue : Int)
  deriving DecidableEq, Repr

def Write.value : Write → Value
  | byte n | char n | short n | long n | angle n | coord n | entity n => .int n
  | string sz => .string sz

namespace Hooks

/-- When the module is loaded. -/
def loaded (clients : State) : Hooks := ⟨clients, fun _ => none, fun _ => none, none, none⟩

/-- `R_RegUserMsg_Post`, where the engine gave the message a number. -/
def regUserMsg (s : Hooks) (pszName : String) (id : Nat) : Hooks :=
  match userMsg.find? (·.name = pszName) with
  | none => s
  | some msg =>
      if msg.endmsg then { s with modMsgsEnd := Function.update s.modMsgsEnd id (some msg.func) }
      else { s with modMsgs := Function.update s.modMsgs id (some msg.func) }

/-- `R_MessageBegin_Post` -/
def messageBegin (s : Hooks) (msgType : Nat) : Hooks :=
  { s with
    clients := { s.clients with mState := 0 }
    function := s.modMsgs msgType
    endfunction := s.modMsgsEnd msgType }

/-- `if (function) (*function)(value)` -/
def give (s : Hooks) (function : Option MessageHook) (value : Value) : Option Hooks :=
  match function with
  | none => some s
  | some hook => (hook.call s.clients value).map fun clients => { s with clients }

/-- `R_WriteByte_Post` and the seven like it. -/
def write (s : Hooks) (w : Write) : Option Hooks := s.give s.function w.value

/-- `R_MessageEnd_Post` -/
def messageEnd (s : Hooks) : Option Hooks := s.give s.endfunction (.string none)

/-- `ServerDeactivate_Post`, which leaves the tables alone. -/
def serverDeactivate (s : Hooks) (maxClients : Nat) (edicts : Nat → Edict) : Hooks :=
  { s with
    clients :=
      { State.zero maxClients edicts with mState := s.clients.mState, infoId := s.clients.infoId } }

end Hooks

/-- A call of the engine. -/
inductive Call where
  | regUserMsg (pszName : String) (id : Nat)
  | messageBegin (msgType : Nat)
  | write (w : Write)
  | messageEnd
  | serverDeactivate (maxClients : Nat) (edicts : Nat → Edict)
  /-- any event but a message -/
  | event (e : Event)

def Event.isMessage : Event → Bool
  | .teamInfo .. => true
  | _ => false

def Hooks.step (s : Hooks) : Call → Option Hooks
  | .regUserMsg pszName id => some (s.regUserMsg pszName id)
  | .messageBegin msgType => some (s.messageBegin msgType)
  | .write w => s.write w
  | .messageEnd => s.messageEnd
  | .serverDeactivate maxClients edicts => some (s.serverDeactivate maxClients edicts)
  | .event e =>
      if e.isMessage then none
      else (Clients.step s.clients e).map fun clients => { s with clients }

def hooks : Machine Hooks Call where
  init s := ∃ maxClients edicts, s = .loaded (.zero maxClients edicts)
  step := Hooks.step

/-! ## The clients without the registers of a message -/

namespace State

/-- The state but for `m_state` and the `id` of a message. -/
def view (s : State) : State := { s with mState := 0, infoId := 0 }

theorem view_adjustDead (s : State) (team d : Int) :
    (s.adjustDead team d).view = s.view.adjustDead team d := by
  unfold adjustDead
  rw [apply_ite view]
  rfl

theorem view_clientPutInServer (s : State) (id : Nat) (isBot : Bool) :
    (s.clientPutInServer id isBot).view = s.view.clientPutInServer id isBot := by
  unfold clientPutInServer
  rw [apply_ite view]
  rfl

theorem view_clientDisconnected (s : State) (id : Nat) :
    (s.clientDisconnected id).view = s.view.clientDisconnected id := by
  simp only [clientDisconnected, apply_ite view, view_adjustDead]
  rfl

theorem view_moveDead (s : State) (id : Nat) (new : Team) :
    (s.moveDead id new).view = s.view.moveDead id new := by
  simp only [moveDead, apply_ite view, view_adjustDead]
  rfl

theorem view_changeTeam (s : State) (id : Nat) (new : Team) :
    (s.changeTeam id new).view = s.view.changeTeam id new := by
  have clients : (s.view.moveDead id new).clients = (s.moveDead id new).clients := by
    rw [← view_moveDead]
    rfl
  unfold changeTeam
  by_cases off : (!s.connected id) = true
  · rw [if_pos off, if_pos (show (!s.view.connected id) = true from off)]
    rfl
  rw [if_neg off, if_neg (show ¬ (!s.view.connected id) = true from off)]
  by_cases moves : (new != .unassigned && s.team id != new) = true
  · rw [if_pos moves, if_pos (show (new != .unassigned && s.view.team id != new) = true from moves)]
    simp only [team, add_clients, clients]
    rw [← view_moveDead]
    rfl
  · rw [if_neg moves,
      if_neg (show ¬ (new != .unassigned && s.view.team id != new) = true from moves)]

theorem view_teamInfo (s : State) (id : Nat) (new : Team) :
    (s.teamInfo id new).view = s.view.teamInfo id new := by
  have moved := view_changeTeam s id new
  have edicts : (s.view.changeTeam id new).edicts = (s.changeTeam id new).edicts := by
    rw [← moved]
    rfl
  simp only [teamInfo, apply_ite view, edicts]
  rw [← moved]
  rfl

theorem view_spawn (s : State) (id : Nat) : (s.spawn id).view = s.view.spawn id := by
  unfold spawn
  by_cases counted : (isValidIndex s.maxClients id && s.dead id) = true
  · have moved := view_adjustDead s (s.team id).num (-1)
    rw [if_pos counted,
      if_pos (show (isValidIndex s.view.maxClients id && s.view.dead id) = true from counted)]
    rw [show s.view.team id = s.team id from rfl, ← moved]
    rfl
  · rw [if_neg counted,
      if_neg (show ¬ (isValidIndex s.view.maxClients id && s.view.dead id) = true from counted)]
    rfl

theorem view_teamInfoMessage (s : State) (id : Int) (text : Option (List Char)) :
    (s.teamInfoMessage id text).map view = (s.view.teamInfoMessage id text).map view := by
  rw [teamInfoMessage_eq, teamInfoMessage_eq]
  rfl

end State

open State (view)

/-- An event does not read the registers. -/
theorem view_step (s : State) (e : Event) :
    (step s e).map view = (step s.view e).map view := by
  have again {x y : State} (same : x.view = y) : some x.view = some y.view := by
    rw [← same]
    rfl
  cases e with
  | putInServer id isBot =>
      show Option.map view (if s.connected id then none else _) =
        Option.map view (if s.connected id then none else _)
      split
      · rfl
      · exact again (State.view_clientPutInServer s id isBot)
  | teamInfo id text => exact State.view_teamInfoMessage s id text
  | disconnected id => exact again (State.view_clientDisconnected s id)
  | killed id mTeam flag =>
      show Option.map view (if flag = 0 then none else _) =
        Option.map view (if flag = 0 then none else _)
      split
      · rfl
      · refine again ?_
        unfold State.killed
        by_cases counted : (s.connected id && isValidTeam mTeam) = true
        · rw [if_pos counted,
            if_pos (show (s.view.connected id && isValidTeam mTeam) = true from counted)]
          rfl
        · rw [if_neg counted,
            if_neg (show ¬ (s.view.connected id && isValidTeam mTeam) = true from counted)]
          rfl
  | spawn id => exact again (State.view_spawn s id)
  | checkMapConditions => rfl
  | engine id p => rfl

/-- States that look the same still do after an event. -/
theorem step_of_view {s t : State} (same : s.view = t.view) (e : Event) :
    (step s e).map view = (step t e).map view := by
  rw [view_step s, view_step t, same]

/-! ## The pieces of a message -/

/-- The second value of a `TeamInfo` message is where it takes effect. -/
theorem clientTeamInfo_string {s s' : State} (second : s.mState = 1) {text : Option (List Char)}
    (moved : s.clientTeamInfo (.string text) = some s') :
    (step s (.teamInfo s.infoId text)).map view = some s'.view := by
  have whole : (step s (.teamInfo s.infoId text)).map view =
      (State.teamInfoMessage s s.infoId text).map view := rfl
  rw [whole, teamInfoMessage_eq]
  simp only [State.clientTeamInfo, second, Option.some.injEq] at moved
  subst moved
  cases text with
  | none => simp [State.view]
  | some text =>
      by_cases valid : isValidIndex s.maxClients s.infoId.toNat = true
      · simp only [valid, if_true, Option.map_some, State.view_teamInfo]
      · simp only [valid, Option.map_some]

/-- The other values do nothing to be seen. -/
theorem clientTeamInfo_other {s s' : State} {value : Value}
    (other : s.mState = 1 → ∀ text, value ≠ .string text)
    (moved : s.clientTeamInfo value = some s') : s'.view = s.view := by
  unfold State.clientTeamInfo at moved
  split at moved
  · cases moved
    rfl
  · next second => exact absurd rfl (other second _)
  · cases moved
  · cases moved
  · cases moved
    rfl

/-- What a hook is given is an event, or is not seen. -/
theorem give_view {s s' : Hooks} {function : Option MessageHook} {value : Value}
    (moved : s.give function value = some s') :
    s'.clients.view = s.clients.view ∨
      ∃ e, (step s.clients e).map view = some s'.clients.view := by
  cases function with
  | none =>
      cases moved
      exact .inl rfl
  | some hook =>
      obtain ⟨clients, called, rfl⟩ := Option.map_eq_some_iff.1 moved
      cases hook
      by_cases second : s.clients.mState = 1 ∧ ∃ text, value = .string text
      · obtain ⟨first, text, rfl⟩ := second
        exact .inr ⟨_, clientTeamInfo_string first called⟩
      · refine .inl (clientTeamInfo_other (fun one text same => ?_) called)
        exact second ⟨one, text, same⟩

/-- One call of the engine is one event, the start of a map, or is not seen. -/
theorem view_of_step {s s' : Hooks} {c : Call} (moved : s.step c = some s') :
    s'.clients.view = s.clients.view ∨
      (∃ e, (step s.clients e).map view = some s'.clients.view) ∨
      ∃ maxClients edicts, s'.clients.view = State.zero maxClients edicts := by
  cases c with
  | regUserMsg pszName id =>
      cases moved
      refine .inl ?_
      unfold Hooks.regUserMsg
      split
      · rfl
      · split <;> rfl
  | messageBegin msgType =>
      cases moved
      exact .inl rfl
  | write w => exact (give_view moved).imp id .inl
  | messageEnd => exact (give_view moved).imp id .inl
  | serverDeactivate maxClients edicts =>
      cases moved
      exact .inr (.inr ⟨maxClients, edicts, rfl⟩)
  | event e =>
      unfold Hooks.step at moved
      simp only at moved
      split at moved
      · cases moved
      · obtain ⟨clients, stepped, rfl⟩ := Option.map_eq_some_iff.1 moved
        refine .inr (.inl ⟨e, ?_⟩)
        rw [stepped]
        rfl

/-- **Messages refine events.**  However the pieces of messages, the other events and the
maps follow each other, the clients are those of a run of events, so the team counters are
exact. -/
theorem reachable_view {s : Hooks} (run : hooks.Reachable s) :
    (∃ t, machine.Reachable t ∧ t.view = s.clients.view) ∧ Exact s.clients := by
  have simulated : ∃ t, machine.Reachable t ∧ t.view = s.clients.view := by
    refine Machine.Reaches.invariant (I := fun s => ∃ t, machine.Reachable t ∧
      t.view = s.clients.view) ?_ ?_ run
    · rintro _ ⟨maxClients, edicts, rfl⟩
      exact ⟨_, .init ⟨maxClients, edicts, rfl⟩, rfl⟩
    · rintro s c s' - ⟨t, before, same⟩ - moved
      rcases view_of_step moved with unseen | ⟨e, stepped⟩ | ⟨maxClients, edicts, fresh⟩
      · exact ⟨t, before, same.trans unseen.symm⟩
      · rw [← step_of_view same e] at stepped
        obtain ⟨t', moved, same'⟩ := Option.map_eq_some_iff.1 stepped
        exact ⟨t', before.step trivial moved, same'⟩
      · exact ⟨_, .init ⟨maxClients, edicts, rfl⟩, fresh.symm⟩
  obtain ⟨t, before, same⟩ := simulated
  have exact := exact_of_reachable before
  have counted : SameTeams t.view s.clients.view := by
    rw [same]
    exact .refl _
  exact ⟨⟨t, before, same⟩, exact.of_same (show SameTeams t s.clients from counted)⟩

/-- The second map, and a client that is put in its slot inside a message. -/
theorem reachable_view_secondMap : ∃ s : Hooks, (s.clients.team 2 = .ct ∧ s.clients.mState = 2) ∧
    (∃ t, machine.Reachable t ∧ t.view = s.clients.view) ∧ Exact s.clients := by
  have ends : (hooks.exec (.loaded (.zero 32 fun _ => .zero))
      [.regUserMsg "TeamInfo" 86, .event (.putInServer 1 false),
        .serverDeactivate 32 fun _ => .zero, .messageBegin 86, .write (.byte 2),
        .event (.putInServer 2 true), .write (.string (some ['C'])), .messageEnd]).map
      (fun s => decide (s.clients.team 2 = .ct ∧ s.clients.mState = 2)) = some true := by
    decide +kernel
  obtain ⟨s, run, facts⟩ := Machine.exists_reachable (M := hooks) ⟨32, _, rfl⟩ ends
  exact ⟨s, of_decide_eq_true facts, reachable_view run⟩

/-! ## A stream of messages -/

/-- What the engine does next: it registers a name, writes a whole message, or anything
else happens. -/
inductive Item where
  | register (pszName : String) (id : Nat)
  | message (msgType : Nat) (writes : List Write)
  | event (e : Event)

namespace Item

def calls : Item → List Call
  | register pszName id => [.regUserMsg pszName id]
  | message msgType writes => .messageBegin msgType :: (writes.map .write ++ [.messageEnd])
  | event e => [.event e]

/-- The numbers of `TeamInfo`, which is registered anew for each map. -/
def known (ids : List Nat) : Item → List Nat
  | register pszName id => if pszName = "TeamInfo" then id :: ids else ids
  | _ => ids

/-- The event that an item is. -/
def event? (ids : List Nat) : Item → Option Event
  | register .. => none
  | message msgType writes =>
      if msgType ∈ ids then
        match writes with
        | first :: second :: _ =>
            match first.value, second.value with
            | .int id, .string text => some (.teamInfo id text)
            | _, _ => none
        | _ => none
      else none
  | event e => some e

/-- A message with a number of `TeamInfo` begins with a number and a string. -/
def Formed (ids : List Nat) : Item → Prop
  | register .. => True
  | message msgType writes => msgType ∈ ids →
      ∃ first second rest id text, writes = first :: second :: rest ∧
        first.value = .int id ∧ second.value = .string text
  | event e => e.isMessage = false

end Item

def events (ids : List Nat) : List Item → List Event
  | [] => []
  | item :: rest => (item.event? ids).toList ++ events (item.known ids) rest

/-- Every message of the stream has its format. -/
def AllFormed (ids : List Nat) : List Item → Prop
  | [] => True
  | item :: rest => item.Formed ids ∧ AllFormed (item.known ids) rest

/-! ### The values of a message -/

theorem mState_adjustDead (s : State) (team d : Int) :
    (s.adjustDead team d).mState = s.mState := by
  unfold State.adjustDead
  split <;> rfl

theorem mState_teamInfo (s : State) (id : Nat) (new : Team) :
    (s.teamInfo id new).mState = s.mState := by
  have dead : (s.moveDead id new).mState = s.mState := by
    unfold State.moveDead
    split
    · rw [mState_adjustDead, mState_adjustDead]
    · rfl
  have moved : (s.changeTeam id new).mState = s.mState := by
    unfold State.changeTeam
    split
    · rfl
    · split
      · exact dead
      · rfl
  unfold State.teamInfo
  simp only
  split <;> exact moved

/-- The two values of a `TeamInfo` message are its event, and `m_state` is 2. -/
theorem exec_teamInfo {s : Hooks} (hooked : s.function = some .clientTeamInfo)
    (begun : s.clients.mState = 0) {first second : Write} {id : Int} {text : Option (List Char)}
    (isInt : first.value = .int id) (isString : second.value = .string text) :
    ∃ clients, hooks.exec s [.write first, .write second] = some { s with clients } ∧
      (step s.clients (.teamInfo id text)).map view = some clients.view ∧
      clients.mState = 2 := by
  let noted : State := { s.clients with mState := 1, infoId := id }
  have one : s.write first = some { s with clients := noted } := by
    simp only [Hooks.write, Hooks.give, hooked, isInt, MessageHook.call, State.clientTeamInfo,
      begun, Option.map_some]
    rfl
  obtain ⟨clients, two⟩ : ∃ clients, noted.clientTeamInfo (.string text) = some clients := ⟨_, rfl⟩
  refine ⟨clients, ?_, ?_, ?_⟩
  · have written : Hooks.write { s with clients := noted } second = some { s with clients } := by
      simp only [Hooks.write, Hooks.give, hooked, isString, MessageHook.call, two, Option.map_some]
    show (s.write first).bind _ = _
    rw [one]
    show (Hooks.write { s with clients := noted } second).bind _ = _
    rw [written]
    rfl
  · rw [← clientTeamInfo_string rfl two]
    exact step_of_view rfl _
  · simp only [State.clientTeamInfo, noted, Option.some.injEq] at two
    subst two
    split
    · split
      · rfl
      · rw [mState_teamInfo]
    · rfl

/-- Values that no hook is given, or that come third or later, are not seen. -/
theorem exec_writes {s : Hooks} (deaf : s.function = none ∨ 2 ≤ s.clients.mState)
    (writes : List Write) :
    ∃ clients, hooks.exec s (writes.map .write) = some { s with clients } ∧
      clients.view = s.clients.view := by
  induction writes generalizing s with
  | nil => exact ⟨_, rfl, rfl⟩
  | cons w rest ih =>
      obtain ⟨clients, one, same, late⟩ : ∃ clients, s.write w = some { s with clients } ∧
          clients.view = s.clients.view ∧ (s.function = none ∨ 2 ≤ clients.mState) := by
        have unheard (none : s.function = none) : s.write w = some s := by
          rw [Hooks.write, none]
          rfl
        by_cases none : s.function = none
        · exact ⟨s.clients, unheard none, rfl, .inl none⟩
        · have late := deaf.resolve_left none
          obtain ⟨hook, hooked⟩ := Option.ne_none_iff_exists'.1 none
          obtain ⟨n, far⟩ : ∃ n, s.clients.mState = n + 2 := ⟨_, (Nat.sub_add_cancel late).symm⟩
          refine ⟨{ s.clients with mState := s.clients.mState + 1 }, ?_, rfl, .inr ?_⟩
          · cases hook
            simp only [Hooks.write, Hooks.give, hooked, MessageHook.call, State.clientTeamInfo, far]
            rfl
          · exact Nat.le_succ_of_le late
      obtain ⟨last, more, same'⟩ := ih (s := { s with clients }) late
      refine ⟨last, ?_, same'.trans same⟩
      show (s.write w).bind _ = _
      rw [one]
      exact more

/-! ### Whole messages -/

/-- The tables are those of the registered numbers. -/
structure Hooks.Knows (s : Hooks) (ids : List Nat) : Prop where
  own : ∀ n, s.modMsgs n = if n ∈ ids then some .clientTeamInfo else none
  ends : ∀ n, s.modMsgsEnd n = none

/-- The calls lead where the events do, if they lead anywhere. -/
def Agree (ids : List Nat) (calls : Option Hooks) (events : Option State) : Prop :=
  (calls.map fun s => s.clients.view) = events.map view ∧ ∀ s ∈ calls, s.Knows ids

theorem exec_message {s : Hooks} {ids : List Nat} (knows : s.Knows ids) {msgType : Nat}
    {writes : List Write} (formed : (Item.message msgType writes).Formed ids) :
    ∃ last, hooks.exec s (Item.message msgType writes).calls = some last ∧ last.Knows ids ∧
      ((Item.message msgType writes).event? ids = none ∧ last.clients.view = s.clients.view ∨
        ∃ e, (Item.message msgType writes).event? ids = some e ∧
          (step s.clients e).map view = some last.clients.view) := by
  -- the end of a message is not heard
  have closed (writes : List Write) (before after : Hooks) (silent : after.endfunction = none)
      (written : hooks.exec before (writes.map .write) = some after) :
      hooks.exec before (writes.map .write ++ [.messageEnd]) = some after := by
    rw [Machine.exec_append, written]
    show (after.give after.endfunction _).bind _ = _
    rw [silent]
    rfl
  let begun := s.messageBegin msgType
  have silent : begun.endfunction = none := knows.ends msgType
  by_cases mine : msgType ∈ ids
  · obtain ⟨first, second, rest, id, text, rfl, isInt, isString⟩ := formed mine
    have hooked : begun.function = some .clientTeamInfo := (knows.own msgType).trans (if_pos mine)
    obtain ⟨clients, pair, stepped, two⟩ := exec_teamInfo hooked rfl isInt isString
    obtain ⟨last, more, same⟩ := exec_writes (s := { begun with clients }) (.inr two.ge) rest
    refine ⟨{ begun with clients := last }, ?_, ⟨knows.own, knows.ends⟩, .inr ⟨.teamInfo id text,
      ?_, ?_⟩⟩
    · refine closed (first :: second :: rest) begun _ silent ?_
      rw [show (first :: second :: rest).map Call.write =
        [.write first, .write second] ++ rest.map .write from rfl, Machine.exec_append, pair]
      exact more
    · simp only [Item.event?, mine, isInt, isString, if_true]
    · rw [same, ← stepped]
      exact step_of_view rfl _
  · have deaf : begun.function = none := (knows.own msgType).trans (if_neg mine)
    obtain ⟨last, written, same⟩ := exec_writes (.inl deaf) writes
    refine ⟨{ begun with clients := last }, closed writes begun _ silent written,
      ⟨knows.own, knows.ends⟩, .inl ⟨?_, same⟩⟩
    simp only [Item.event?, mine, if_false]

theorem knows_regUserMsg {s : Hooks} {ids : List Nat} (knows : s.Knows ids) (pszName : String)
    (id : Nat) : (s.regUserMsg pszName id).Knows ((Item.register pszName id).known ids) := by
  rw [show (Item.register pszName id).known ids =
    if pszName = "TeamInfo" then id :: ids else ids from rfl]
  unfold Hooks.regUserMsg
  by_cases named : pszName = "TeamInfo"
  · subst named
    rw [if_pos rfl]
    refine ⟨fun n => ?_, knows.ends⟩
    show Function.update s.modMsgs id (some MessageHook.clientTeamInfo) n = _
    rw [Function.update_apply, knows.own n]
    by_cases here : n = id
    · rw [if_pos here, if_pos (here ▸ List.mem_cons_self)]
    · simp only [here, if_false, List.mem_cons, false_or]
  · have missing : userMsg.find? (·.name = pszName) = none := by
      rw [userMsg, List.find?_singleton, if_neg]
      exact fun same => named (of_decide_eq_true same).symm
    rw [missing, if_neg named]
    exact knows

theorem exec_item {s : Hooks} {t : State} {ids : List Nat} (knows : s.Knows ids)
    (same : s.clients.view = t.view) {item : Item} (formed : item.Formed ids) :
    Agree (item.known ids) (hooks.exec s item.calls)
      (machine.exec t (item.event? ids).toList) := by
  have single (e : Event) : machine.exec t [e] = step t e := Option.bind_fun_some _
  cases item with
  | register pszName id =>
      have named := knows_regUserMsg knows pszName id
      refine ⟨?_, fun _ isLast => Option.some.inj isLast ▸ named⟩
      show some (s.regUserMsg pszName id).clients.view = some t.view
      rw [← same]
      unfold Hooks.regUserMsg
      split
      · rfl
      · split <;> rfl
  | message msgType writes =>
      obtain ⟨last, runs, knows', seen⟩ := exec_message knows formed
      rw [runs]
      refine ⟨?_, fun _ isLast => Option.some.inj isLast ▸ knows'⟩
      rcases seen with ⟨none, still⟩ | ⟨e, event, stepped⟩
      · rw [none]
        exact congrArg some (still.trans same)
      · rw [event, Option.toList_some, single, ← step_of_view same, stepped]
        rfl
  | event e =>
      have other : e.isMessage = false := formed
      show Agree ids ((s.step (.event e)).bind fun s' => some s') (machine.exec t [e])
      rw [Option.bind_fun_some, single]
      unfold Hooks.step
      simp only [other, Bool.false_eq_true, if_false]
      refine ⟨?_, ?_⟩
      · rw [← step_of_view same, Option.map_map]
        rfl
      · intro s' found
        obtain ⟨clients, -, rfl⟩ := Option.map_eq_some_iff.1 (Option.mem_def.1 found)
        exact ⟨knows.own, knows.ends⟩

/-- **Each message counts once.**  In a stream of registrations, whole messages and other
events, the calls of the engine come to what the events come to, where the events are the
others and one `teamInfo` for each message that has a number of `TeamInfo` when it is begun.
Neither the values that follow the two of such a message nor those of any other message
are seen. -/
theorem exec_calls {s : Hooks} {t : State} {ids : List Nat} (knows : s.Knows ids)
    (same : s.clients.view = t.view) {items : List Item} (formed : AllFormed ids items) :
    ((hooks.exec s (items.flatMap Item.calls)).map fun s => s.clients.view) =
      (machine.exec t (events ids items)).map view := by
  induction items generalizing s t ids with
  | nil => exact congrArg some same
  | cons item rest ih =>
      obtain ⟨first, formed⟩ := formed
      rw [List.flatMap_cons, events, Machine.exec_append, Machine.exec_append]
      obtain ⟨views, knows'⟩ := exec_item knows same first
      cases runs : hooks.exec s item.calls with
      | none =>
          rw [runs] at views
          rw [Option.map_eq_none_iff.1 views.symm]
          rfl
      | some s' =>
          rw [runs] at views
          obtain ⟨t', steps, same'⟩ := Option.map_eq_some_iff.1 views.symm
          rw [steps]
          exact ih (knows' s' runs) same'.symm formed

/-- A client is put in its slot and joins, and another message and a longer `TeamInfo` come
between. -/
theorem exec_calls_joins :
    let items : List Item := [.register "TeamInfo" 86, .register "Damage" 71,
      .event (.putInServer 1 false), .message 71 [.byte 1, .string (some ['T'])],
      .message 86 [.byte 1, .string (some ['C', 'T']), .byte 7]]
    ((hooks.exec (.loaded (.zero 32 fun _ => .zero)) (items.flatMap Item.calls)).map
        fun s => (s.clients.team 1, s.clients.playersNum 2)) = some (.ct, 1) ∧
      ((hooks.exec (.loaded (.zero 32 fun _ => .zero)) (items.flatMap Item.calls)).map
        fun s => s.clients.view) =
      (machine.exec (.zero 32 fun _ => .zero)
        [.putInServer 1 false, .teamInfo 1 (some ['C', 'T'])]).map view := by
  refine ⟨by decide +kernel,
    exec_calls (show Hooks.Knows _ [] from ⟨fun _ => rfl, fun _ => rfl⟩) rfl ?_⟩
  refine ⟨trivial, trivial, rfl, ?_, ?_, trivial⟩
  · intro mine
    exact absurd mine (by decide)
  · intro
    exact ⟨_, _, _, _, _, rfl, rfl, rfl⟩

end Refsapi.Clients
