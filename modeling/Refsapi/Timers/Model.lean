/-
# Timers.Model -- `timer_mngr`, its worker and the game thread

A timer is added to `m_timers`, and the worker copies it into `m_timer_queue`, hands
the copy over to `m_frames` when its time has come, and marks the timer executed;
the game thread takes the copy from there, calls the plugin, and arms the timer
again or removes it.

`main` is taken apart into the steps of the worker (`work`), and what the game thread
does into the natives and the steps inside them (`go`).  A step that needs a mutex
waits while the other thread holds it (`WorkerPc.holds`, `GamePc.holds`).  Callbacks
run natives, and a frame that comes in a callback runs callbacks of its own (`inside`).

A `tm_t *` is the id of its timer.  To write through the pointer to a timer that has been
removed (its node may be another timer's by then), to read the top of an empty queue, to
pop one and to look for a group that its plugin does not have are undefined, and are not
steps.
`nums` counts without end, the clock has no last moment, and the manager is never destroyed.
-/
import Refsapi.Lib.Binary
import Refsapi.Lib.Transition
import Refsapi.Misc.Edict

namespace Refsapi.Timers

set_option autoImplicit false

/-! ## Data -/

def timerFlagNone : UInt32 := 0
def timerFlagRepeat : UInt32 := (1 : UInt32) <<< 1
def timerFlagLoop : UInt32 := (1 : UInt32) <<< 2
def timerFlagRelative : UInt32 := (1 : UInt32) <<< 5

/-- `tm_t`, without the data for the callback.  Times are in nanoseconds. -/
structure Tm where
  id : Nat
  amx : Nat
  fwdId : Int
  groupId : Nat
  delaySec : Fp
  time : Int
  flags : UInt32
  repeats : UInt32
  executed : Bool
  deriving DecidableEq

/-- A zeroed `tm_t`. -/
def Tm.zero : Tm := ⟨0, 0, 0, 0, .fin false 0, 0, 0, 0, false⟩

def minDelay : Fp := .ofRat binary32 (1 / 100)
def maxDelay : Fp := .ofRat binary32 (9999999 / 1000)

/-- A delay in milliseconds. -/
def delayMs (delaySec : Fp) : Int := (delaySec.scale binary32 1000).roundInt64

/-- A delay after a time. -/
def later (time : Int) (delaySec : Fp) : Int := time + delayMs delaySec * 1000000

/-- A priority queue after a push. -/
def Pushed (t : Tm) (entries order : List Tm) : Prop :=
  order.Perm (t :: entries) ∧ order.Pairwise fun a b => a.time ≤ b.time

instance (t : Tm) (entries order : List Tm) : Decidable (Pushed t entries order) :=
  inferInstanceAs (Decidable (_ ∧ _))

/-- What happens to a timer: the ids of those that were armed and removed, and the copy that
`frame_forward` had of one whose callback was run, or was not for want of room. -/
inductive Event where
  | armed (id : Nat)
  | executed (t : Tm)
  | missed (t : Tm)
  | removed (id : Nat)
  deriving DecidableEq

def Event.id : Event → Nat
  | armed id => id
  | executed t => t.id
  | missed t => t.id
  | removed id => id

inductive Mutex where
  | loop
  | timer
  | queue
  | frame
  deriving DecidableEq, Repr

/-- Where the worker is in `main`: `start` to `reset` are `start` and `build_queue`, `size`
to `pop` the inner loop, with `t` the entry it has read, and `recheck` to `sleep` what
follows it. -/
inductive WorkerPc where
  | start
  | clear
  | enter
  | scan (rest : List Nat)
  | push (id : Nat) (rest : List Nat)
  | reset
  | size
  | top
  | compare (t : Tm)
  | wait (t : Tm)
  | check (t : Tm)
  | checkLoop (t : Tm)
  | lockFrame (t : Tm)
  | lookup (t : Tm)
  | mark (t : Tm)
  | pop (t : Tm)
  | recheck
  | recheckLoop
  | sleep
  deriving DecidableEq

/-- Where the game thread is.  `signal` is a `stop()` to come, `armed` the timer it is for;
`removing` is one that is called with `timer_mutex` held; `stopFrame` to `restart` are
`stop_all` after its signal; `forward` and `remove` are in `frame_forward`. -/
inductive GamePc where
  | idle
  | signal (armed : Option Nat)
  | removing
  | change (id : Nat) (delaySec : Fp) (flags repeats : UInt32)
  | stopFrame
  | stopQueue
  | stopTimer
  | restart
  | forward (t : Tm)
  | remove (t : Tm)
  deriving DecidableEq

/-- The mutexes that the worker keeps from one step to the next. -/
def WorkerPc.holds : WorkerPc → Mutex → Bool
  | scan _, m | push _ _, m => m == .timer
  | lookup _, m | mark _, m => m == .frame
  | _, _ => false

/-- The mutex that the worker's next step takes. -/
def WorkerPc.wants : WorkerPc → Option Mutex
  | start | reset | wait _ | sleep => some .loop
  | clear | push _ _ => some .queue
  | enter | lookup _ => some .timer
  | lockFrame _ => some .frame
  | _ => none

def GamePc.holds : GamePc → Mutex → Bool
  | removing, m => m == .timer
  | stopQueue, m => m == .frame
  | stopTimer, m => m == .frame || m == .queue
  | _, _ => false

/-- The mutex that the game thread's next step takes. -/
def GamePc.wants : GamePc → Option Mutex
  | signal _ | removing | restart => some .loop
  | stopFrame => some .frame
  | stopQueue => some .queue
  | stopTimer | forward _ | remove _ => some .timer
  | _ => none

/-- `timers` are the timers of `m_timers` in the order of a walk through it, and `groups` the
pairs of keys that lead to a list, empty or not; `queue` and `frames` are the two priority
queues from the top; `inside` are the timers whose callbacks are running, innermost first. -/
structure State where
  maxClients : Nat
  timers : List Tm
  groups : List (Nat × Nat)
  queue : List Tm
  frames : List Tm
  nums : Nat
  stopLoop : Bool
  stopTimer : Bool
  worker : WorkerPc
  game : GamePc
  inside : List Tm
  history : List Event

namespace State

def zero (maxClients : Nat) : State where
  maxClients := maxClients
  timers := []
  groups := []
  queue := []
  frames := []
  nums := 0
  stopLoop := false
  stopTimer := false
  worker := .start
  game := .idle
  inside := []
  history := []

/-- `get_timer_by_id` with a group. -/
def getTimerById (s : State) (amx groupId id : Nat) : Option (Option Tm) :=
  if s.groups.any (fun key => key.1 == amx) && !s.groups.contains (amx, groupId) then none
  else some (s.timers.find? fun t => t.amx == amx && t.groupId == groupId && t.id == id)

/-- The timers once one of them has been written to. -/
def written (s : State) (id : Nat) (f : Tm → Tm) : State :=
  { s with timers := s.timers.map fun t => if t.id = id then f t else t }

/-- Write to a timer through a pointer, which must still lead to it. -/
def write (s : State) (id : Nat) (f : Tm → Tm) : Option State :=
  if s.timers.any fun t => t.id == id then some (s.written id f) else none

/-- Remove the timers that pass a test. -/
def erase (s : State) (p : Tm → Bool) : State :=
  { s with
    timers := s.timers.filter fun t => !p t
    history := (s.timers.filter p).map (fun t => Event.removed t.id) ++ s.history }

/-! ## The worker -/

/-- `build_queue` is to push a timer. -/
def pushes (s : State) (id : Nat) : Bool := s.timers.any fun t => t.id == id && !t.executed

/-- One step of the worker.  `order` is the queue after a push, `now` the clock. -/
def work (s : State) (order : List Tm) (now : Int) : Option State :=
  if s.worker.wants.any s.game.holds then none
  else
    match s.worker with
    | .start => some { s with stopTimer := false, stopLoop := true, worker := .clear }
    | .clear => some { s with queue := [], worker := .enter }
    | .enter =>
        some { s with worker := if s.stopTimer then .size else .scan (s.timers.map Tm.id) }
    | .scan [] => some { s with worker := .reset }
    | .scan (id :: rest) =>
        some { s with worker := if s.pushes id then .push id rest else .scan rest }
    | .push id rest =>
        match s.timers.find? fun t => t.id == id with
        | some t =>
            if Pushed t s.queue order then some { s with queue := order, worker := .scan rest }
            else none
        | none => none
    | .reset => some { s with stopLoop := false, worker := .size }
    | .size => some { s with worker := if s.queue.isEmpty then .recheck else .top }
    | .top => s.queue.head?.map fun t => { s with worker := .compare t }
    | .compare t => some { s with worker := if t.time > now then .wait t else .check t }
    | .wait t => some { s with worker := .check t }
    | .check t => some { s with worker := if s.stopTimer then .recheck else .checkLoop t }
    | .checkLoop t => some { s with worker := if s.stopLoop then .recheck else .lockFrame t }
    | .lockFrame t => some { s with worker := .lookup t }
    | .lookup t =>
        (s.getTimerById t.amx t.groupId t.id).map fun tm =>
          { s with worker := if tm.isSome then .mark t else .pop t }
    | .mark t =>
        if Pushed t s.frames order then
          (s.write t.id fun tm => { tm with executed := true }).map fun s =>
            { s with frames := order, worker := .pop t }
        else none
    | .pop _ =>
        match s.queue with
        | [] => none
        | _ :: rest => some { s with queue := rest, worker := .size }
    | .recheck => some { s with worker := if s.stopTimer then .sleep else .recheckLoop }
    | .recheckLoop => some { s with worker := if s.stopLoop then .clear else .sleep }
    | .sleep => if !s.stopTimer && s.stopLoop then some { s with worker := .clear } else none

/-! ## The game thread -/

/-- Whether a timer stands before or in the group of another in a walk through `m_timers`. -/
def upTo (t other : Tm) : Bool :=
  other.amx < t.amx || (other.amx == t.amx && other.groupId ≤ t.groupId)

/-- The `t` of `add_timer`, in a memory that it does not clear. -/
def newTimer (s : State) (memory : Tm) (amx : Nat) (fwdId : Int) (delaySec : Fp) (groupId : Nat)
    (flags repeats : UInt32) (now : Int) : Tm :=
  let delay := delaySec.clamp minDelay maxDelay
  { memory with
    id := s.nums + 1
    amx := amx
    fwdId := fwdId
    groupId := groupId
    delaySec := delay
    time := later now delay
    flags := flags
    repeats := repeats }

/-- `add_timer` from the insertion on, up to its signal. -/
def insert (s : State) (t : Tm) : State :=
  { s with
    timers := s.timers.takeWhile (upTo t) ++ t :: s.timers.dropWhile (upTo t)
    groups :=
      if s.groups.contains (t.amx, t.groupId) then s.groups else s.groups ++ [(t.amx, t.groupId)]
    nums := t.id
    game := .signal (some t.id)
    history := .armed t.id :: s.history }

/-- `timer_exists`. -/
def timerExists (s : State) (amx groupId : Nat) : Bool := s.groups.contains (amx, groupId)

/-- `timer_exists_by_id`. -/
def timerExistsById (s : State) (amx id : Nat) : Bool :=
  s.groups.any (fun key => key.1 == amx) && s.timers.any fun t => t.amx == amx && t.id == id

/-- `remove_timers`, up to its signal, with what it returns. -/
def removeTimers (s : State) (amx groupId : Nat) : State × Bool :=
  if s.groups.contains (amx, groupId) then
    ({ s.erase fun t => t.amx == amx && t.groupId == groupId with game := .signal none }, true)
  else (s, false)

/-- `remove_timer_by_id`, up to its signal, with what it returns. -/
def removeTimerById (s : State) (amx id : Nat) : State × Bool :=
  if s.groups.any fun key => key.1 == amx then
    ({ s.erase fun t => t.amx == amx && t.id == id with game := .removing },
      s.timers.any fun t => t.amx == amx && t.id == id)
  else (s, false)

/-- A group that `on_client_disconnected` empties. -/
def ofClient (index groupId : Nat) : Bool := groupId < 100000 && groupId % 100 == index

/-- `on_client_disconnected`, up to its signal. -/
def onClientDisconnected (s : State) (index : Nat) : State :=
  if isValidIndex s.maxClients index && s.groups.any fun key => ofClient index key.2 then
    { s.erase fun t => ofClient index t.groupId with game := .removing }
  else s

/-- `change_timer_by_id`, once the timer has been looked for, with what it returns. -/
def changeTimerById (s : State) (amx id : Nat) (delaySec : Fp) (flags repeats : UInt32) :
    State × Bool :=
  if s.timers.any fun t => t.amx == amx && t.id == id then
    ({ s with game := .change id delaySec flags repeats }, true)
  else (s, false)

/-- The writes of `change_timer_by_id`. -/
def changed (delaySec : Fp) (flags repeats : UInt32) (tm : Tm) : Tm :=
  { tm with
    delaySec := delaySec
    flags := if flags ≠ timerFlagNone then flags else tm.flags
    repeats := if repeats ≠ 0 then repeats else tm.repeats }

/-- Whether the timer is armed again after a callback that returned `ret`. -/
def again (t : Tm) (ret : Int) : Bool :=
  ret == 0 &&
    (t.flags &&& timerFlagLoop != 0 || (t.flags &&& timerFlagRepeat != 0 && t.repeats > 1))

/-- What `frame_forward` writes to a timer that is armed again. -/
def rearmed (t : Tm) (now : Int) (tm : Tm) : Tm :=
  { tm with
    time := later (if t.flags &&& timerFlagRelative != 0 then now else tm.time) t.delaySec
    repeats := if t.flags &&& timerFlagRepeat != 0 then tm.repeats - 1 else tm.repeats + 1
    executed := false }

/-- `frame_forward` after the callback. -/
def finish (s : State) (t : Tm) (ret now : Int) : Option State :=
  if again t ret then
    (s.write t.id (rearmed t now)).map fun s =>
      { s with game := .signal (some t.id), history := .armed t.id :: s.history }
  else some { s with game := .remove t }

/-- `get_timer`, in a frame that is not skipped. -/
def startFrame (s : State) : State :=
  match s.stopTimer, s.frames with
  | false, t :: rest => { s with frames := rest, game := .forward t }
  | _, _ => s

/-- The game thread goes on.  `allots` says whether there is room on the plugin's heap. -/
def go (s : State) (allots : Bool) (now : Int) : Option State :=
  if s.game.wants.any s.worker.holds then none
  else
    match s.game with
    | .idle => none
    | .signal _ | .removing => some { s with stopLoop := true, game := .idle }
    | .change id delaySec flags repeats =>
        (s.write id (changed delaySec flags repeats)).map fun s => { s with game := .signal none }
    | .stopFrame => some { s with game := .stopQueue }
    | .stopQueue => some { s with frames := [], queue := [], game := .stopTimer }
    | .stopTimer => some { s.erase fun _ => true with groups := [], game := .restart }
    | .restart => some { s with stopTimer := false, stopLoop := true, game := .idle }
    | .forward t =>
        if s.stopTimer || t.fwdId == -1 then some { s with game := .idle }
        else
          (s.getTimerById t.amx t.groupId t.id).bind fun tm =>
            if tm.isNone then some { s with game := .idle }
            else if allots then
              some { s with
                game := .idle
                inside := t :: s.inside
                history := .executed t :: s.history }
            else
              ({ s with game := .idle, history := .missed t :: s.history } : State).finish t 0 now
    | .remove t =>
        some { s.erase fun tm => tm.amx == t.amx && tm.groupId == t.groupId && tm.id == t.id with
          game := .idle }

end State

/-! ## Runs -/

inductive Action where
  | work (order : List Tm) (now : Int)
  | addTimer (memory : Tm) (amx : Nat) (fwdId : Int) (delaySec : Fp) (groupId : Nat)
      (flags repeats : UInt32) (now : Int)
  | removeTimers (amx groupId : Nat)
  | removeTimerById (amx id : Nat)
  | onClientDisconnected (index : Nat)
  | changeTimerById (amx id : Nat) (delaySec : Fp) (flags repeats : UInt32)
  | stopAll
  | startFrame
  | returns (ret now : Int)
  | go (allots : Bool) (now : Int)

/-- One action.  The game thread starts a native when it is not inside one. -/
def step (s : State) : Action → Option State
  | .work order now => s.work order now
  | .addTimer memory amx fwdId delaySec groupId flags repeats now =>
      if s.game ≠ .idle then none
      else if fwdId = -1 then some s
      else if s.worker.holds .timer then none
      else some (s.insert (s.newTimer memory amx fwdId delaySec groupId flags repeats now))
  | .removeTimers amx groupId =>
      if s.game ≠ .idle ∨ s.worker.holds .timer then none else some (s.removeTimers amx groupId).1
  | .removeTimerById amx id =>
      if s.game ≠ .idle ∨ s.worker.holds .timer then none else some (s.removeTimerById amx id).1
  | .onClientDisconnected index =>
      if s.game ≠ .idle ∨ s.worker.holds .timer then none else some (s.onClientDisconnected index)
  | .changeTimerById amx id delaySec flags repeats =>
      if s.game ≠ .idle ∨ s.worker.holds .timer then none
      else some (s.changeTimerById amx id delaySec flags repeats).1
  | .stopAll =>
      if s.game ≠ .idle then none
      else some { s with stopLoop := true, stopTimer := true, game := .stopFrame }
  | .startFrame =>
      if s.game ≠ .idle ∨ s.worker.holds .frame then none else some s.startFrame
  | .returns ret now =>
      match s.game, s.inside with
      | .idle, t :: rest => ({ s with inside := rest } : State).finish t ret now
      | _, _ => none
  | .go allots now => s.go allots now

def machine : Machine State Action where
  init s := ∃ maxClients, s = .zero maxClients
  step := step

end Refsapi.Timers
