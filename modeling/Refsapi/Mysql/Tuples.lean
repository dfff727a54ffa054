/-
# Mysql.Tuples -- `get_connect` beside `add_connect` and `stop`

The list of connection tuples is shared: the game thread appends to it and clears it
at a change of the map, under `prms_mutex`, and the query threads look tuples up in it.
`get_connect` reads the size before it takes the mutex.  One step of the machine is one
access of one thread: a read of the size, the acquisition of the mutex, an access to the
list, the release.

The list always holds what `add_connect` has stored in the current map (`Stored`).  What
may fail is that the tuple is still there when `get_connect` comes to it; the main result
is `lookup_exact`, for the runs in which `stop` does not clear the list between the two.
-/
import Mathlib.Logic.Function.Basic
import Refsapi.Lib.Transition
import Refsapi.Misc.Number
import Refsapi.Mysql.Model

namespace Refsapi.Mysql

set_option autoImplicit false

/-! ## Tuples -/

/-- `sql_prm_t`. -/
structure SqlPrm where
  dbHost : Text
  dbUser : Text
  dbPass : Text
  dbName : Text
  dbChrs : Text
  dbPort : Nat
  timeout : Nat
  deriving DecidableEq

/-- `prm_t`. -/
structure Prm where
  fwd : FwdPrms
  sql : SqlPrm
  deriving DecidableEq

/-- What `add_connect` stores: the port stands in the host after a colon, or is that of
MySQL. -/
def newPrm (amx : Nat) (fwdId : Int) (dbHost dbUser dbPass dbName dbChrs : Text)
    (timeout : Nat) : Prm where
  fwd := ⟨fwdId, amx⟩
  sql :=
    { dbHost := dbHost.takeWhile (· != 0x3A)
      dbPort :=
        match dbHost.dropWhile (· != 0x3A) with
        | [] => 3306
        | _ :: port => (atoi port % 2 ^ 32).toNat
      dbUser, dbPass, dbName, dbChrs, timeout }

/-! ## The machine -/

/-- Where a query thread is in `get_connect(conn_id, p)`. -/
inductive GetPc where
  | idle
  | test (connId count : Nat)
  | lock (connId : Nat)
  | access (connId : Nat)
  /-- `p` has been copied, and `get_connect` is about to return true -/
  | unlock (connId : Nat)
  deriving DecidableEq

structure Reader where
  pc : GetPc
  p : Prm

/-- Where the game thread is: in `add_connect`, with its parameters, or in `stop`. -/
inductive TuplesPc where
  | idle
  | lock (prms : Prm)
  | push (prms : Prm)
  | unlock
  | size
  | clearLock
  | clear
  | clearUnlock
  deriving DecidableEq

inductive Holder where
  | game
  | reader (tid : Nat)
  deriving DecidableEq

/-- What the game thread has done with the list, latest first. -/
inductive TuplesEvent where
  | stored (connId : Nat) (prms : Prm)
  | returned (connId : Nat)
  | cleared
  deriving DecidableEq

structure Tuples where
  connPrms : List Prm
  prmsMutex : Option Holder
  readers : Nat → Reader
  game : TuplesPc
  log : List TuplesEvent

namespace Tuples

def setReader (s : Tuples) (tid : Nat) (reader : Reader) : Tuples :=
  { s with readers := Function.update s.readers tid reader }

def goto (s : Tuples) (tid : Nat) (pc : GetPc) : Tuples :=
  s.setReader tid { s.readers tid with pc }

@[simp, grind =] theorem readers_setReader (s : Tuples) (tid x : Nat) (reader : Reader) :
    (s.setReader tid reader).readers x = if x = tid then reader else s.readers x :=
  Function.update_apply ..

@[simp, grind =] theorem connPrms_setReader (s : Tuples) (tid : Nat) (reader : Reader) :
    (s.setReader tid reader).connPrms = s.connPrms := rfl

@[simp, grind =] theorem prmsMutex_setReader (s : Tuples) (tid : Nat) (reader : Reader) :
    (s.setReader tid reader).prmsMutex = s.prmsMutex := rfl

@[simp, grind =] theorem game_setReader (s : Tuples) (tid : Nat) (reader : Reader) :
    (s.setReader tid reader).game = s.game := rfl

@[simp, grind =] theorem log_setReader (s : Tuples) (tid : Nat) (reader : Reader) :
    (s.setReader tid reader).log = s.log := rfl

/-- The next step of a query thread in `get_connect`. -/
def readerStep (s : Tuples) (tid : Nat) : Option Tuples :=
  match (s.readers tid).pc with
  | .idle => none
  | .test connId count =>
      if count = 0 ∨ connId = 0 ∨ count < connId then
        some (s.setReader tid ⟨.idle, { (s.readers tid).p with fwd := .none }⟩)
      else some (s.goto tid (.lock connId))
  | .lock connId =>
      if s.prmsMutex = none then
        some ({ s with prmsMutex := some (.reader tid) }.goto tid (.access connId))
      else none
  | .access connId =>
      -- past the end of the list nothing can be said of the program
      match s.connPrms[connId - 1]? with
      | some prms => some (s.setReader tid ⟨.unlock connId, prms⟩)
      | none => none
  | .unlock _ => some ({ s with prmsMutex := none }.goto tid .idle)

/-- The next step of the game thread in `add_connect` or `stop`. -/
def gameStep (s : Tuples) : Option Tuples :=
  match s.game with
  | .idle => none
  | .lock prms =>
      if s.prmsMutex = none then some { s with prmsMutex := some .game, game := .push prms }
      else none
  | .push prms =>
      some { s with
        connPrms := s.connPrms ++ [prms]
        log := .stored (s.connPrms.length + 1) prms :: s.log
        game := .unlock }
  | .unlock => some { s with prmsMutex := none, game := .size }
  | .size => some { s with log := .returned s.connPrms.length :: s.log, game := .idle }
  | .clearLock =>
      if s.prmsMutex = none then some { s with prmsMutex := some .game, game := .clear } else none
  | .clear => some { s with connPrms := [], log := .cleared :: s.log, game := .clearUnlock }
  | .clearUnlock => some { s with prmsMutex := none, game := .idle }

end Tuples

inductive TuplesAction where
  | addConnect (amx : Nat) (fwdId : Int) (dbHost dbUser dbPass dbName dbChrs : Text)
      (timeout : Nat)
  | stop
  /-- the game thread goes on with what it has begun -/
  | game
  /-- a query thread calls `get_connect` and reads the size -/
  | getConnect (tid connId : Nat)
  | reader (tid : Nat)

def Tuples.step (s : Tuples) : TuplesAction → Option Tuples
  | .addConnect amx fwdId dbHost dbUser dbPass dbName dbChrs timeout =>
      if s.game = .idle then
        some { s with game := .lock (newPrm amx fwdId dbHost dbUser dbPass dbName dbChrs timeout) }
      else none
  | .stop => if s.game = .idle then some { s with game := .clearLock } else none
  | .game => s.gameStep
  | .getConnect tid connId =>
      if (s.readers tid).pc = .idle then some (s.goto tid (.test connId s.connPrms.length))
      else none
  | .reader tid => s.readerStep tid

/-- Nothing is stored, and no thread is in any of the functions. -/
structure Tuples.Fresh (s : Tuples) : Prop where
  connPrms : s.connPrms = []
  prmsMutex : s.prmsMutex = none
  readers : ∀ tid, (s.readers tid).pc = .idle
  game : s.game = .idle
  log : s.log = []

def tuples : Machine Tuples TuplesAction where
  init := Tuples.Fresh
  step := Tuples.step

/-! ## What one step can do -/

/-- The tuple could be found when the size was read. -/
def passes (connId count : Nat) : Prop := 0 < connId ∧ connId ≤ count

inductive TuplesMove (s : Tuples) : Tuples → Prop where
  | call (tid connId : Nat) : (s.readers tid).pc = .idle →
      TuplesMove s (s.goto tid (.test connId s.connPrms.length))
  | refuse {tid connId count : Nat} : (s.readers tid).pc = .test connId count →
      TuplesMove s (s.setReader tid ⟨.idle, { (s.readers tid).p with fwd := .none }⟩)
  | pass {tid connId count : Nat} : (s.readers tid).pc = .test connId count →
      passes connId count → TuplesMove s (s.goto tid (.lock connId))
  | lock {tid connId : Nat} : (s.readers tid).pc = .lock connId → s.prmsMutex = none →
      TuplesMove s ({ s with prmsMutex := some (.reader tid) }.goto tid (.access connId))
  | copy {tid connId : Nat} {prms : Prm} : (s.readers tid).pc = .access connId →
      s.connPrms[connId - 1]? = some prms → TuplesMove s (s.setReader tid ⟨.unlock connId, prms⟩)
  | unlock {tid connId : Nat} : (s.readers tid).pc = .unlock connId →
      TuplesMove s ({ s with prmsMutex := none }.goto tid .idle)
  | begin (game : TuplesPc) : s.game = .idle → (∃ prms, game = .lock prms) ∨ game = .clearLock →
      TuplesMove s { s with game }
  | gameLock {prms : Prm} : s.game = .lock prms → s.prmsMutex = none →
      TuplesMove s { s with prmsMutex := some .game, game := .push prms }
  | push {prms : Prm} : s.game = .push prms → TuplesMove s { s with
      connPrms := s.connPrms ++ [prms]
      log := .stored (s.connPrms.length + 1) prms :: s.log
      game := .unlock }
  | gameUnlock : s.game = .unlock → TuplesMove s { s with prmsMutex := none, game := .size }
  | size : s.game = .size →
      TuplesMove s { s with log := .returned s.connPrms.length :: s.log, game := .idle }
  | clearLock : s.game = .clearLock → s.prmsMutex = none →
      TuplesMove s { s with prmsMutex := some .game, game := .clear }
  | clear : s.game = .clear →
      TuplesMove s { s with connPrms := [], log := .cleared :: s.log, game := .clearUnlock }
  | clearUnlock : s.game = .clearUnlock →
      TuplesMove s { s with prmsMutex := none, game := .idle }

variable {s s' : Tuples} {a : TuplesAction}

theorem readerStep_move {tid : Nat} (moved : s.readerStep tid = some s') : TuplesMove s s' := by
  unfold Tuples.readerStep at moved
  cases pc : (s.readers tid).pc with
  | idle => simp [pc] at moved
  | test connId count =>
      simp only [pc] at moved
      split at moved
      · cases moved
        exact .refuse pc
      · next found =>
          cases moved
          simp only [not_or, Nat.not_lt] at found
          exact .pass pc ⟨Nat.pos_of_ne_zero found.2.1, found.2.2⟩
  | lock connId =>
      simp only [pc] at moved
      split at moved
      · next free =>
          cases moved
          exact .lock pc free
      · cases moved
  | access connId =>
      simp only [pc] at moved
      cases found : s.connPrms[connId - 1]? with
      | none => simp [found] at moved
      | some prms =>
          simp only [found, Option.some.injEq] at moved
          exact moved ▸ .copy pc found
  | unlock connId =>
      simp only [pc, Option.some.injEq] at moved
      exact moved ▸ .unlock pc

theorem gameStep_tuples (moved : s.gameStep = some s') : TuplesMove s s' := by
  unfold Tuples.gameStep at moved
  cases pc : s.game with
  | idle => simp [pc] at moved
  | lock prms =>
      simp only [pc] at moved
      split at moved
      · next free =>
          cases moved
          exact .gameLock pc free
      · cases moved
  | clearLock =>
      simp only [pc] at moved
      split at moved
      · next free =>
          cases moved
          exact .clearLock pc free
      · cases moved
  | push prms => simp only [pc, Option.some.injEq] at moved; exact moved ▸ .push pc
  | unlock => simp only [pc, Option.some.injEq] at moved; exact moved ▸ .gameUnlock pc
  | size => simp only [pc, Option.some.injEq] at moved; exact moved ▸ .size pc
  | clear => simp only [pc, Option.some.injEq] at moved; exact moved ▸ .clear pc
  | clearUnlock => simp only [pc, Option.some.injEq] at moved; exact moved ▸ .clearUnlock pc

theorem tuples_move (moved : tuples.step s a = some s') : TuplesMove s s' := by
  cases a with
  | addConnect amx fwdId dbHost dbUser dbPass dbName dbChrs timeout =>
      simp only [tuples, Tuples.step] at moved
      split at moved
      · next idle =>
          cases moved
          exact .begin _ idle (.inl ⟨_, rfl⟩)
      · cases moved
  | stop =>
      simp only [tuples, Tuples.step] at moved
      split at moved
      · next idle =>
          cases moved
          exact .begin _ idle (.inr rfl)
      · cases moved
  | game => exact gameStep_tuples moved
  | getConnect tid connId =>
      simp only [tuples, Tuples.step] at moved
      split at moved
      · next idle =>
          cases moved
          exact .call tid connId idle
      · cases moved
  | reader tid => exact readerStep_move moved

/-! ## The list and the mutex -/

/-- What the game thread has done since the last clear. -/
def currentMap (log : List TuplesEvent) : List TuplesEvent := log.takeWhile (· ≠ .cleared)

def GetPc.holds : GetPc → Bool
  | .access _ | .unlock _ => true
  | _ => false

def TuplesPc.holds : TuplesPc → Bool
  | .push _ | .unlock | .clear | .clearUnlock => true
  | _ => false

/-- What holds of the list in every run. -/
structure Stored (s : Tuples) : Prop where
  readers : ∀ tid, (s.readers tid).pc.holds = true → s.prmsMutex = some (.reader tid)
  game : s.game.holds = true → s.prmsMutex = some .game
  stored : ∀ connId prms, .stored connId prms ∈ currentMap s.log ↔
    0 < connId ∧ s.connPrms[connId - 1]? = some prms
  copied : ∀ tid connId, (s.readers tid).pc = .unlock connId →
    0 < connId ∧ s.connPrms[connId - 1]? = some (s.readers tid).p
  positive : ∀ tid connId, (s.readers tid).pc = .lock connId ∨ (s.readers tid).pc = .access connId →
    0 < connId
  added : s.game = .unlock ∨ s.game = .size →
    ∃ prms rest, s.log = .stored s.connPrms.length prms :: rest

theorem stored_of_fresh (fresh : s.Fresh) : Stored s := by
  obtain ⟨prms, mutex, readers, game, log⟩ := fresh
  constructor
  · simp [readers, GetPc.holds]
  · simp [game, TuplesPc.holds]
  · simp [log, prms, currentMap]
  · simp [readers]
  · simp [readers]
  · rintro (unlock | size) <;> simp_all

attribute [grind =] GetPc.holds TuplesPc.holds Tuples.goto passes

theorem currentMap_stored (connId : Nat) (prms : Prm) (log : List TuplesEvent) :
    currentMap (.stored connId prms :: log) = .stored connId prms :: currentMap log := rfl

theorem currentMap_returned (connId : Nat) (log : List TuplesEvent) :
    currentMap (.returned connId :: log) = .returned connId :: currentMap log := rfl

theorem currentMap_cleared (log : List TuplesEvent) : currentMap (.cleared :: log) = [] := rfl

/-- Where the list ends there is the tuple that was stored last. -/
theorem getElem?_concat_iff {prms : List Prm} {new p : Prm} {connId : Nat} (positive : 0 < connId) :
    (prms ++ [new])[connId - 1]? = some p ↔
      connId = prms.length + 1 ∧ p = new ∨ prms[connId - 1]? = some p := by
  rcases Nat.lt_trichotomy (connId - 1) prms.length with inside | last | beyond
  · rw [List.getElem?_append_left inside]
    exact (or_iff_right fun last => by omega).symm
  · rw [last, List.getElem?_concat_length, List.getElem?_eq_none (Nat.le_refl _)]
    simp only [Option.some.injEq, reduceCtorEq, or_false]
    exact ⟨fun same => ⟨by omega, same.symm⟩, fun same => same.2.symm⟩
  · rw [List.getElem?_eq_none (by simp; omega), List.getElem?_eq_none (by omega)]
    simp only [reduceCtorEq, or_false, false_iff]
    omega

theorem Stored.step (stored : Stored s) (move : TuplesMove s s') : Stored s' := by
  obtain ⟨readers, game, isStored, copied, positive, added⟩ := stored
  cases move with
  | call | refuse | pass | lock | copy | unlock =>
      exact {
        readers := by clear isStored copied positive added; grind -ring -linarith
        game := by clear isStored copied positive added; grind -ring -linarith
        stored := isStored
        copied := by clear isStored readers game added; grind -ring -linarith
        positive := by clear isStored readers game added; grind -ring -linarith
        added }
  | begin | gameLock | gameUnlock | clearLock | clearUnlock =>
      exact {
        readers := by clear isStored copied positive added; grind -ring -linarith
        game := by clear isStored copied positive added; grind -ring -linarith
        stored := isStored
        copied, positive
        added := by clear isStored copied positive readers; grind -ring -linarith }
  | @push prms pc =>
      refine ⟨by grind, by grind, fun connId p => ?_, fun tid connId unlock => ?_, by grind,
        fun _ => ⟨prms, s.log, by simp⟩⟩
      · rw [currentMap_stored, List.mem_cons, isStored, TuplesEvent.stored.injEq]
        constructor
        · rintro (⟨rfl, rfl⟩ | ⟨known, found⟩)
          · exact ⟨by omega, (getElem?_concat_iff (by omega)).2 (.inl ⟨rfl, rfl⟩)⟩
          · exact ⟨known, (getElem?_concat_iff known).2 (.inr found)⟩
        · rintro ⟨known, found⟩
          exact ((getElem?_concat_iff known).1 found).imp id fun old => ⟨known, old⟩
      · obtain ⟨known, found⟩ := copied tid connId unlock
        exact ⟨known, (getElem?_concat_iff known).2 (.inr found)⟩
  | size pc =>
      refine ⟨readers, by grind, fun connId p => ?_, copied, positive, by grind⟩
      rw [currentMap_returned, List.mem_cons, isStored]
      simp
  | clear pc =>
      have free : ∀ tid, (s.readers tid).pc.holds = false := fun tid => by
        have := readers tid
        have := game
        grind
      refine ⟨readers, by grind, fun connId p => ?_, fun tid connId unlock => ?_, positive,
        by grind⟩
      · simp [currentMap_cleared]
      · have busy := free tid
        simp only [show (s.readers tid).pc = .unlock connId from unlock, GetPc.holds] at busy
        cases busy

theorem stored_of_reachable (run : tuples.Reachable s) : Stored s :=
  run.invariant (fun _ fresh => stored_of_fresh fresh) fun _ _ _ _ stored _ moved =>
    stored.step (tuples_move moved)

/-! ## The lookup -/

/-- A thread that will come to the tuple `connId`. -/
def GetPc.seeks (connId : Nat) : GetPc → Prop
  | .test x count => x = connId ∧ passes connId count
  | .lock x | .access x => x = connId
  | _ => False

/-- `get_connect` has not yet taken the mutex for what it read of the size. -/
def GetPc.between (pc : GetPc) : Prop := (∃ connId, pc.seeks connId) ∧ pc.holds = false

/-- `stop` clears the list only when no `get_connect` is between its reading of the size,
which let it pass, and the mutex. -/
def ClearsUnread (s : Tuples) (a : TuplesAction) : Prop :=
  ∀ tid, a = .game → s.game = .clear → ¬ (s.readers tid).pc.between

/-- The tuples that are sought are there. -/
def Present (s : Tuples) : Prop :=
  ∀ tid connId, (s.readers tid).pc.seeks connId → connId ≤ s.connPrms.length

attribute [grind =] GetPc.seeks GetPc.between

theorem Present.step (stored : Stored s) (present : Present s)
    (allowed : s.game = .clear → s'.game = .clearUnlock → ∀ tid, ¬ (s.readers tid).pc.between)
    (move : TuplesMove s s') : Present s' := by
  intro tid connId seeks
  cases move with
  | push pc =>
      have := present tid connId seeks
      simp only [List.length_append]
      omega
  | clear pc =>
      -- the clear has the mutex, so that who seeks a tuple has not
      have unlocked : (s.readers tid).pc.holds = false := by
        have := stored.readers tid
        have := stored.game
        grind
      exact absurd ⟨⟨connId, seeks⟩, unlocked⟩ (allowed pc rfl tid)
  | @call x sought idle =>
      by_cases same : tid = x
      · subst same
        simp only [Tuples.goto, Tuples.readers_setReader, if_true, GetPc.seeks, passes] at seeks
        exact seeks.2.2
      · exact present tid connId (by simpa [Tuples.goto, same] using seeks)
  | @refuse x sought count pc | @copy x sought prms pc found | @unlock x sought pc =>
      by_cases same : tid = x
      · subst same
        simp [Tuples.goto, GetPc.seeks] at seeks
      · exact present tid connId (by simpa [Tuples.goto, same] using seeks)
  | @pass x sought count pc ok =>
      by_cases same : tid = x
      · subst same
        obtain rfl : sought = connId := by simpa [Tuples.goto, GetPc.seeks] using seeks
        exact present tid sought (by rw [pc]; exact ⟨rfl, ok⟩)
      · exact present tid connId (by simpa [Tuples.goto, same] using seeks)
  | @lock x sought pc free =>
      by_cases same : tid = x
      · subst same
        obtain rfl : sought = connId := by simpa [Tuples.goto, GetPc.seeks] using seeks
        exact present tid sought (by rw [pc]; exact rfl)
      · exact present tid connId (by simpa [Tuples.goto, same] using seeks)
  | begin | gameLock | gameUnlock | size | clearLock | clearUnlock =>
      exact present tid connId seeks

/-- The game thread clears the list by its own step. -/
theorem clear_step (moved : tuples.step s a = some s') (before : s.game = .clear)
    (after : s'.game = .clearUnlock) : a = .game := by
  cases a with
  | game => rfl
  | addConnect | stop =>
      simp [tuples, Tuples.step, before] at moved
  | getConnect tid connId =>
      simp only [tuples, Tuples.step] at moved
      split at moved
      · cases moved
        cases before.symm.trans after
      · cases moved
  | reader tid =>
      have same : s'.game = s.game := by
        unfold tuples Tuples.step Tuples.readerStep at moved
        grind
      cases (same.trans before).symm.trans after

theorem present_of_reaches (run : tuples.Reaches ClearsUnread s) : Present s := by
  refine run.invariant (I := Present) ?_ ?_
  · intro s fresh tid connId seeks
    simp [fresh.readers tid, GetPc.seeks] at seeks
  · intro s a s' before present allowed moved
    refine present.step (stored_of_reachable before.reachable) (fun pc after tid => ?_)
      (tuples_move moved)
    exact allowed tid (clear_step moved pc after) pc

/-- What `get_connect` does that has come to the list, and what it leaves in `p`. -/
structure Exact (s : Tuples) (tid connId : Nat) : Prop where
  /-- the list is not left behind -/
  inside : (s.readers tid).pc = .access connId → 0 < connId ∧ connId ≤ s.connPrms.length
  /-- `p` is what was stored in the current map under the id, and nothing else was -/
  found : (s.readers tid).pc = .unlock connId → ∀ prms,
    .stored connId prms ∈ currentMap s.log ↔ prms = (s.readers tid).p

/-- **The lookup of a tuple is safe and exact.**  In every run in which `stop` clears the list
only when no `get_connect` is between its test and the mutex, no thread leaves the list; and a
`get_connect` that returns true has the parameters that `add_connect` has stored under the id
in the current map, where it returns the id under which it stores. -/
theorem lookup_exact (run : tuples.Reaches ClearsUnread s) :
    (∀ tid connId, Exact s tid connId) ∧
      (s.game = .size → ∃ prms rest, s.log = .stored s.connPrms.length prms :: rest) := by
  have stored := stored_of_reachable run.reachable
  refine ⟨fun tid connId => ⟨fun access => ?_, fun unlock prms => ?_⟩, fun size => ?_⟩
  · exact ⟨stored.positive tid connId (.inr access),
      present_of_reaches run tid connId (by rw [access]; exact rfl)⟩
  · obtain ⟨positive, copied⟩ := stored.copied tid connId unlock
    rw [stored.stored, copied]
    simp [positive, eq_comm]
  · exact stored.added (.inr size)

/-- A thread that goes for the mutex while it is free and the list empty leaves the list. -/
theorem unsafe_of_lock (run : tuples.Reachable s) {tid connId : Nat}
    (lock : (s.readers tid).pc = .lock connId) (free : s.prmsMutex = none)
    (none : s.connPrms = []) :
    ∃ s' connId, tuples.Reachable s' ∧ (s'.readers tid).pc = .access connId ∧
      ¬ Exact s' tid connId := by
  have moved : tuples.step s (.reader tid) =
      some ({ s with prmsMutex := some (.reader tid) }.goto tid (.access connId)) := by
    simp [tuples, Tuples.step, Tuples.readerStep, lock, free]
  refine ⟨_, connId, run.step trivial moved, by simp [Tuples.goto], fun exact_ => ?_⟩
  obtain ⟨positive, inside⟩ := exact_.inside (by simp [Tuples.goto])
  simp only [Tuples.goto, Tuples.connPrms_setReader, none, List.length_nil] at inside
  omega

/-- Where the list is cleared between the two, the thread can come to the empty list. -/
theorem unsafe_of_clear (run : tuples.Reachable s) (clear : s.game = .clear) {tid : Nat}
    (between : (s.readers tid).pc.between) :
    ∃ s' connId, tuples.Reachable s' ∧ (s'.readers tid).pc = .access connId ∧
      ¬ Exact s' tid connId := by
  set cleared : Tuples :=
    { s with connPrms := [], log := .cleared :: s.log, prmsMutex := none, game := .idle }
  have steps : tuples.exec s [.game, .game] = some cleared := by
    simp [Machine.exec, tuples, Tuples.step, Tuples.gameStep, clear, cleared]
  have reached := Machine.Reaches.of_exec run steps
  obtain ⟨⟨connId, seeks⟩, unlocked⟩ := between
  cases pc : (s.readers tid).pc with
  | idle | unlock => simp [pc, GetPc.seeks] at seeks
  | access => simp [pc, GetPc.holds] at unlocked
  | lock x => exact unsafe_of_lock reached pc rfl rfl
  | test x count =>
      rw [pc] at seeks
      obtain ⟨rfl, positive, le⟩ := seeks
      have found : ¬ (count = 0 ∨ x = 0 ∨ count < x) := by omega
      have moved : tuples.step cleared (.reader tid) = some (cleared.goto tid (.lock x)) := by
        simp only [tuples, Tuples.step, Tuples.readerStep, cleared, pc, if_neg found]
      have locks : ((cleared.goto tid (.lock x)).readers tid).pc = .lock x := by
        simp [Tuples.goto]
      exact unsafe_of_lock (reached.step trivial moved) locks rfl rfl

/-! ## Two runs -/

/-- Before anything is stored. -/
def Tuples.empty : Tuples := ⟨[], none, fun _ => ⟨.idle, newPrm 0 0 [] [] [] [] [] 0⟩, .idle, []⟩

theorem Tuples.fresh_empty : Tuples.empty.Fresh := ⟨rfl, rfl, fun _ => rfl, rfl, rfl⟩

/-- `add_connect("localhost", ..)`, from its beginning to its end. -/
def connectLocal : List TuplesAction :=
  .addConnect 1 1 "localhost".toUTF8.toList [] [] [] [] 60 :: List.replicate 4 .game

/-- `ClearsUnread`, of the steps that are no clear. -/
def noClear (s : Tuples) (_ : TuplesAction) : Bool := s.game != .clear

theorem noClear_sound (s : Tuples) (a : TuplesAction) (ok : noClear s a = true) :
    ClearsUnread s a := by
  intro tid _ clear
  simp [noClear, clear] at ok

theorem lookup_exact_local : ∃ s : Tuples, (s.readers 7).pc = .unlock 1 ∧
    (∀ tid connId, Exact s tid connId) ∧
      (s.game = .size → ∃ prms rest, s.log = .stored s.connPrms.length prms :: rest) := by
  have ends : (tuples.execIf noClear .empty (connectLocal ++ [.getConnect 7 1] ++
      List.replicate 3 (.reader 7))).map (fun s => (s.readers 7).pc == .unlock 1) = some true := by
    decide
  obtain ⟨s, run, unlock⟩ :=
    Machine.exists_reaches (M := tuples) noClear_sound Tuples.fresh_empty ends
  exact ⟨s, beq_iff_eq.1 unlock, lookup_exact run⟩

/-- The map changes between the test of a `get_connect` and the mutex. -/
def changeOfMap : List TuplesAction :=
  connectLocal ++ [.getConnect 7 1, .reader 7, .stop, .game, .game, .game, .reader 7]

/-- A thread can leave the list. -/
theorem lookup_not_always_exact : ¬ ∀ s, tuples.Reachable s → ∀ tid connId, Exact s tid connId := by
  intro always
  have ends : (tuples.exec .empty changeOfMap).map
      (fun s => (s.readers 7).pc == .access 1 && s.connPrms.isEmpty) = some true := by decide
  obtain ⟨s, run, facts⟩ := Machine.exists_reachable (M := tuples) Tuples.fresh_empty ends
  obtain ⟨access, none⟩ := Bool.and_eq_true_iff.1 facts
  have inside := ((always s run 7 1).inside (beq_iff_eq.1 access)).2
  rw [List.isEmpty_iff.1 none] at inside
  cases inside

end Refsapi.Mysql
