/-
# Mysql.Step -- what one step can do

One constructor per step of the source, with the tests that lead to it and the
state it leaves.  The inversion lemmas `queryStep_move`, `pollStep_move` and
`gameStep_move` are the only places where the step functions are unfolded; an
invariant is a case analysis over the moves.
-/
import Refsapi.Mysql.Model

namespace Refsapi.Mysql

set_option autoImplicit false

variable {s s' : State}

/-! ## A query thread -/

/-- Thread `tid` of query `id` is at `pc`. -/
def At (s : State) (id tid : Nat) (pc : RunPc) : Prop :=
  (s.threads id).find? (fun t => t.tid == tid) = some ⟨tid, pc⟩

inductive QueryMove (s : State) (id tid : Nat) : State → Prop where
  | turnBack {q : Query} : At s id tid .test → s.mQueries id = some q →
      s.stopThreads = true ∨ q.aborted = true → QueryMove s id tid (s.goto id tid .finish)
  | start {q : Query} : At s id tid .test → s.mQueries id = some q →
      s.stopThreads = false → q.aborted = false →
      QueryMove s id tid ((s.emit (.start id)).goto id tid .enter)
  | enter {q : Query} (attempt : Attempt) : At s id tid .enter → s.mQueries id = some q →
      QueryMove s id tid
        (((s.setQuery id (some (enterAttempt s.connPrms q attempt).1)).emit
          (.call id (enterAttempt s.connPrms q attempt).2)).goto
            id tid (.exec (enterAttempt s.connPrms q attempt).2))
  | exec {q : Query} {way : Way} (attempt : Attempt) : At s id tid (.exec way) →
      s.mQueries id = some q →
      QueryMove s id tid
        (((s.setQuery id (some (finishAttempt s.stopThreads q way attempt))).emit
          (.outcome id (finishAttempt s.stopThreads q way attempt).successful)).goto
            id tid .retest)
  | retestBack {q : Query} : At s id tid .retest → s.mQueries id = some q →
      (s.stopThreads || q.aborted) = true ∨ q.fwd.registered = false ∨
        q.successful = false ∧ q.retryCount < queryRetryCount →
      QueryMove s id tid ((s.emit (.retest id q.successful (s.stopThreads || q.aborted))).goto
        id tid .finish)
  | retestOn {q : Query} : At s id tid .retest → s.mQueries id = some q →
      s.stopThreads = false → q.aborted = false → q.fwd.registered = true →
      q.successful = true ∨ queryRetryCount ≤ q.retryCount →
      QueryMove s id tid ((s.emit (.retest id q.successful false)).goto id tid .lock)
  | lock {q : Query} : At s id tid .lock → s.mQueries id = some q → s.frameMutex = none →
      QueryMove s id tid
        ({ s.setQuery id (some { q with framed := true }) with
          frameMutex := some (.query id tid) }.goto id tid .push)
  | push : At s id tid .push →
      QueryMove s id tid
        ({ s with frames := s.frames ++ [id], frameMutex := none }.goto id tid .returned)
  | finish {q : Query} : At s id tid .finish → s.mQueries id = some q →
      QueryMove s id tid ((s.setQuery id (some { q with finished := true })).goto id tid .count)
  | count : At s id tid .count →
      QueryMove s id tid ({ s with numFinished := s.numFinished + 1 }.goto id tid .returned)

theorem registered_iff (f : FwdPrms) : f.registered = true ↔ ¬ (f.amx = 0 ∨ f.id = -1) := by
  simp [FwdPrms.registered]

theorem queryStep_move {id tid : Nat} {attempt : Attempt}
    (moved : queryStep id tid attempt s = some s') : QueryMove s id tid s' := by
  unfold queryStep at moved
  cases found : (s.threads id).find? (fun t => t.tid == tid) with
  | none => simp [found] at moved
  | some t =>
      obtain ⟨tid', pc⟩ := t
      obtain rfl : tid' = tid := by simpa using List.find?_some found
      have thread : At s id tid' pc := found
      simp only [found] at moved
      cases pc with
      | push => cases moved; exact .push thread
      | count => cases moved; exact .count thread
      | returned => cases moved
      | test =>
          cases query : s.mQueries id with
          | none => simp [query] at moved
          | some q =>
              simp only [query] at moved
              split at moved
              · next stop =>
                  cases moved
                  exact .turnBack thread query (by simpa using stop)
              · next free =>
                  cases moved
                  simp only [Bool.or_eq_true, not_or, Bool.not_eq_true] at free
                  exact .start thread query free.1 free.2
      | enter =>
          cases query : s.mQueries id with
          | none => simp [query] at moved
          | some q =>
              simp only [query] at moved
              cases moved
              exact .enter attempt thread query
      | exec way =>
          cases query : s.mQueries id with
          | none => simp [query] at moved
          | some q =>
              simp only [query] at moved
              cases moved
              exact .exec attempt thread query
      | retest =>
          cases query : s.mQueries id with
          | none => simp [query] at moved
          | some q =>
              have registered := registered_iff q.fwd
              simp only [query] at moved
              split at moved
              · next stop =>
                  cases moved
                  refine .retestBack thread query ?_
                  grind
              · next free =>
                  split at moved
                  · next failed =>
                      cases moved
                      refine .retestBack thread query ?_
                      grind
                  · next last =>
                      cases moved
                      have clear : s.stopThreads = false ∧ q.aborted = false := by grind
                      rw [clear.1, clear.2]
                      exact .retestOn thread query clear.1 clear.2 (by grind) (by grind)
      | lock =>
          cases query : s.mQueries id with
          | none => simp [query] at moved
          | some q =>
              simp only [query] at moved
              split at moved
              · next unlocked =>
                  cases moved
                  exact .lock thread query unlocked
              · cases moved
      | finish =>
          cases query : s.mQueries id with
          | none => simp [query] at moved
          | some q =>
              simp only [query] at moved
              cases moved
              exact .finish thread query

/-! ## The polling thread -/

/-- The polling thread goes on at `pc`. -/
def State.pollAt (s : State) (pc : PollPc) : State := { s with poll := { s.poll with pc } }

/-- Its loop has visited the head of `todo`. -/
def State.visited (s : State) (todo : List Nat) : State :=
  { s with poll := { s.poll with todo } }

inductive PollMove (s : State) : State → Prop where
  | begin : s.poll.pc = .idle → s.threadsMutex = none →
      PollMove s { s with threadsMutex := some .poll, poll := ⟨.scan, queryOrder s, [], [], []⟩ }
  | scanEnd : s.poll.pc = .scan → s.poll.todo = [] → PollMove s (s.pollAt .create)
  | marked {id : Nat} {todo : List Nat} {q : Query} : s.poll.pc = .scan →
      s.poll.todo = id :: todo → s.mQueries id = some q → q.finished = true ∨ q.aborted = true →
      PollMove s ((s.visited todo).pollAt (.reapTest id))
  | select {id : Nat} {todo : List Nat} {q : Query} : s.poll.pc = .scan →
      s.poll.todo = id :: todo → s.mQueries id = some q → q.finished = false → q.aborted = false →
      q.async = true → q.started = false → mayStart s q →
      PollMove s { s.setQuery id (some { q with started := true }) with
        numThreads := s.numThreads + 1
        poll := { s.poll with todo, startQueries := s.poll.startQueries ++ [id] } }
  | skip {id : Nat} {todo : List Nat} : s.poll.pc = .scan → s.poll.todo = id :: todo →
      PollMove s (s.visited todo)
  | reapYes {id : Nat} {q : Query} : s.poll.pc = .reapTest id → s.mQueries id = some q →
      q.async = true → q.started = true → q.finished = true ∨ q.aborted = true ∧ q.framed = true →
      PollMove s (s.pollAt (.reap id))
  | reapNo {id : Nat} {q : Query} : s.poll.pc = .reapTest id → s.mQueries id = some q →
      ¬ (q.async = true ∧ q.started = true ∧
        (q.finished = true ∨ q.aborted = true ∧ q.framed = true)) →
      PollMove s (s.pollAt (.retry id))
  | reap {id : Nat} {q : Query} : s.poll.pc = .reap id → s.mQueries id = some q →
      q.tid ∈ s.mThreads →
      PollMove s { s with
        numThreads := s.numThreads - 1
        numFinished := if q.finished then s.numFinished - 1 else s.numFinished
        mThreads := s.mThreads.erase q.tid
        poll := { s.poll with
          pc := .retry id, finishedThreads := s.poll.finishedThreads ++ [⟨q.tid, id⟩] } }
  | again {id : Nat} {q : Query} : s.poll.pc = .retry id → s.mQueries id = some q →
      q.again = true → q.retryCount + 1 < queryRetryCount →
      PollMove s ((s.setQuery id (some { q with
        retryCount := q.retryCount + 1, started := false, finished := false })).pollAt .scan)
  | spent {id : Nat} {q : Query} : s.poll.pc = .retry id → s.mQueries id = some q →
      q.again = true → queryRetryCount ≤ q.retryCount + 1 →
      PollMove s ((s.setQuery id (some { q with retryCount := q.retryCount + 1 })).release id
        q.removable)
  | release {id : Nat} {q : Query} : s.poll.pc = .retry id → s.mQueries id = some q →
      q.again = false → PollMove s (s.release id q.removable)
  | createEnd : s.poll.pc = .create → s.poll.startQueries = [] →
      PollMove s ({ s with threadsMutex := none }.pollAt .free)
  | create {id : Nat} {rest : List Nat} {q : Query} : s.poll.pc = .create →
      s.poll.startQueries = id :: rest → s.mQueries id = some q →
      PollMove s { (s.setQuery id (some { q with tid := s.nextTid })).setThreads id
          (s.threads id ++ [⟨s.nextTid, .test⟩]) with
        nextTid := s.nextTid + 1
        mThreads := s.mThreads ++ [s.nextTid]
        poll := { s.poll with startQueries := rest } }
  | createFail {id : Nat} {rest : List Nat} {q : Query} : s.poll.pc = .create →
      s.poll.startQueries = id :: rest → s.mQueries id = some q →
      PollMove s { s.setQuery id (some { q with started := false }) with
        numThreads := s.numThreads - 1
        poll := { s.poll with startQueries := rest } }
  | freeEnd : s.poll.pc = .free → s.poll.finishedQueries = [] → PollMove s (s.pollAt .join)
  | free {id : Nat} {rest : List Nat} {q : Query} : s.poll.pc = .free →
      s.poll.finishedQueries = id :: rest → s.mQueries id = some q →
      PollMove s { s.setQuery id (some (freeQuery s.stopThreads q)) with
        poll := { s.poll with pc := .erase id, finishedQueries := rest } }
  | erase {id : Nat} {q : Query} : s.poll.pc = .erase id → s.mQueries id = some q →
      s.threadsMutex = none → PollMove s (((s.setQuery id none).emit (.freed id q)).pollAt .free)
  | joinEnd : s.poll.pc = .join → s.poll.finishedThreads = [] →
      PollMove s { s with poll := .idle }
  | join {ref : ThreadRef} {rest : List ThreadRef} : s.poll.pc = .join →
      s.poll.finishedThreads = ref :: rest → ⟨ref.tid, .returned⟩ ∈ s.threads ref.query →
      PollMove s { s.setThreads ref.query
          ((s.threads ref.query).erase ⟨ref.tid, .returned⟩) with
        poll := { s.poll with finishedThreads := rest } }

theorem pollStep_move {created : Bool} (moved : pollStep created s = some s') :
    PollMove s s' := by
  unfold pollStep at moved
  cases pc : s.poll.pc with
  | idle =>
      simp only [pc] at moved
      split at moved
      · next unlocked =>
          cases moved
          exact .begin pc unlocked
      · cases moved
  | scan =>
      cases todo : s.poll.todo with
      | nil =>
          simp only [pc, todo] at moved
          cases moved
          have := PollMove.scanEnd pc todo
          simpa only [State.pollAt, todo] using this
      | cons id rest =>
          cases query : s.mQueries id with
          | none => simp [pc, todo, query] at moved
          | some q =>
              simp only [pc, todo, query] at moved
              split at moved
              · next isMarked =>
                  cases moved
                  exact .marked pc todo query (by simpa using isMarked)
              · next unmarked =>
                  split at moved
                  · next chosen =>
                      cases moved
                      have := PollMove.select pc todo query (by grind) (by grind) (by grind)
                        (by grind) (by grind)
                      simpa only [pc] using this
                  · cases moved
                    have := PollMove.skip (s := s) pc todo
                    simpa only [State.visited, pc] using this
  | reapTest id =>
      cases query : s.mQueries id with
      | none => simp [pc, query] at moved
      | some q =>
          simp only [pc, query] at moved
          split at moved
          · next isDone =>
              cases moved
              exact .reapYes pc query (by grind) (by grind) (by grind)
          · next notDone =>
              cases moved
              exact .reapNo pc query (by grind)
  | reap id =>
      cases query : s.mQueries id with
      | none => simp [pc, query] at moved
      | some q =>
          simp only [pc, query] at moved
          split at moved
          · next found =>
              cases moved
              exact .reap pc query found
          · cases moved
  | retry id =>
      cases query : s.mQueries id with
      | none => simp [pc, query] at moved
      | some q =>
          simp only [pc, query] at moved
          split at moved
          · next isAgain =>
              split at moved
              · next room =>
                  cases moved
                  exact .again pc query isAgain room
              · next last =>
                  cases moved
                  exact .spent pc query isAgain (Nat.le_of_not_lt last)
          · next done =>
              cases moved
              exact .release pc query (by simpa using done)
  | create =>
      cases starts : s.poll.startQueries with
      | nil =>
          simp only [pc, starts] at moved
          cases moved
          have := PollMove.createEnd pc starts
          simpa only [State.pollAt, starts] using this
      | cons id rest =>
          cases query : s.mQueries id with
          | none => simp [pc, starts, query] at moved
          | some q =>
              simp only [pc, starts, query] at moved
              split at moved
              · cases moved
                have := PollMove.create pc starts query
                simpa only [pc] using this
              · cases moved
                have := PollMove.createFail pc starts query
                simpa only [pc] using this
  | free =>
      cases finished : s.poll.finishedQueries with
      | nil =>
          simp only [pc, finished] at moved
          cases moved
          have := PollMove.freeEnd pc finished
          simpa only [State.pollAt, finished] using this
      | cons id rest =>
          cases query : s.mQueries id with
          | none => simp [pc, finished, query] at moved
          | some q =>
              simp only [pc, finished, query] at moved
              cases moved
              exact .free pc finished query
  | erase id =>
      cases query : s.mQueries id with
      | none => simp [pc, query] at moved
      | some q =>
          simp only [pc, query] at moved
          split at moved
          · next unlocked =>
              cases moved
              exact .erase pc query unlocked
          · cases moved
  | join =>
      cases finished : s.poll.finishedThreads with
      | nil =>
          simp only [pc, finished] at moved
          cases moved
          exact .joinEnd pc finished
      | cons ref rest =>
          simp only [pc, finished] at moved
          split at moved
          · next returned =>
              cases moved
              have := PollMove.join pc finished returned
              simpa only [pc] using this
          · cases moved

/-! ## The game thread -/

/-- The game thread goes on at `pc`. -/
def State.gameAt (s : State) (pc : GamePc) : State := { s with game := pc }

inductive GameMove (s : State) : State → Prop where
  | addConnect (fwd : FwdPrms) : s.game.acceptsNatives = true →
      GameMove s { s with connPrms := s.connPrms ++ [fwd] }
  | badPriority : GameMove s s
  | prepare (conn : Option Conn) (async : Bool) (pri connId : Nat) (time : Int) :
      s.game.acceptsNatives = true → s.threadsMutex = none → pri ≤ maxQueryPriority →
      (async = true → conn = none) →
      GameMove s { (s.setQuery (s.queryNums + 1)
          (some (newQuery (s.queryNums + 1) conn async pri connId time))).emit
            (.created (s.queryNums + 1) async (getConnect s.connPrms connId)) with
        queryNums := s.queryNums + 1 }
  | execQuery {id : Nat} {q : Query} (err stores : Bool) : s.game.acceptsNatives = true →
      s.mQueries id = some q → held s id q = true →
      GameMove s (s.setQuery id (some (execQuery s.stopThreads q err stores)))
  | freeQuery {id : Nat} {q : Query} : s.game.acceptsNatives = true →
      s.mQueries id = some q → held s id q = true →
      GameMove s (s.setQuery id (some (freeQuery s.stopThreads q)))
  | startFrame {id : Nat} : s.game = .idle → s.stopThreads = false → s.frameMutex = none →
      id ∈ s.frames → GameMove s ({ s with frames := s.frames.erase id }.gameAt (.forward id))
  | stop : s.game = .idle → GameMove s ({ s with stopThreads := true }.gameAt .stopFrames)
  | turnBack {id : Nat} {q : Query} : s.game = .forward id → s.mQueries id = some q →
      s.stopThreads = true ∨ q.aborted = true → GameMove s (s.gameAt (.finish id))
  | deliver {id : Nat} {q : Query} : s.game = .forward id → s.mQueries id = some q →
      s.stopThreads = false → q.aborted = false →
      GameMove s (((s.emit (.allot id true true)).emit (.handler id q.failstate)).gameAt
        (.callback id))
  | heapLow {id : Nat} {q : Query} (error data : Bool) : s.game = .forward id →
      s.mQueries id = some q → s.stopThreads = false → q.aborted = false →
      (error && data) = false →
      GameMove s ((s.emit (.allot id error data)).gameAt (.finish id))
  | callback {id : Nat} : s.game = .callback id → GameMove s (s.gameAt (.finish id))
  | finish {id : Nat} {q : Query} : s.game = .finish id → s.mQueries id = some q →
      GameMove s ((s.setQuery id (some { q with finished := true })).gameAt .count)
  | count : s.game = .count →
      GameMove s ({ s with numFinished := s.numFinished + 1 }.gameAt .idle)
  | stopFrames : s.game = .stopFrames → s.frameMutex = none →
      GameMove s ({ s with frameMutex := some .game, frames := [] }.gameAt .stopThreads)
  | stopThreads : s.game = .stopThreads → s.threadsMutex = none →
      GameMove s ({ s with threadsMutex := some .game }.gameAt (.abort (queryOrder s)))
  | abortEnd : s.game = .abort [] →
      GameMove s ({ s with threadsMutex := none, frameMutex := none }.gameAt .unlock)
  | abort {id : Nat} {todo : List Nat} {q : Query} : s.game = .abort (id :: todo) →
      s.mQueries id = some q →
      GameMove s (((s.setQuery id (some { q with aborted := true })).emit (.aborted id)).gameAt
        (.abort todo))
  | unlock : s.game = .unlock → GameMove s ({ s with stopThreads := false }.gameAt .clear)
  | clear : s.game = .clear → GameMove s ({ s with connPrms := [] }.gameAt .idle)

theorem prepareQuery_move {conn : Option Conn} {async : Bool} {pri connId : Nat} {time : Int}
    (natives : s.game.acceptsNatives = true) (unconnected : async = true → conn = none)
    (moved : prepareQuery conn async pri connId time s = some s') : GameMove s s' := by
  unfold prepareQuery at moved
  split at moved
  · next unlocked =>
      split at moved
      · cases moved
        exact .badPriority
      · next inRange =>
          cases moved
          exact .prepare conn async pri connId time natives unlocked (Nat.le_of_not_lt inRange)
            unconnected
  · cases moved

theorem gameNext_move {error data : Bool} (moved : gameNext error data s = some s') :
    GameMove s s' := by
  unfold gameNext at moved
  cases pc : s.game with
  | idle => simp [pc] at moved
  | forward id =>
      cases query : s.mQueries id with
      | none => simp [pc, query] at moved
      | some q =>
          simp only [pc, query] at moved
          split at moved
          · next stop =>
              cases moved
              exact .turnBack pc query (by simpa using stop)
          · next free =>
              simp only [Bool.or_eq_true, not_or, Bool.not_eq_true] at free
              split at moved
              · next room =>
                  cases moved
                  simp only [Bool.and_eq_true] at room
                  rw [room.1, room.2]
                  exact .deliver pc query free.1 free.2
              · next low =>
                  cases moved
                  exact .heapLow error data pc query free.1 free.2 (by simpa using low)
  | callback id =>
      simp only [pc] at moved
      cases moved
      exact .callback pc
  | finish id =>
      cases query : s.mQueries id with
      | none => simp [pc, query] at moved
      | some q =>
          simp only [pc, query] at moved
          cases moved
          exact .finish pc query
  | count =>
      simp only [pc] at moved
      cases moved
      exact .count pc
  | stopFrames =>
      simp only [pc] at moved
      split at moved
      · next unlocked =>
          cases moved
          exact .stopFrames pc unlocked
      · cases moved
  | stopThreads =>
      simp only [pc] at moved
      split at moved
      · next unlocked =>
          cases moved
          exact .stopThreads pc unlocked
      · cases moved
  | abort todo =>
      cases todo with
      | nil =>
          simp only [pc] at moved
          cases moved
          exact .abortEnd pc
      | cons id todo =>
          cases query : s.mQueries id with
          | none => simp [pc, query] at moved
          | some q =>
              simp only [pc, query] at moved
              cases moved
              exact .abort pc query
  | unlock =>
      simp only [pc] at moved
      cases moved
      exact .unlock pc
  | clear =>
      simp only [pc] at moved
      cases moved
      exact .clear pc

theorem gameStep_move {act : GameAct} (moved : gameStep act s = some s') : GameMove s s' := by
  cases act with
  | addConnect fwd =>
      simp only [gameStep] at moved
      split at moved
      · next natives =>
          cases moved
          exact .addConnect fwd natives
      · cases moved
  | pushQuery connId pri time =>
      simp only [gameStep] at moved
      split at moved
      · next natives => exact prepareQuery_move natives (fun _ => rfl) moved
      · cases moved
  | query conn time =>
      simp only [gameStep] at moved
      split at moved
      · next natives => exact prepareQuery_move natives (fun sync => by cases sync) moved
      · cases moved
  | execQuery id err stores =>
      cases query : s.mQueries id with
      | none => simp [gameStep, query] at moved
      | some q =>
          simp only [gameStep, query] at moved
          split at moved
          · next natives =>
              cases moved
              exact .execQuery err stores natives.1 query natives.2
          · cases moved
  | freeQuery id =>
      cases query : s.mQueries id with
      | none => simp [gameStep, query] at moved
      | some q =>
          simp only [gameStep, query] at moved
          split at moved
          · next natives =>
              cases moved
              exact .freeQuery natives.1 query natives.2
          · cases moved
  | startFrame id =>
      simp only [gameStep] at moved
      split at moved
      · next ready =>
          cases moved
          exact .startFrame ready.1 ready.2.1 ready.2.2.1 ready.2.2.2.1
      · cases moved
  | stop =>
      simp only [gameStep] at moved
      split at moved
      · next idle =>
          cases moved
          exact .stop idle
      · cases moved
  | next error data => exact gameNext_move moved

/-- Every step of the machine is one of the moves. -/
theorem machine_move {a : Action} (moved : machine.step s a = some s') :
    (∃ id tid, QueryMove s id tid s') ∨ PollMove s s' ∨ GameMove s s' := by
  cases a with
  | game act => exact .inr (.inr (gameStep_move moved))
  | poll created => exact .inr (.inl (pollStep_move moved))
  | query id tid attempt => exact .inl ⟨id, tid, queryStep_move moved⟩

/-! ## The polling thread's own steps -/

theorem QueryMove.poll {id tid : Nat} (move : QueryMove s id tid s') : s'.poll = s.poll := by
  cases move <;> rfl

theorem GameMove.poll (move : GameMove s s') : s'.poll = s.poll := by
  cases move <;> rfl

/-- What the polling thread holds changes by its own steps only. -/
theorem poll_step {a : Action} (moved : machine.step s a = some s') :
    (∃ created, a = .poll created) ∨ s'.poll = s.poll := by
  cases a with
  | game act => exact .inr (gameStep_move moved).poll
  | poll created => exact .inl ⟨created, rfl⟩
  | query id tid attempt => exact .inr (queryStep_move moved).poll

end Refsapi.Mysql
