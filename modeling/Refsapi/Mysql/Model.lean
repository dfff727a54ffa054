/-
# Mysql.Model -- `mysql_mngr` as its threads run it

One step of the machine is one access of one thread to shared state: an atomic
load or store of a flag, the acquisition of a mutex, a section under a mutex
that no other thread can look into.  Three kinds of thread take the steps.

* The polling thread runs `poll_query` in a loop.  It holds `threads_mutex`
  while it walks over `m_queries`, tests the flags of one query at a time, reaps
  and retries, and creates threads; it frees queries and joins threads after it
  has let go of the mutex.
* Each query thread runs `run_query` once.
* The game thread creates queries, runs `start_frame` / `frame_forward` with the
  handler inside, and `stop`.

A query pointer is the query's id.  Dereferencing a query that has been deleted
is not a step: nothing can be said of the program from there on.  The log
records what a run has done, latest first; the code never reads it.
-/
import Mathlib.Logic.Function.Basic
import Refsapi.Lib.Transition

namespace Refsapi.Mysql

set_option autoImplicit false

/-! ## Data -/

def maxQueryPriority : Nat := 5

def queryRetryCount : Nat := 3

def tqueryConnectFailed : Int := -2
def tqueryQueryFailed : Int := -1
def tquerySuccess : Int := 0

/-- `fwd_prms_t`; the null `amx` is 0. -/
structure FwdPrms where
  id : Int
  amx : Nat
  deriving DecidableEq, Repr

/-- What `get_connect` leaves when the tuple does not exist. -/
def FwdPrms.none : FwdPrms := ⟨-1, 0⟩

def FwdPrms.registered (f : FwdPrms) : Bool := f.amx != 0 && f.id != -1

/-- A handle of `mysql_init`, and whether `mysql_real_connect` succeeded on it. -/
structure Conn where
  connected : Bool
  deriving DecidableEq, Repr

/-- `m_query_t`.  Of `data` and `result` only whether they are allocated is kept. -/
structure Query where
  id : Nat
  tid : Nat
  pri : Nat
  connId : Nat
  data : Bool
  retryCount : Nat
  async : Bool
  started : Bool
  aborted : Bool
  finished : Bool
  successful : Bool
  framed : Bool
  timeCreate : Int
  conn : Option Conn
  result : Bool
  fwd : FwdPrms
  failstate : Int
  deriving DecidableEq, Repr

/-- What the database and its client library do in one attempt. -/
structure Attempt where
  /-- `mysql_init` returns a handle -/
  init : Bool
  /-- `mysql_real_connect` returns the handle -/
  connects : Bool
  /-- `mysql_real_query` sets an error -/
  err : Bool
  /-- `mysql_use_result` returns a result set -/
  stores : Bool
  deriving DecidableEq, Repr

/-- How `async_connect` goes on after its tests: it has returned false, it has
found a connection, or it connects. -/
inductive Way where
  | refused
  | reuse
  | fresh
  deriving DecidableEq, Repr

/-- Where a query thread is in `run_query`. -/
inductive RunPc where
  | test
  | enter
  | exec (way : Way)
  | retest
  | lock
  | push
  | finish
  | count
  | returned
  deriving DecidableEq, Repr

structure Thread where
  tid : Nat
  pc : RunPc
  deriving DecidableEq, Repr

/-- A `std::thread` object: the id of the thread and the query it was made for. -/
structure ThreadRef where
  tid : Nat
  query : Nat
  deriving DecidableEq, Repr

/-- Where the polling thread is in `poll_query`; `idle` is between two calls. -/
inductive PollPc where
  | idle
  | scan
  | reapTest (id : Nat)
  | reap (id : Nat)
  | retry (id : Nat)
  | create
  | free
  | erase (id : Nat)
  | join
  deriving DecidableEq, Repr

/-- The locals of `poll_query`; `todo` is what its loop has still to visit. -/
structure Poll where
  pc : PollPc
  todo : List Nat
  startQueries : List Nat
  finishedQueries : List Nat
  finishedThreads : List ThreadRef
  deriving DecidableEq, Repr

def Poll.idle : Poll := ⟨.idle, [], [], [], []⟩

/-- Where the game thread is: in no function of the manager, in
`frame_forward` with the query it took from `m_frames`, or in `stop`. -/
inductive GamePc where
  | idle
  | forward (id : Nat)
  | callback (id : Nat)
  | finish (id : Nat)
  | count
  | stopFrames
  | stopThreads
  | abort (todo : List Nat)
  | unlock
  | clear
  deriving DecidableEq, Repr

inductive Party where
  | poll
  | game
  | query (id tid : Nat)
  deriving DecidableEq, Repr

/-- What a run has done. -/
inductive Event where
  /-- `prepare_query` inserted a query; `tuple` is what its `conn_id` named then -/
  | created (id : Nat) (async : Bool) (tuple : Option FwdPrms)
  /-- `run_query` passed its first test and hands the query to `exec_async_query` -/
  | start (id : Nat)
  /-- `exec_async_query` was entered; it goes on `way` -/
  | call (id : Nat) (way : Way)
  /-- `exec_async_query` returned -/
  | outcome (id : Nat) (successful : Bool)
  /-- `run_query` read `stop_threads` and `aborted` after the attempt -/
  | retest (id : Nat) (successful stopped : Bool)
  /-- `frame_forward` allotted the error text and the data -/
  | allot (id : Nat) (error data : Bool)
  /-- `frame_forward` executed the handler -/
  | handler (id : Nat) (failstate : Int)
  /-- `stop` set `aborted` -/
  | aborted (id : Nat)
  /-- `poll_query` freed and deleted the query -/
  | freed (id : Nat) (q : Query)
  deriving DecidableEq, Repr

structure State where
  connPrms : List FwdPrms
  mQueries : Nat → Option Query
  queryNums : Nat
  frames : List Nat
  maxThreads : Nat
  stopThreads : Bool
  threadsMutex : Option Party
  frameMutex : Option Party
  /-- by query, the threads that run it and have not been joined -/
  threads : Nat → List Thread
  nextTid : Nat
  mThreads : List Nat
  numThreads : Int
  numFinished : Int
  poll : Poll
  game : GamePc
  log : List Event

def State.start (maxThreads : Nat) : State :=
  { connPrms := [], mQueries := fun _ => none, queryNums := 0, frames := [], maxThreads,
    stopThreads := false, threadsMutex := none, frameMutex := none, threads := fun _ => [],
    nextTid := 0, mThreads := [], numThreads := 0, numFinished := 0, poll := .idle,
    game := .idle, log := [] }

/-! ## Setters -/

namespace State

def setQuery (s : State) (id : Nat) (q : Option Query) : State :=
  { s with mQueries := Function.update s.mQueries id q }

def setThreads (s : State) (id : Nat) (ts : List Thread) : State :=
  { s with threads := Function.update s.threads id ts }

/-- Thread `tid` of query `id` goes on at `pc`. -/
def goto (s : State) (id tid : Nat) (pc : RunPc) : State :=
  s.setThreads id ((s.threads id).map fun t => if t.tid = tid then { t with pc } else t)

def emit (s : State) (e : Event) : State := { s with log := e :: s.log }

end State

/-! ## Functions of the manager that run without interruption -/

/-- `threads_count()` -/
def threadsCount (s : State) : Int := s.numThreads - s.numFinished

/-- The test of `poll_query` on the number of threads.  The comparison converts
`threads_count()` to `size_t`, so that a negative count fails it. -/
def mayStart (s : State) (q : Query) : Prop :=
  0 ≤ threadsCount s ∧ threadsCount s < s.maxThreads <<< (maxQueryPriority - q.pri)

instance (s : State) (q : Query) : Decidable (mayStart s q) := inferInstanceAs (Decidable (_ ∧ _))

/-- The walk over `m_queries[0]` to `m_queries[MAX_QUERY_PRIORITY]`, each a map
ordered by id. -/
def queryOrder (s : State) : List Nat :=
  (List.range (maxQueryPriority + 1)).flatMap fun pri =>
    (List.range (s.queryNums + 1)).filter fun id =>
      match s.mQueries id with
      | some q => q.pri == pri
      | none => false

/-- `get_connect(conn_id, p)`: the parameters, when the tuple exists. -/
def getConnect (connPrms : List FwdPrms) (connId : Nat) : Option FwdPrms :=
  if connId = 0 then none else connPrms[connId - 1]?

/-- `is_valid_conn(q)` -/
def isValidConn (stopThreads : Bool) (q : Query) : Bool :=
  !(q.conn.isNone || q.finished || q.aborted || (stopThreads && q.async))

/-- `free_query(q)` -/
def freeQuery (stopThreads : Bool) (q : Query) : Query :=
  if !q.async && !q.finished then { q with finished := true }
  else
    let q := { q with result := false }
    let q := if q.data && (stopThreads || q.finished || q.aborted || q.successful)
      then { q with data := false } else q
    if q.async then { q with conn := none } else q

/-- The entry of `exec_async_query`, up to the first call that waits: the tests
of `async_connect`, `get_connect` and `mysql_init`. -/
def enterAttempt (connPrms : List FwdPrms) (q : Query) (attempt : Attempt) : Query × Way :=
  let q := { q with failstate := tquerySuccess }
  if q.finished || q.aborted || !q.async then (q, .refused)
  else if q.conn.isSome then (q, .reuse)
  else
    match getConnect connPrms q.connId with
    | none => ({ q with fwd := .none }, .refused)
    | some fwd =>
        if attempt.init then ({ q with fwd, conn := some ⟨false⟩ }, .fresh)
        else ({ q with fwd }, .refused)

/-- The rest of `exec_async_query`, with what the database answers. -/
def execAttempt (q : Query) (way : Way) (attempt : Attempt) : Query :=
  match way with
  | .refused => { q with failstate := tqueryConnectFailed }
  | .fresh =>
      if attempt.connects then
        { q with
          conn := some ⟨true⟩
          failstate := if attempt.err then tqueryQueryFailed else q.failstate }
      else { q with failstate := tqueryConnectFailed }
  | .reuse => { q with failstate := if attempt.err then tqueryQueryFailed else q.failstate }

/-- `get_result(q, is_buffered)`, of which the first result set is kept. -/
def getResult (stopThreads : Bool) (q : Query) (stores : Bool) : Query :=
  if isValidConn stopThreads q then { q with result := q.result || stores } else q

/-- What `run_query` does with an attempt: `q->successful = exec_async_query(q)` and
`get_result`. -/
def finishAttempt (stopThreads : Bool) (q : Query) (way : Way) (attempt : Attempt) : Query :=
  let q := execAttempt q way attempt
  let q := { q with successful := q.failstate == tquerySuccess }
  if q.successful then getResult stopThreads q attempt.stores else q

/-! ## A query thread -/

/-- One step of thread `tid` in `run_query(q)`, `q` being the query `id`. -/
def queryStep (id tid : Nat) (attempt : Attempt) (s : State) : Option State :=
  match (s.threads id).find? (fun t => t.tid == tid) with
  | none => none
  | some t =>
    match t.pc with
    | .push =>
        some ({ s with frames := s.frames ++ [id], frameMutex := none }.goto id tid .returned)
    | .count => some ({ s with numFinished := s.numFinished + 1 }.goto id tid .returned)
    | .returned => none
    | pc =>
      match s.mQueries id with
      | none => none
      | some q =>
        match pc with
        | .test =>
            if s.stopThreads || q.aborted then some (s.goto id tid .finish)
            else some ((s.emit (.start id)).goto id tid .enter)
        | .enter =>
            let (q, way) := enterAttempt s.connPrms q attempt
            some (((s.setQuery id (some q)).emit (.call id way)).goto id tid (.exec way))
        | .exec way =>
            let q := finishAttempt s.stopThreads q way attempt
            some (((s.setQuery id (some q)).emit (.outcome id q.successful)).goto id tid .retest)
        | .retest =>
            let stopped := s.stopThreads || q.aborted
            let s := s.emit (.retest id q.successful stopped)
            if stopped || q.fwd.amx == 0 || q.fwd.id == -1 then some (s.goto id tid .finish)
            else if !q.successful && decide (q.retryCount < queryRetryCount) then
              some (s.goto id tid .finish)
            else some (s.goto id tid .lock)
        | .lock =>
            if s.frameMutex = none then
              some ({ s.setQuery id (some { q with framed := true }) with
                frameMutex := some (.query id tid) }.goto id tid .push)
            else none
        | _ => some ((s.setQuery id (some { q with finished := true })).goto id tid .count)

/-! ## The polling thread -/

/-- The test that releases a query. -/
def Query.removable (q : Query) : Bool :=
  !q.async || q.finished || (q.aborted && (!q.started || q.framed))

/-- The test that sends a query back for another attempt; it counts the attempt in
any case. -/
def Query.again (q : Query) : Bool := q.async && !q.aborted && !q.successful

/-- The walk goes on, with the query marked for release or not. -/
def State.release (s : State) (id : Nat) (removable : Bool) : State :=
  if removable then
    { s with
      poll := { s.poll with
        pc := .scan, finishedQueries := s.poll.finishedQueries ++ [id] } }
  else { s with poll := { s.poll with pc := .scan } }

/-- One step of `poll_query`; `created` is whether a `std::thread` can be made. -/
def pollStep (created : Bool) (s : State) : Option State :=
  let p := s.poll
  match p.pc with
  | .idle =>
      if s.threadsMutex = none then
        some { s with
          threadsMutex := some .poll
          poll := ⟨.scan, queryOrder s, [], [], []⟩ }
      else none
  | .scan =>
      match p.todo with
      | [] => some { s with poll := { p with pc := .create } }
      | id :: todo =>
        match s.mQueries id with
        | none => none
        | some q =>
          if q.finished || q.aborted then
            some { s with poll := { p with pc := .reapTest id, todo } }
          else if !s.stopThreads && q.async && !q.started && decide (mayStart s q) then
            some { s.setQuery id (some { q with started := true }) with
              numThreads := s.numThreads + 1
              poll := { p with todo, startQueries := p.startQueries ++ [id] } }
          else some { s with poll := { p with todo } }
  | .reapTest id =>
      match s.mQueries id with
      | none => none
      | some q =>
        if q.async && q.started && (q.finished || q.aborted && q.framed) then
          some { s with poll := { p with pc := .reap id } }
        else some { s with poll := { p with pc := .retry id } }
  | .reap id =>
      match s.mQueries id with
      | none => none
      | some q =>
        -- m_threads.find(key) is used unchecked
        if q.tid ∈ s.mThreads then
          some { s with
            numThreads := s.numThreads - 1
            numFinished := if q.finished then s.numFinished - 1 else s.numFinished
            mThreads := s.mThreads.erase q.tid
            poll := { p with
              pc := .retry id, finishedThreads := p.finishedThreads ++ [⟨q.tid, id⟩] } }
        else none
  | .retry id =>
      match s.mQueries id with
      | none => none
      | some q =>
        if q.again then
          let q := { q with retryCount := q.retryCount + 1 }
          if q.retryCount < queryRetryCount then
            some { s.setQuery id (some { q with started := false, finished := false }) with
              poll := { p with pc := .scan } }
          else some ((s.setQuery id (some q)).release id q.removable)
        else some (s.release id q.removable)
  | .create =>
      match p.startQueries with
      | [] => some { s with threadsMutex := none, poll := { p with pc := .free } }
      | id :: startQueries =>
        match s.mQueries id with
        | none => none
        | some q =>
          if created then
            some { (s.setQuery id (some { q with tid := s.nextTid })).setThreads id
                (s.threads id ++ [⟨s.nextTid, .test⟩]) with
              nextTid := s.nextTid + 1
              mThreads := s.mThreads ++ [s.nextTid]
              poll := { p with startQueries } }
          else
            some { s.setQuery id (some { q with started := false }) with
              numThreads := s.numThreads - 1
              poll := { p with startQueries } }
  | .free =>
      match p.finishedQueries with
      | [] => some { s with poll := { p with pc := .join } }
      | id :: finishedQueries =>
        match s.mQueries id with
        | none => none
        | some q =>
          some { s.setQuery id (some (freeQuery s.stopThreads q)) with
            poll := { p with pc := .erase id, finishedQueries } }
  | .erase id =>
      match s.mQueries id with
      | none => none
      | some q =>
        if s.threadsMutex = none then
          some { (s.setQuery id none).emit (.freed id q) with poll := { p with pc := .free } }
        else none
  | .join =>
      match p.finishedThreads with
      | [] => some { s with poll := .idle }
      | ref :: finishedThreads =>
        -- join returns when the thread has
        if ⟨ref.tid, .returned⟩ ∈ s.threads ref.query then
          some { s.setThreads ref.query ((s.threads ref.query).erase ⟨ref.tid, .returned⟩) with
            poll := { p with finishedThreads } }
        else none

/-! ## The game thread -/

/-- What the game thread can begin.  Inside the handler a plugin may call the
natives, not a frame and not `stop`. -/
inductive GameAct where
  /-- `add_connect` -/
  | addConnect (fwd : FwdPrms)
  /-- `push_query`, for `rf_sql_async_query` -/
  | pushQuery (connId pri : Nat) (time : Int)
  /-- `prepare_query` of a synchronous query on the handle `conn`, for `rf_sql_query` -/
  | query (conn : Option Conn) (time : Int)
  /-- `rf_sql_exec` -/
  | execQuery (id : Nat) (err stores : Bool)
  /-- `rf_sql_free` -/
  | freeQuery (id : Nat)
  /-- `start_frame` in a frame that polls; `id` is `m_frames.top()` -/
  | startFrame (id : Nat)
  | stop
  /-- go on with what has begun; the flags say whether `amx_allot` succeeds -/
  | next (error data : Bool)
  deriving DecidableEq, Repr

def GamePc.acceptsNatives : GamePc → Bool
  | .idle => true
  | .callback _ => true
  | _ => false

/-- `left` comes out of `m_frames` no later than `right`. -/
def framedBefore (s : State) (left right : Nat) : Bool :=
  match s.mQueries left, s.mQueries right with
  | some l, some r => decide (l.timeCreate ≤ r.timeCreate)
  | _, _ => true

/-- What `prepare_query` makes. -/
def newQuery (id : Nat) (conn : Option Conn) (async : Bool) (pri connId : Nat) (time : Int) :
    Query :=
  { id, tid := 0, pri, connId, data := true, retryCount := 0, async, started := false,
    aborted := false, finished := false, successful := false, framed := false,
    timeCreate := time, conn, result := false, fwd := ⟨0, 0⟩, failstate := 0 }

/-- `prepare_query(conn, query, async, pri, timeout, conn_id, ..)` of a text that is
not empty. -/
def prepareQuery (conn : Option Conn) (async : Bool) (pri connId : Nat) (time : Int)
    (s : State) : Option State :=
  if s.threadsMutex = none then
    if maxQueryPriority < pri then some s
    else
      let id := s.queryNums + 1
      let q := newQuery id conn async pri connId time
      some { (s.setQuery id (some q)).emit (.created id async
        (getConnect s.connPrms connId)) with
        queryNums := id }
  else none

/-- A plugin has been given the pointer: `rf_sql_query` returned it, or its
handler was called with it. -/
def held (s : State) (id : Nat) (q : Query) : Bool :=
  !q.async || s.log.any fun
    | .handler x _ => x == id
    | _ => false

/-- `exec_query(q)` -/
def execQuery (stopThreads : Bool) (q : Query) (err stores : Bool) : Query :=
  if !isValidConn stopThreads q || q.started then q
  else
    let q := { q with started := true }
    if err then { q with failstate := tqueryQueryFailed }
    else
      getResult stopThreads { q with successful := true, failstate := tquerySuccess } stores

/-- The step of `frame_forward` or `stop` that comes next. -/
def gameNext (error data : Bool) (s : State) : Option State :=
  match s.game with
  | .idle => none
  | .forward id =>
      match s.mQueries id with
      | none => none
      | some q =>
        if s.stopThreads || q.aborted then some { s with game := .finish id }
        else
          let s := s.emit (.allot id error data)
          if error && data then
            some { s.emit (.handler id q.failstate) with game := .callback id }
          else some { s with game := .finish id }
  | .callback id => some { s with game := .finish id }
  | .finish id =>
      match s.mQueries id with
      | none => none
      | some q => some { s.setQuery id (some { q with finished := true }) with game := .count }
  | .count => some { s with numFinished := s.numFinished + 1, game := .idle }
  | .stopFrames =>
      if s.frameMutex = none then
        some { s with frameMutex := some .game, frames := [], game := .stopThreads }
      else none
  | .stopThreads =>
      if s.threadsMutex = none then
        some { s with threadsMutex := some .game, game := .abort (queryOrder s) }
      else none
  | .abort [] => some { s with threadsMutex := none, frameMutex := none, game := .unlock }
  | .abort (id :: todo) =>
      match s.mQueries id with
      | none => none
      | some q =>
          some { (s.setQuery id (some { q with aborted := true })).emit (.aborted id) with
            game := .abort todo }
  | .unlock => some { s with stopThreads := false, game := .clear }
  | .clear => some { s with connPrms := [], game := .idle }

def gameStep (act : GameAct) (s : State) : Option State :=
  match act with
  | .addConnect fwd =>
      if s.game.acceptsNatives then some { s with connPrms := s.connPrms ++ [fwd] } else none
  | .pushQuery connId pri time =>
      if s.game.acceptsNatives then prepareQuery none true pri connId time s else none
  | .query conn time =>
      if s.game.acceptsNatives then prepareQuery conn false maxQueryPriority 0 time s else none
  | .execQuery id err stores =>
      match s.mQueries id with
      | none => none
      | some q =>
        if s.game.acceptsNatives ∧ held s id q then
          some (s.setQuery id (some (execQuery s.stopThreads q err stores)))
        else none
  | .freeQuery id =>
      match s.mQueries id with
      | none => none
      | some q =>
        if s.game.acceptsNatives ∧ held s id q then
          some (s.setQuery id (some (freeQuery s.stopThreads q)))
        else none
  | .startFrame id =>
      if s.game = .idle ∧ s.stopThreads = false ∧ s.frameMutex = none ∧ id ∈ s.frames ∧
          ∀ other ∈ s.frames, framedBefore s id other then
        some { s with frames := s.frames.erase id, game := .forward id }
      else none
  | .stop =>
      if s.game = .idle then some { s with stopThreads := true, game := .stopFrames } else none
  | .next error data => gameNext error data s

/-! ## The machine -/

inductive Action where
  | game (act : GameAct)
  | poll (created : Bool)
  | query (id tid : Nat) (attempt : Attempt)
  deriving DecidableEq, Repr

def machine : Machine State Action where
  init s := ∃ maxThreads, s = .start maxThreads
  step s
    | .game act => gameStep act s
    | .poll created => pollStep created s
    | .query id tid attempt => queryStep id tid attempt s

end Refsapi.Mysql
