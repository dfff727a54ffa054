/-
# Mysql.Slice -- the life of one query

The proofs about `mysql_mngr` follow one query at a time.  `slice s id` is all
that a state says about the query `id`: its entry in `m_queries`, the threads
that run it, the lists and the program counter of the polling thread as far as
they are about it, `m_frames`, the game thread, and its history.  `Life` is what
can happen to a slice.

`slice_step` connects the two: every step of the machine is a step of `Life` for
every query, most often `stay`.  An invariant of one query is therefore an
induction over `Life` (`slice_invariant`), and no list or table of the machine
is mentioned in it.
-/
import Mathlib.Data.List.Count
import Mathlib.Data.List.Nodup
import Refsapi.Mysql.Step

namespace Refsapi.Mysql

set_option autoImplicit false

variable {s s' : State}

/-! ## The parts of a slice -/

/-- The part of `poll_query` that runs. -/
inductive Phase where
  | idle
  | walk
  | create
  | free
  | join
  deriving DecidableEq, Repr

def PollPc.phase : PollPc → Phase
  | .idle => .idle
  | .scan | .reapTest _ | .reap _ | .retry _ => .walk
  | .create => .create
  | .free | .erase _ => .free
  | .join => .join

/-- What `poll_query` is doing with one query. -/
inductive Visit where
  | none
  | reapTest
  | reap
  | retry
  | erase
  deriving DecidableEq, Repr

def PollPc.visit (pc : PollPc) (id : Nat) : Visit :=
  match pc with
  | .reapTest x => if x = id then .reapTest else .none
  | .reap x => if x = id then .reap else .none
  | .retry x => if x = id then .retry else .none
  | .erase x => if x = id then .erase else .none
  | _ => .none

/-- What `frame_forward` is doing with one query. -/
inductive Hand where
  | none
  | forward
  | callback
  | finish
  deriving DecidableEq, Repr

def GamePc.hand (pc : GamePc) (id : Nat) : Hand :=
  match pc with
  | .forward x => if x = id then .forward else .none
  | .callback x => if x = id then .callback else .none
  | .finish x => if x = id then .finish else .none
  | _ => .none

/-- Where `stop` is; `pending` counts the query in what it has still to abort. -/
inductive Stop where
  | none
  | frames
  | threads
  | abort (pending : Nat)
  | unlock
  | clear
  deriving DecidableEq, Repr

def GamePc.stop (pc : GamePc) (id : Nat) : Stop :=
  match pc with
  | .stopFrames => .frames
  | .stopThreads => .threads
  | .abort todo => .abort (todo.count id)
  | .unlock => .unlock
  | .clear => .clear
  | _ => .none

def Event.about : Event → Nat
  | .created id .. | .start id | .call id _ | .outcome id _ | .retest id .. | .allot id ..
  | .handler id _ | .aborted id | .freed id _ => id

/-- What a state says about one query. -/
structure Slice where
  id : Nat
  query : Option Query
  threads : List Thread
  made : Prop
  phase : Phase
  visit : Visit
  todo : Nat
  starts : Nat
  finished : Nat
  reaped : Nat
  frames : Nat
  hand : Hand
  stop : Stop
  stopThreads : Bool
  conns : List FwdPrms
  history : List Event

def slice (s : State) (id : Nat) : Slice :=
  { id
    query := s.mQueries id
    threads := s.threads id
    made := id ≤ s.queryNums
    phase := s.poll.pc.phase
    visit := s.poll.pc.visit id
    todo := s.poll.todo.count id
    starts := s.poll.startQueries.count id
    finished := s.poll.finishedQueries.count id
    reaped := s.poll.finishedThreads.countP (fun ref => ref.query == id)
    frames := s.frames.count id
    hand := s.game.hand id
    stop := s.game.stop id
    stopThreads := s.stopThreads
    conns := s.connPrms
    history := s.log.filter (fun e => e.about == id) }

/-! ## What can happen to a query -/

namespace Slice

/-- Thread `tid` is at `pc`. -/
def At (v : Slice) (tid : Nat) (pc : RunPc) : Prop :=
  v.threads.find? (fun t => t.tid == tid) = some ⟨tid, pc⟩

def goto (v : Slice) (tid : Nat) (pc : RunPc) : Slice :=
  { v with threads := v.threads.map fun t => if t.tid = tid then { t with pc } else t }

def emit (v : Slice) (e : Event) : Slice := { v with history := e :: v.history }

end Slice

inductive Life (v : Slice) : Slice → Prop where
  | stay : Life v v
  -- run_query
  | turnBack {tid : Nat} {q : Query} : v.At tid .test → v.query = some q →
      v.stopThreads = true ∨ q.aborted = true → Life v (v.goto tid .finish)
  | start {tid : Nat} {q : Query} : v.At tid .test → v.query = some q →
      v.stopThreads = false → q.aborted = false →
      Life v ((v.emit (.start v.id)).goto tid .enter)
  | enter {tid : Nat} {q : Query} (attempt : Attempt) : v.At tid .enter → v.query = some q →
      Life v (({ v with query := some (enterAttempt v.conns q attempt).1 }.emit
        (.call v.id (enterAttempt v.conns q attempt).2)).goto tid
          (.exec (enterAttempt v.conns q attempt).2))
  | exec {tid : Nat} {q : Query} {way : Way} (attempt : Attempt) : v.At tid (.exec way) →
      v.query = some q →
      Life v (({ v with query := some (finishAttempt v.stopThreads q way attempt) }.emit
        (.outcome v.id (finishAttempt v.stopThreads q way attempt).successful)).goto tid .retest)
  | retestBack {tid : Nat} {q : Query} : v.At tid .retest → v.query = some q →
      (v.stopThreads || q.aborted) = true ∨ q.fwd.registered = false ∨
        q.successful = false ∧ q.retryCount < queryRetryCount →
      Life v ((v.emit (.retest v.id q.successful (v.stopThreads || q.aborted))).goto tid .finish)
  | retestOn {tid : Nat} {q : Query} : v.At tid .retest → v.query = some q →
      v.stopThreads = false → q.aborted = false → q.fwd.registered = true →
      q.successful = true ∨ queryRetryCount ≤ q.retryCount →
      Life v ((v.emit (.retest v.id q.successful false)).goto tid .lock)
  | lock {tid : Nat} {q : Query} : v.At tid .lock → v.query = some q →
      Life v ({ v with query := some { q with framed := true } }.goto tid .push)
  | push {tid : Nat} : v.At tid .push →
      Life v ({ v with frames := v.frames + 1 }.goto tid .returned)
  | finish {tid : Nat} {q : Query} : v.At tid .finish → v.query = some q →
      Life v ({ v with query := some { q with finished := true } }.goto tid .count)
  | count {tid : Nat} : v.At tid .count → Life v (v.goto tid .returned)
  -- poll_query
  | begin (todo : Nat) : v.phase = .idle → todo ≤ 1 → (0 < todo → v.query ≠ none) →
      Life v { v with phase := .walk, todo, starts := 0, finished := 0, reaped := 0 }
  | scanEnd : v.phase = .walk → v.visit = .none → v.todo = 0 → Life v { v with phase := .create }
  | marked {q : Query} : v.phase = .walk → v.visit = .none → 0 < v.todo → v.query = some q →
      q.finished = true ∨ q.aborted = true →
      Life v { v with todo := v.todo - 1, visit := .reapTest }
  | select {q : Query} : v.phase = .walk → v.visit = .none → 0 < v.todo → v.query = some q →
      q.finished = false → q.aborted = false → q.async = true → q.started = false →
      Life v { v with
        query := some { q with started := true }, todo := v.todo - 1, starts := v.starts + 1 }
  | skip : v.phase = .walk → v.visit = .none → 0 < v.todo → Life v { v with todo := v.todo - 1 }
  | reapYes {q : Query} : v.visit = .reapTest → v.query = some q → q.async = true →
      q.started = true → q.finished = true ∨ q.aborted = true ∧ q.framed = true →
      Life v { v with visit := .reap }
  | reapNo {q : Query} : v.visit = .reapTest → v.query = some q →
      ¬ (q.async = true ∧ q.started = true ∧
        (q.finished = true ∨ q.aborted = true ∧ q.framed = true)) →
      Life v { v with visit := .retry }
  | reap : v.visit = .reap → Life v { v with visit := .retry, reaped := v.reaped + 1 }
  | again {q : Query} : v.visit = .retry → v.query = some q → q.again = true →
      q.retryCount + 1 < queryRetryCount →
      Life v { v with
        visit := .none
        query := some { q with
          retryCount := q.retryCount + 1, started := false, finished := false } }
  | spent {q : Query} : v.visit = .retry → v.query = some q → q.again = true →
      queryRetryCount ≤ q.retryCount + 1 →
      Life v { v with
        visit := .none
        query := some { q with retryCount := q.retryCount + 1 }
        finished := if q.removable then v.finished + 1 else v.finished }
  | release {q : Query} : v.visit = .retry → v.query = some q → q.again = false →
      Life v { v with
        visit := .none, finished := if q.removable then v.finished + 1 else v.finished }
  | createEnd : v.phase = .create → v.starts = 0 → Life v { v with phase := .free }
  | create {q : Query} (tid : Nat) : v.phase = .create → 0 < v.starts → v.query = some q →
      Life v { v with
        query := some { q with tid }
        threads := v.threads ++ [⟨tid, .test⟩]
        starts := v.starts - 1 }
  | createFail {q : Query} : v.phase = .create → 0 < v.starts → v.query = some q →
      Life v { v with query := some { q with started := false }, starts := v.starts - 1 }
  | freeEnd : v.phase = .free → v.visit = .none → v.finished = 0 →
      Life v { v with phase := .join }
  | free {q : Query} : v.phase = .free → v.visit = .none → 0 < v.finished → v.query = some q →
      Life v { v with
        query := some (freeQuery v.stopThreads q), visit := .erase, finished := v.finished - 1 }
  | erase {q : Query} : v.visit = .erase → v.query = some q →
      Life v ({ v with query := none, visit := .none }.emit (.freed v.id q))
  | joinEnd : v.phase = .join → v.reaped = 0 →
      Life v { v with phase := .idle, todo := 0, starts := 0, finished := 0 }
  | join {tid : Nat} : v.phase = .join → 0 < v.reaped → ⟨tid, .returned⟩ ∈ v.threads →
      Life v { v with threads := v.threads.erase ⟨tid, .returned⟩, reaped := v.reaped - 1 }
  -- the game thread
  | addConnect (fwd : FwdPrms) : v.stop = .none → Life v { v with conns := v.conns ++ [fwd] }
  | prepare (conn : Option Conn) (async : Bool) (pri connId : Nat) (time : Int) : ¬ v.made →
      v.stop = .none → pri ≤ maxQueryPriority → (async = true → conn = .none) →
      Life v ({ v with
        made := True, query := some (newQuery v.id conn async pri connId time) }.emit
          (.created v.id async (getConnect v.conns connId)))
  | execQuery {q : Query} (err stores : Bool) : v.query = some q →
      q.async = false ∨ (∃ f, .handler v.id f ∈ v.history) →
      Life v { v with query := some (execQuery v.stopThreads q err stores) }
  | freeQuery {q : Query} : v.query = some q →
      q.async = false ∨ (∃ f, .handler v.id f ∈ v.history) →
      Life v { v with query := some (freeQuery v.stopThreads q) }
  | startFrame : v.hand = .none → v.stop = .none → v.stopThreads = false → 0 < v.frames →
      Life v { v with frames := v.frames - 1, hand := .forward }
  | backFrame {q : Query} : v.hand = .forward → v.query = some q →
      v.stopThreads = true ∨ q.aborted = true → Life v { v with hand := .finish }
  | deliver {q : Query} : v.hand = .forward → v.query = some q → q.aborted = false →
      Life v (({ v with hand := .callback }.emit (.allot v.id true true)).emit
        (.handler v.id q.failstate))
  | heapLow {q : Query} (error data : Bool) : v.hand = .forward → v.query = some q →
      q.aborted = false → (error && data) = false →
      Life v ({ v with hand := .finish }.emit (.allot v.id error data))
  | callback : v.hand = .callback → Life v { v with hand := .finish }
  | finishFrame {q : Query} : v.hand = .finish → v.query = some q →
      Life v { v with hand := .none, query := some { q with finished := true } }
  | stop : v.hand = .none → v.stop = .none →
      Life v { v with stop := .frames, stopThreads := true }
  | stopFrames : v.stop = .frames → Life v { v with stop := .threads, frames := 0 }
  | stopThreads (pending : Nat) : v.stop = .threads →
      (∀ q, v.query = some q → q.pri ≤ maxQueryPriority → v.made → 0 < pending) →
      Life v { v with stop := .abort pending }
  | abort {pending : Nat} {q : Query} : v.stop = .abort (pending + 1) → v.query = some q →
      Life v ({ v with stop := .abort pending, query := some { q with aborted := true } }.emit
        (.aborted v.id))
  | abortEnd : v.stop = .abort 0 → Life v { v with stop := .unlock }
  | unlock : v.stop = .unlock → Life v { v with stop := .clear, stopThreads := false }
  | clear : v.stop = .clear → Life v { v with stop := .none, conns := [] }

/-! ## Every step is a step of every life -/

theorem slice_goto (s : State) (id tid : Nat) (pc : RunPc) :
    slice (s.goto id tid pc) id = (slice s id).goto tid pc := by
  simp [slice, Slice.goto, State.goto, State.setThreads]

theorem slice_emit (s : State) {id : Nat} {e : Event} (about : e.about = id) :
    slice (s.emit e) id = (slice s id).emit e := by
  simp [slice, Slice.emit, State.emit, about]

theorem slice_setQuery (s : State) (id : Nat) (q : Option Query) :
    slice (s.setQuery id q) id = { slice s id with query := q } := by
  simp [slice, State.setQuery]

theorem QueryMove.life {id tid : Nat} (move : QueryMove s id tid s') (x : Nat) :
    Life (slice s x) (slice s' x) := by
  by_cases other : x = id
  · subst other
    cases move with
    | turnBack thread query stop =>
        rw [slice_goto]
        exact .turnBack thread query stop
    | start thread query free unaborted =>
        rw [slice_goto, slice_emit _ (show Event.about (.start x) = x from rfl)]
        exact Life.start (v := slice s x) thread query free unaborted
    | enter attempt thread query =>
        rw [slice_goto, slice_emit _ (show Event.about (.call x _) = x from rfl), slice_setQuery]
        exact Life.enter (v := slice s x) attempt thread query
    | exec attempt thread query =>
        rw [slice_goto, slice_emit _ (show Event.about (.outcome x _) = x from rfl), slice_setQuery]
        exact Life.exec (v := slice s x) attempt thread query
    | retestBack thread query back =>
        rw [slice_goto, slice_emit _ (show Event.about (.retest x _ _) = x from rfl)]
        exact Life.retestBack (v := slice s x) thread query back
    | retestOn thread query free unaborted registered ok =>
        rw [slice_goto, slice_emit _ (show Event.about (.retest x _ _) = x from rfl)]
        exact Life.retestOn (v := slice s x) thread query free unaborted registered ok
    | lock thread query unlocked =>
        rw [slice_goto]
        simpa [slice, State.setQuery] using Life.lock (v := slice s x) thread query
    | push thread =>
        rw [slice_goto]
        simpa [slice, List.count_append] using Life.push (v := slice s x) thread
    | finish thread query =>
        rw [slice_goto, slice_setQuery]
        exact .finish thread query
    | count thread =>
        rw [slice_goto]
        exact .count thread
  · have same : slice s' x = slice s x := by
      have about : id ≠ x := fun same => other same.symm
      cases move <;>
        simp [slice, State.goto, State.setThreads, State.setQuery, State.emit, Event.about, other,
          about, List.count_append]
    exact same ▸ .stay

/-! ## The walk over all queries -/

theorem mem_queryOrder (s : State) (id : Nat) :
    id ∈ queryOrder s ↔
      id ≤ s.queryNums ∧ ∃ q, s.mQueries id = some q ∧ q.pri ≤ maxQueryPriority := by
  simp only [queryOrder, List.mem_flatMap, List.mem_range, List.mem_filter]
  cases query : s.mQueries id with
  | none => simp
  | some q =>
      simp only [beq_iff_eq, Option.some.injEq, exists_eq_left']
      constructor
      · rintro ⟨pri, inRange, made, rfl⟩
        exact ⟨by omega, by omega⟩
      · rintro ⟨made, inRange⟩
        exact ⟨q.pri, by omega, by omega, rfl⟩

theorem nodup_queryOrder (s : State) : (queryOrder s).Nodup := by
  rw [queryOrder, List.nodup_flatMap]
  refine ⟨fun pri _ => List.nodup_range.filter _, ?_⟩
  refine List.nodup_range.imp fun {pri pri'} distinct => ?_
  intro id left right
  simp only [List.mem_filter] at left right
  cases query : s.mQueries id with
  | none => simp [query] at left
  | some q =>
      simp only [query, beq_iff_eq] at left right
      exact distinct (left.2.symm.trans right.2)

theorem count_queryOrder_le (s : State) (id : Nat) : (queryOrder s).count id ≤ 1 :=
  List.nodup_iff_count_le_one.1 (nodup_queryOrder s) id

/-! ## The polling thread and the game thread -/

theorem Life.of_same {x : Nat} (same : slice s' x = slice s x) :
    Life (slice s x) (slice s' x) := same ▸ .stay

theorem PollMove.life (move : PollMove s s') (x : Nat) : Life (slice s x) (slice s' x) := by
  cases move with
  | begin pc unlocked =>
      have := Life.begin (v := slice s x) ((queryOrder s).count x)
        (by simp [slice, pc, PollPc.phase]) (count_queryOrder_le s x) (fun pos => by
          obtain ⟨-, q, query, -⟩ := (mem_queryOrder s x).1 (List.count_pos_iff.1 pos)
          simp [slice, query])
      simpa [slice, pc, PollPc.phase, PollPc.visit] using this
  | scanEnd pc todo =>
      have := Life.scanEnd (v := slice s x) (by simp [slice, pc, PollPc.phase])
        (by simp [slice, pc, PollPc.visit]) (by simp [slice, todo])
      simpa [slice, State.pollAt, pc, PollPc.phase, PollPc.visit] using this
  | @marked id todo q pc head query isMarked =>
      by_cases other : id = x
      · subst other
        have := Life.marked (v := slice s id) (by simp [slice, pc, PollPc.phase])
          (by simp [slice, pc, PollPc.visit]) (by simp [slice, head]) query isMarked
        simpa [slice, State.pollAt, State.visited, pc, head, PollPc.phase, PollPc.visit] using this
      · apply Life.of_same
        simp [slice, State.pollAt, State.visited, pc, head, PollPc.phase, PollPc.visit, other]
  | @select id todo q pc head query unfinished unaborted async unstarted may =>
      by_cases other : id = x
      · subst other
        have := Life.select (v := slice s id) (by simp [slice, pc, PollPc.phase])
          (by simp [slice, pc, PollPc.visit]) (by simp [slice, head]) query unfinished unaborted
          async unstarted
        simpa [slice, State.setQuery, pc, head, PollPc.phase, PollPc.visit] using this
      · apply Life.of_same
        simp [slice, State.setQuery, pc, head, PollPc.phase, PollPc.visit, other, Ne.symm other]
  | @skip id todo pc head =>
      by_cases other : id = x
      · subst other
        have := Life.skip (v := slice s id) (by simp [slice, pc, PollPc.phase])
          (by simp [slice, pc, PollPc.visit]) (by simp [slice, head])
        simpa [slice, State.visited, pc, head, PollPc.phase, PollPc.visit] using this
      · apply Life.of_same
        simp [slice, State.visited, pc, head, PollPc.phase, PollPc.visit, other]
  | @reapYes id q pc query async started isDone =>
      by_cases other : id = x
      · subst other
        have := Life.reapYes (v := slice s id) (by simp [slice, pc, PollPc.visit]) query async
          started isDone
        simpa [slice, State.pollAt, pc, PollPc.phase, PollPc.visit] using this
      · apply Life.of_same
        simp [slice, State.pollAt, pc, PollPc.phase, PollPc.visit, other]
  | @reapNo id q pc query notDone =>
      by_cases other : id = x
      · subst other
        have := Life.reapNo (v := slice s id) (by simp [slice, pc, PollPc.visit]) query notDone
        simpa [slice, State.pollAt, pc, PollPc.phase, PollPc.visit] using this
      · apply Life.of_same
        simp [slice, State.pollAt, pc, PollPc.phase, PollPc.visit, other]
  | @reap id q pc query found =>
      by_cases other : id = x
      · subst other
        have := Life.reap (v := slice s id) (by simp [slice, pc, PollPc.visit])
        simpa [slice, pc, PollPc.phase, PollPc.visit] using this
      · apply Life.of_same
        simp [slice, pc, PollPc.phase, PollPc.visit, other]
  | @again id q pc query isAgain room =>
      by_cases other : id = x
      · subst other
        have := Life.again (v := slice s id) (by simp [slice, pc, PollPc.visit]) query isAgain room
        simpa [slice, State.setQuery, State.pollAt, pc, PollPc.phase, PollPc.visit] using this
      · apply Life.of_same
        simp [slice, State.setQuery, State.pollAt, pc, PollPc.phase, PollPc.visit, other,
          Ne.symm other]
  | @spent id q pc query isAgain last =>
      by_cases other : id = x
      · subst other
        have := Life.spent (v := slice s id) (by simp [slice, pc, PollPc.visit]) query isAgain last
        cases released : q.removable <;>
          simpa [slice, State.setQuery, State.release, released, pc, PollPc.phase,
            PollPc.visit] using this
      · apply Life.of_same
        cases released : q.removable <;>
          simp [slice, State.setQuery, State.release, pc, PollPc.phase, PollPc.visit, other,
            Ne.symm other]
  | @release id q pc query isAgain =>
      by_cases other : id = x
      · subst other
        have := Life.release (v := slice s id) (by simp [slice, pc, PollPc.visit]) query isAgain
        cases released : q.removable <;>
          simpa [slice, State.release, released, pc, PollPc.phase, PollPc.visit] using this
      · apply Life.of_same
        cases released : q.removable <;>
          simp [slice, State.release, pc, PollPc.phase, PollPc.visit, other]
  | createEnd pc starts =>
      have := Life.createEnd (v := slice s x) (by simp [slice, pc, PollPc.phase])
        (by simp [slice, starts])
      simpa [slice, State.pollAt, pc, PollPc.phase, PollPc.visit] using this
  | @create id rest q pc head query =>
      by_cases other : id = x
      · subst other
        have := Life.create (v := slice s id) s.nextTid (by simp [slice, pc, PollPc.phase])
          (by simp [slice, head]) query
        simpa [slice, State.setQuery, State.setThreads, pc, head, PollPc.phase,
          PollPc.visit] using this
      · apply Life.of_same
        simp [slice, State.setQuery, State.setThreads, pc, head, PollPc.phase, PollPc.visit, other,
          Ne.symm other]
  | @createFail id rest q pc head query =>
      by_cases other : id = x
      · subst other
        have := Life.createFail (v := slice s id) (by simp [slice, pc, PollPc.phase])
          (by simp [slice, head]) query
        simpa [slice, State.setQuery, pc, head, PollPc.phase, PollPc.visit] using this
      · apply Life.of_same
        simp [slice, State.setQuery, pc, head, PollPc.phase, PollPc.visit, other, Ne.symm other]
  | freeEnd pc finished =>
      have := Life.freeEnd (v := slice s x) (by simp [slice, pc, PollPc.phase])
        (by simp [slice, pc, PollPc.visit]) (by simp [slice, finished])
      simpa [slice, State.pollAt, pc, PollPc.phase, PollPc.visit] using this
  | @free id rest q pc head query =>
      by_cases other : id = x
      · subst other
        have := Life.free (v := slice s id) (by simp [slice, pc, PollPc.phase])
          (by simp [slice, pc, PollPc.visit]) (by simp [slice, head]) query
        simpa [slice, State.setQuery, pc, head, PollPc.phase, PollPc.visit] using this
      · apply Life.of_same
        simp [slice, State.setQuery, pc, head, PollPc.phase, PollPc.visit, other, Ne.symm other]
  | @erase id q pc query unlocked =>
      by_cases other : id = x
      · subst other
        have := Life.erase (v := slice s id) (by simp [slice, pc, PollPc.visit]) query
        simpa [slice, State.setQuery, State.emit, Slice.emit, State.pollAt, Event.about, pc,
          PollPc.phase, PollPc.visit] using this
      · apply Life.of_same
        simp [slice, State.setQuery, State.emit, State.pollAt, Event.about, pc, PollPc.phase,
          PollPc.visit, other, Ne.symm other]
  | joinEnd pc finished =>
      have := Life.joinEnd (v := slice s x) (by simp [slice, pc, PollPc.phase])
        (by simp [slice, finished])
      simpa [slice, pc, finished, Poll.idle, PollPc.phase, PollPc.visit] using this
  | @join ref rest pc head returned =>
      by_cases other : ref.query = x
      · subst other
        have := Life.join (v := slice s ref.query) (by simp [slice, pc, PollPc.phase])
          (by simp [slice, head]) returned
        simpa [slice, State.setThreads, pc, head, PollPc.phase, PollPc.visit] using this
      · apply Life.of_same
        simp [slice, State.setThreads, pc, head, PollPc.phase, PollPc.visit, other, Ne.symm other]

theorem stop_none_of_natives {pc : GamePc} (natives : pc.acceptsNatives = true) (x : Nat) :
    pc.stop x = .none := by
  cases pc <;> first | rfl | cases natives

theorem held_iff {id : Nat} {q : Query} : held s id q = true ↔
    q.async = false ∨ ∃ f, Event.handler id f ∈ (slice s id).history := by
  have sync : (!q.async) = true ↔ q.async = false := by simp
  rw [held, Bool.or_eq_true, sync, List.any_eq_true]
  refine or_congr_right ?_
  simp only [slice, List.mem_filter]
  constructor
  · rintro ⟨e, member, same⟩
    cases e with
    | handler x f =>
        obtain rfl : x = id := by simpa using same
        exact ⟨f, member, by simp [Event.about]⟩
    | _ => cases same
  · rintro ⟨f, member, -⟩
    exact ⟨_, member, by simp⟩

theorem GameMove.life (move : GameMove s s') (x : Nat) : Life (slice s x) (slice s' x) := by
  cases move with
  | addConnect fwd natives =>
      exact .addConnect (v := slice s x) fwd (stop_none_of_natives natives x)
  | badPriority => exact .stay
  | prepare conn async pri connId time natives unlocked inRange unconnected =>
      by_cases other : s.queryNums + 1 = x
      · subst other
        have := Life.prepare (v := slice s (s.queryNums + 1)) conn async pri connId time
          (by simp [slice]) (stop_none_of_natives natives _) inRange unconnected
        simpa [slice, State.setQuery, State.emit, Slice.emit, Event.about] using this
      · apply Life.of_same
        have made : x ≤ s.queryNums + 1 ↔ x ≤ s.queryNums := by omega
        simp [slice, State.setQuery, State.emit, Event.about, other, Ne.symm other, made]
  | @execQuery id q err stores natives query isHeld =>
      by_cases other : id = x
      · subst other
        have := Life.execQuery (v := slice s id) err stores query (held_iff.1 isHeld)
        simpa [slice, State.setQuery] using this
      · apply Life.of_same
        simp [slice, State.setQuery, Ne.symm other]
  | @freeQuery id q natives query isHeld =>
      by_cases other : id = x
      · subst other
        have := Life.freeQuery (v := slice s id) query (held_iff.1 isHeld)
        simpa [slice, State.setQuery] using this
      · apply Life.of_same
        simp [slice, State.setQuery, Ne.symm other]
  | @startFrame id pc free unlocked member =>
      by_cases other : id = x
      · subst other
        have := Life.startFrame (v := slice s id) (by simp [slice, pc, GamePc.hand])
          (by simp [slice, pc, GamePc.stop]) free (List.count_pos_iff.2 member)
        simpa [slice, State.gameAt, pc, GamePc.hand, GamePc.stop] using this
      · apply Life.of_same
        simp [slice, State.gameAt, pc, GamePc.hand, GamePc.stop, other,
          List.count_erase_of_ne (Ne.symm other)]
  | stop pc =>
      have := Life.stop (v := slice s x) (by simp [slice, pc, GamePc.hand])
        (by simp [slice, pc, GamePc.stop])
      simpa [slice, State.gameAt, pc, GamePc.hand, GamePc.stop] using this
  | @turnBack id q pc query stop =>
      by_cases other : id = x
      · subst other
        have := Life.backFrame (v := slice s id) (by simp [slice, pc, GamePc.hand]) query stop
        simpa [slice, State.gameAt, pc, GamePc.hand, GamePc.stop] using this
      · apply Life.of_same
        simp [slice, State.gameAt, pc, GamePc.hand, GamePc.stop, other]
  | @deliver id q pc query free unaborted =>
      by_cases other : id = x
      · subst other
        have := Life.deliver (v := slice s id) (by simp [slice, pc, GamePc.hand]) query unaborted
        simpa [slice, State.gameAt, State.emit, Slice.emit, Event.about, pc, GamePc.hand,
          GamePc.stop] using this
      · apply Life.of_same
        simp [slice, State.gameAt, State.emit, Event.about, pc, GamePc.hand, GamePc.stop, other]
  | @heapLow id q error data pc query free unaborted low =>
      by_cases other : id = x
      · subst other
        have := Life.heapLow (v := slice s id) error data (by simp [slice, pc, GamePc.hand]) query
          unaborted low
        simpa [slice, State.gameAt, State.emit, Slice.emit, Event.about, pc, GamePc.hand,
          GamePc.stop] using this
      · apply Life.of_same
        simp [slice, State.gameAt, State.emit, Event.about, pc, GamePc.hand, GamePc.stop, other]
  | @callback id pc =>
      by_cases other : id = x
      · subst other
        have := Life.callback (v := slice s id) (by simp [slice, pc, GamePc.hand])
        simpa [slice, State.gameAt, pc, GamePc.hand, GamePc.stop] using this
      · apply Life.of_same
        simp [slice, State.gameAt, pc, GamePc.hand, GamePc.stop, other]
  | @finish id q pc query =>
      by_cases other : id = x
      · subst other
        have := Life.finishFrame (v := slice s id) (by simp [slice, pc, GamePc.hand]) query
        simpa [slice, State.setQuery, State.gameAt, pc, GamePc.hand, GamePc.stop] using this
      · apply Life.of_same
        simp [slice, State.setQuery, State.gameAt, pc, GamePc.hand, GamePc.stop, other,
          Ne.symm other]
  | count pc =>
      apply Life.of_same
      simp [slice, State.gameAt, pc, GamePc.hand, GamePc.stop]
  | stopFrames pc unlocked =>
      have := Life.stopFrames (v := slice s x) (by simp [slice, pc, GamePc.stop])
      simpa [slice, State.gameAt, pc, GamePc.hand, GamePc.stop] using this
  | stopThreads pc unlocked =>
      have := Life.stopThreads (v := slice s x) ((queryOrder s).count x)
        (by simp [slice, pc, GamePc.stop])
        (fun q query inRange made =>
          List.count_pos_iff.2 ((mem_queryOrder s x).2 ⟨made, q, query, inRange⟩))
      simpa [slice, State.gameAt, pc, GamePc.hand, GamePc.stop] using this
  | abortEnd pc =>
      have := Life.abortEnd (v := slice s x) (by simp [slice, pc, GamePc.stop])
      simpa [slice, State.gameAt, pc, GamePc.hand, GamePc.stop] using this
  | @abort id todo q pc query =>
      by_cases other : id = x
      · subst other
        have := @Life.abort (slice s id) (todo.count id) q (by simp [slice, pc, GamePc.stop]) query
        simpa [slice, State.setQuery, State.emit, Slice.emit, Event.about, State.gameAt, pc,
          GamePc.hand, GamePc.stop] using this
      · apply Life.of_same
        simp [slice, State.setQuery, State.emit, Event.about, State.gameAt, pc, GamePc.hand,
          GamePc.stop, other, Ne.symm other]
  | unlock pc =>
      have := Life.unlock (v := slice s x) (by simp [slice, pc, GamePc.stop])
      simpa [slice, State.gameAt, pc, GamePc.hand, GamePc.stop] using this
  | clear pc =>
      have := Life.clear (v := slice s x) (by simp [slice, pc, GamePc.stop])
      simpa [slice, State.gameAt, pc, GamePc.hand, GamePc.stop] using this

/-- **Every step of the machine is a step in the life of every query.** -/
theorem slice_step {a : Action} (moved : machine.step s a = some s') (x : Nat) :
    Life (slice s x) (slice s' x) := by
  rcases machine_move moved with ⟨id, tid, move⟩ | move | move
  · exact move.life x
  · exact move.life x
  · exact move.life x

end Refsapi.Mysql
