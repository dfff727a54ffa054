/-
# Mysql.Invariant -- who holds a query, and what its flags say

`Good` ties the flags of a query to the places where it is held.  Its core is
`ThreadOk`: at most one un-joined thread runs a query, and if the query still
exists then either it is the thread the query was started with, and the flags
are those of the thread's place in `run_query` (`PcOk`), or it is an old thread
that is joined at the end of this pass, of a query the pass has already visited.

`Good.step` keeps it along every step in the life of a query, with `stop` and the
failure of a thread's creation at any moment; `good_of_reachable` is the run.
-/
import Refsapi.Mysql.Slice

namespace Refsapi.Mysql

set_option autoImplicit false

variable {s : State} {v v' : Slice}

/-! ## What the uninterrupted functions leave of a query -/

/-- `free_query` finishes a synchronous query; otherwise it only frees. -/
theorem freeQuery_control (stopThreads : Bool) (q : Query) :
    ∃ data result conn, freeQuery stopThreads q =
      { q with data, result, conn, finished := q.finished || !q.async } := by
  simp only [freeQuery]
  split
  · next kept => exact ⟨q.data, q.result, q.conn, by simp_all⟩
  · next isFreed =>
      have same : (q.finished || !q.async) = q.finished := by grind -ring -linarith
      rw [same]
      split <;> split
      · exact ⟨_, _, _, rfl⟩
      · exact ⟨_, _, q.conn, rfl⟩
      · exact ⟨q.data, _, _, rfl⟩
      · exact ⟨q.data, _, q.conn, rfl⟩

theorem enterAttempt_control (connPrms : List FwdPrms) (q : Query) (attempt : Attempt) :
    ∃ conn fwd, (enterAttempt connPrms q attempt).1 =
      { q with conn, fwd, failstate := tquerySuccess } := by
  simp only [enterAttempt]
  split
  · exact ⟨q.conn, q.fwd, rfl⟩
  split
  · exact ⟨q.conn, q.fwd, rfl⟩
  split
  · exact ⟨q.conn, _, rfl⟩
  · split
    · exact ⟨_, _, rfl⟩
    · exact ⟨q.conn, _, rfl⟩

theorem getResult_control (stopThreads : Bool) (q : Query) (stores : Bool) :
    ∃ result, getResult stopThreads q stores = { q with result } := by
  unfold getResult
  split
  · exact ⟨_, rfl⟩
  · exact ⟨q.result, rfl⟩

theorem execAttempt_control (q : Query) (way : Way) (attempt : Attempt) :
    ∃ conn failstate, execAttempt q way attempt = { q with conn, failstate } := by
  cases way with
  | refused => exact ⟨q.conn, _, rfl⟩
  | reuse => exact ⟨q.conn, _, rfl⟩
  | fresh =>
      simp only [execAttempt]
      split
      · exact ⟨_, _, rfl⟩
      · exact ⟨q.conn, _, rfl⟩

/-- An attempt decides `successful`, by `failstate`. -/
theorem finishAttempt_control (stopThreads : Bool) (q : Query) (way : Way) (attempt : Attempt) :
    ∃ conn failstate result, finishAttempt stopThreads q way attempt =
      { q with conn, failstate, result, successful := failstate == tquerySuccess } := by
  obtain ⟨conn, failstate, same⟩ := execAttempt_control q way attempt
  simp only [finishAttempt, same]
  split
  · obtain ⟨result, kept⟩ := getResult_control stopThreads
      { q with conn, failstate, successful := failstate == tquerySuccess } attempt.stores
    exact ⟨conn, failstate, result, kept⟩
  · exact ⟨conn, failstate, q.result, rfl⟩

theorem execQuery_control (stopThreads : Bool) (q : Query) (err stores : Bool) :
    ∃ started successful failstate result, execQuery stopThreads q err stores =
      { q with started, successful, failstate, result } := by
  simp only [execQuery]
  split
  · exact ⟨q.started, q.successful, q.failstate, q.result, rfl⟩
  split
  · exact ⟨true, q.successful, _, q.result, rfl⟩
  · obtain ⟨result, kept⟩ := getResult_control stopThreads
      { q with started := true, successful := true, failstate := tquerySuccess } stores
    exact ⟨true, true, _, result, kept⟩

/-- On a query that has been started `exec_query` does nothing. -/
theorem execQuery_of_started {q : Query} (started : q.started = true)
    (stopThreads err stores : Bool) : execQuery stopThreads q err stores = q := by
  simp [execQuery, started]

/-! ## The invariant -/

/-- The thread has still to decide what becomes of its query. -/
def RunPc.early : RunPc → Bool
  | .push | .count | .returned => false
  | _ => true

/-- The flags of a query by the place of its thread in `run_query`. -/
def PcOk (finished framed successful : Bool) : RunPc → Prop
  | .test | .enter | .exec _ => finished = false ∧ framed = false ∧ successful = false
  | .retest | .finish => finished = false ∧ framed = false
  | .lock => finished = false ∧ framed = false ∧ successful = true
  | .push => finished = false ∧ framed = true
  | .count => finished = true ∧ framed = false
  | .returned => finished = true ∨ framed = true

/-- The only un-joined thread of a query that exists: it runs the query's present
attempt, or it ran the one before and waits to be joined. -/
def LiveOk (v : Slice) (q : Query) (tid : Nat) (pc : RunPc) : Prop :=
  q.async = true ∧ v.starts = 0 ∧
    (q.started = true ∧ q.tid = tid ∧ PcOk q.finished q.framed q.successful pc ∧
        (0 < v.reaped → (v.visit = .retry ∨ v.finished = 1 ∨ v.visit = .erase) ∧
          q.removable = true) ∨
      q.started = false ∧ 0 < v.reaped ∧ v.todo = 0 ∧ (pc = .count ∨ pc = .returned))

/-- The only un-joined thread of a query. -/
structure ThreadOk (v : Slice) (tid : Nat) (pc : RunPc) : Prop where
  made : v.made
  reaped : v.reaped ≤ 1
  inside : pc ≠ .returned → v.frames = 0 ∧ v.hand = .none
  gone : v.query = none → pc.early = false
  live : ∀ q, v.query = some q → LiveOk v q tid pc

/-- The flags of a query by where it is held. -/
structure QueryOk (v : Slice) (q : Query) : Prop where
  made : v.made ∧ q.pri ≤ maxQueryPriority
  runs : q.async = true → q.started = true → v.starts = 0 →
    ∃ pc, v.threads = [⟨q.tid, pc⟩]
  waiting : q.async = true → q.started = false →
    q.finished = false ∧ q.framed = false ∧ q.successful = false ∧ v.starts = 0
  sync : q.async = false → q.framed = false ∧ v.starts = 0 ∧ v.threads = []
  selected : 0 < v.starts → q.async = true ∧ q.started = true ∧ q.finished = false ∧
    q.framed = false ∧ q.successful = false ∧ v.threads = []
  out : 0 < v.frames ∨ v.hand ≠ .none → q.framed = true ∧ q.finished = false
  framed : q.framed = true → q.successful = true
  fuel : q.retryCount < queryRetryCount ∨ q.finished = true
  visited : v.visit = .reapTest ∨ v.visit = .reap ∨ v.visit = .retry →
    q.finished = true ∨ q.aborted = true
  reaps : v.visit = .reap → q.async = true ∧ q.started = true ∧
    (q.finished = true ∨ q.aborted = true ∧ q.framed = true)
  reaped : v.visit = .retry ∨ 0 < v.finished ∨ v.visit = .erase → q.async = true →
    q.started = true → q.aborted = false → 0 < v.reaped
  removed : 0 < v.finished ∨ v.visit = .erase → q.removable = true
  handled : ∀ f, Event.handler v.id f ∈ v.history → q.async = true → q.framed = true

/-- Where the polling thread holds the query. -/
structure PollOk (v : Slice) : Prop where
  once : v.todo + v.starts + v.finished + (if v.visit = .none then 0 else 1) ≤ 1
  walk : v.visit = .reapTest ∨ v.visit = .reap ∨ v.visit = .retry → v.phase = .walk
  erase : v.visit = .erase → v.phase = .free
  todo : v.phase ≠ .walk → v.todo = 0
  starts : v.phase ≠ .walk → v.phase ≠ .create → v.starts = 0
  finished : v.phase = .idle ∨ v.phase = .join → v.finished = 0
  reaped : v.phase = .idle → v.reaped = 0
  gone : v.query = none → v.todo = 0 ∧ v.starts = 0 ∧ v.finished = 0 ∧ v.visit = .none
  unmade : ¬ v.made → v.query = none ∧ v.threads = [] ∧ v.reaped = 0 ∧ v.frames = 0 ∧
    v.hand = .none ∧ v.history = []

/-- At most one un-joined thread, and it is in order. -/
def ThreadsOk (v : Slice) : Prop :=
  (v.threads = [] ∧ v.reaped = 0) ∨ ∃ tid pc, v.threads = [⟨tid, pc⟩] ∧ ThreadOk v tid pc

structure Good (v : Slice) : Prop where
  poll : PollOk v
  out : v.frames ≤ 1 ∧ (v.hand ≠ .none → v.frames = 0)
  thread : ThreadsOk v
  query : ∀ q, v.query = some q → QueryOk v q

attribute [grind =] RunPc.early PcOk LiveOk ThreadsOk Query.removable Query.again Slice.emit
attribute [grind cases] PollOk ThreadOk QueryOk

theorem good_start (maxThreads id : Nat) : Good (slice (.start maxThreads) id) := by
  constructor
  · constructor <;> simp [slice, State.start, Poll.idle, PollPc.phase, PollPc.visit, GamePc.hand]
  · simp [slice, State.start]
  · exact .inl ⟨rfl, rfl⟩
  · simp [slice, State.start]

/-! ## The thread of a query -/

theorem ThreadsOk.only (threads : ThreadsOk v) {tid : Nat} {pc : RunPc} (thread : v.At tid pc) :
    v.threads = [⟨tid, pc⟩] ∧ ThreadOk v tid pc := by
  rcases threads with ⟨none, -⟩ | ⟨tid', pc', only, ok⟩
  · simp [Slice.At, none] at thread
  · have same : tid' = tid ∧ pc' = pc := by
      by_cases other : tid' = tid
      · simpa [Slice.At, only, other] using thread
      · simp [Slice.At, only, other] at thread
    exact ⟨same.1 ▸ same.2 ▸ only, same.1 ▸ same.2 ▸ ok⟩

/-- A thread that is reaped is the only one. -/
theorem ThreadsOk.reaps (threads : ThreadsOk v) {tid : Nat}
    (returned : ⟨tid, .returned⟩ ∈ v.threads) : v.threads = [⟨tid, .returned⟩] := by
  rcases threads with ⟨none, -⟩ | ⟨tid', pc, only, -⟩
  · simp [none] at returned
  · simpa [only, eq_comm] using returned

theorem goto_of_only {tid : Nat} {pc : RunPc} (only : v.threads = [⟨tid, pc⟩]) (pc' : RunPc) :
    v.goto tid pc' = { v with threads := [⟨tid, pc'⟩] } := by
  simp [Slice.goto, only]

theorem ThreadsOk.goto {tid : Nat} {pc pc' : RunPc} (only : v.threads = [⟨tid, pc⟩])
    (ok : ThreadOk { v with threads := [⟨tid, pc'⟩] } tid pc') : ThreadsOk (v.goto tid pc') := by
  rw [goto_of_only only]
  exact .inr ⟨tid, pc', rfl, ok⟩

/-- Whatever keeps the thread keeps `ThreadsOk`, when its thread stays in order. -/
theorem ThreadsOk.kept (threads : ThreadsOk v) (same : v'.threads = v.threads)
    (unreaped : v.reaped = v'.reaped)
    (ok : ∀ tid pc, v.threads = [⟨tid, pc⟩] → ThreadOk v tid pc → ThreadOk v' tid pc) :
    ThreadsOk v' := by
  rcases threads with ⟨none, zero⟩ | ⟨tid, pc, only, old⟩
  · exact .inl ⟨same ▸ none, unreaped ▸ zero⟩
  · exact .inr ⟨tid, pc, same ▸ only, ok tid pc only old⟩

theorem PcOk.of_finished {framed successful : Bool} {pc : RunPc}
    (ok : PcOk true framed successful pc) :
    pc = .count ∨ pc = .returned := by
  cases pc <;> simp_all [PcOk]

theorem PcOk.early_of_removable {q : Query} {pc : RunPc}
    (ok : PcOk q.finished q.framed q.successful pc) (async : q.async = true)
    (started : q.started = true) (removable : q.removable = true) : pc.early = false := by
  cases pc <;> simp_all [PcOk, RunPc.early, Query.removable]

theorem ThreadOk.of_live {q : Query} {tid : Nat} {pc : RunPc} (query : v.query = some q)
    (made : v.made)
    (reaped : v.reaped ≤ 1) (inside : pc ≠ .returned → v.frames = 0 ∧ v.hand = .none)
    (live : LiveOk v q tid pc) :
    ThreadOk v tid pc :=
  ⟨made, reaped, inside, fun gone => by simp [gone] at query, fun _ same =>
    Option.some.inj (query.symm.trans same) ▸ live⟩

/-- The plugin holds a query that has been started. -/
theorem QueryOk.started_of_held {q : Query} (ok : QueryOk v q) (async : q.async = true)
    (held : q.async = false ∨ ∃ f, Event.handler v.id f ∈ v.history) : q.started = true := by
  obtain sync | ⟨f, handled⟩ := held
  · simp [async] at sync
  · have framed := ok.handled f handled async
    by_contra unstarted
    simpa [framed] using ok.waiting async (by simpa using unstarted)

/-! ## One step -/

theorem Good.threads_step (good : Good v) (life : Life v v') : ThreadsOk v' := by
  obtain ⟨poll, out, threads, queryOk⟩ := good
  cases life with
  | stay => exact threads
  | turnBack thread query
  | start thread query
  | retestBack thread query
  | retestOn thread query =>
      obtain ⟨only, old⟩ := threads.only thread
      have live := old.live _ query
      have ok := queryOk _ query
      refine .goto only (.of_live query old.made old.reaped ?_ ?_)
      all_goals clear threads queryOk thread
      all_goals grind -ring -linarith
  | lock thread query
  | finish thread query =>
      obtain ⟨only, old⟩ := threads.only thread
      have live := old.live _ query
      have ok := queryOk _ query
      refine .goto only (.of_live rfl old.made old.reaped ?_ ?_)
      all_goals clear threads queryOk thread
      all_goals grind -ring -linarith
  | enter attempt thread query =>
      obtain ⟨only, old⟩ := threads.only thread
      have live := old.live _ query
      obtain ⟨_, _, control⟩ := enterAttempt_control v.conns _ attempt
      refine .goto only (.of_live (congrArg some control) old.made old.reaped ?_ ?_)
      all_goals clear threads queryOk thread
      all_goals grind -ring -linarith
  | exec attempt thread query =>
      obtain ⟨only, old⟩ := threads.only thread
      have live := old.live _ query
      obtain ⟨_, _, _, control⟩ := finishAttempt_control v.stopThreads _ _ attempt
      refine .goto only (.of_live (congrArg some control) old.made old.reaped ?_ ?_)
      all_goals clear threads queryOk thread
      all_goals grind -ring -linarith
  | push thread
  | count thread =>
      obtain ⟨only, old⟩ := threads.only thread
      refine .goto only ?_
      clear threads thread
      constructor
      all_goals grind -ring -linarith
  | @create q tid creates selected query =>
      have ok := queryOk _ query
      obtain ⟨async, started, unfinished, unframed, unsuccessful, none⟩ := ok.selected selected
      have unreaped : v.reaped = 0 := by
        rcases threads with ⟨-, zero⟩ | ⟨_, _, only, -⟩
        · exact zero
        · simp [none] at only
      refine .inr ⟨tid, .test, by simp [none], .of_live rfl ok.made.1 (by grind -ring -linarith)
        (by grind) ?_⟩
      exact ⟨async, by grind -ring -linarith,
        .inl ⟨started, rfl, ⟨unfinished, unframed, unsuccessful⟩, by grind⟩⟩
  | reap visit  =>
      cases query : v.query with
      | none => have := (poll.gone query); grind -ring -linarith
      | some q =>
      have ok := queryOk _ query
      obtain ⟨async, started, finished⟩ := ok.reaps visit
      have starts : v.starts = 0 := by grind -ring -linarith
      obtain ⟨pc, only⟩ := ok.runs async started starts
      obtain ⟨-, old⟩ := threads.only (show v.At q.tid pc by simp [Slice.At, only])
      have live := old.live _ query
      refine .inr ⟨q.tid, pc, only, .of_live rfl old.made ?_ old.inside ?_⟩
      all_goals clear threads queryOk
      all_goals grind -ring -linarith
  | again visit query isAgain fuel =>
      have ok := queryOk _ query
      refine threads.kept rfl rfl fun tid pc only old => ?_
      have live := old.live _ query
      refine .of_live rfl old.made old.reaped old.inside ?_
      all_goals clear threads queryOk
      have : pc = .count ∨ pc = .returned := by
        grind -ring -linarith [PcOk.of_finished]
      grind -ring -linarith
  | erase visit query =>
      have ok := queryOk _ query
      have removable := ok.removed (.inr visit)
      refine threads.kept rfl rfl fun tid pc only old => ?_
      obtain ⟨async, unselected, runs⟩ := old.live _ query
      refine ⟨old.made, old.reaped, old.inside, fun _ => ?_, by rintro _ ⟨⟩⟩
      rcases runs with ⟨started, -, pcOk, -⟩ | ⟨-, -, -, rfl | rfl⟩
      · exact pcOk.early_of_removable async started removable
      · rfl
      · rfl
  | @free q frees visit removed query
  | @freeQuery q query =>
      refine threads.kept rfl rfl fun tid pc only old => ?_
      have live := old.live _ query
      obtain ⟨_, _, _, control⟩ := freeQuery_control v.stopThreads q
      simp only [live.1, Bool.not_true, Bool.or_false] at control
      refine .of_live (congrArg some control) old.made old.reaped old.inside ?_
      grind -ring -linarith
  | @execQuery q err stores query held =>
      have ok := queryOk _ query
      refine threads.kept rfl rfl fun tid pc only old => ?_
      have live := old.live _ query
      have started : q.started = true := by
        have framed : q.framed = true := by
          rcases held with sync | ⟨f, handled⟩
          · simp [(ok.sync sync).2.2] at only
          · exact ok.handled f handled live.1
        by_contra unstarted
        have := ok.waiting live.1 (by simpa using unstarted)
        simp [framed] at this
      rw [execQuery_of_started started]
      exact .of_live rfl old.made old.reaped old.inside live
  | @join tid joins pos returned =>
      refine .inl ?_
      rcases threads with ⟨none, zero⟩ | ⟨tid', pc, only, old⟩
      · omega
      · obtain ⟨rfl, rfl⟩ : tid = tid' ∧ .returned = pc := by simpa [only] using returned
        have := old.reaped
        simp only [only]
        exact ⟨by simp, by omega⟩
  | marked _ _ _ query
  | release _ query =>
      have ok := queryOk _ query
      refine threads.kept rfl rfl fun tid pc only old => ?_
      have live := old.live _ query
      refine .of_live query old.made old.reaped ?_ ?_
      all_goals clear threads queryOk
      all_goals grind -ring -linarith
  | select _ _ _ query
  | spent _ query
  | createFail _ _ query
  | finishFrame _ query
  | abort _ query =>
      have ok := queryOk _ query
      refine threads.kept rfl rfl fun tid pc only old => ?_
      have live := old.live _ query
      refine .of_live rfl old.made old.reaped ?_ ?_
      all_goals clear threads queryOk
      all_goals grind -ring -linarith
  | begin todo idle =>
      refine threads.kept rfl (by grind -ring -linarith) fun tid pc only old => ?_
      clear threads
      constructor
      all_goals grind -ring -linarith
  | joinEnd joins none =>
      refine threads.kept rfl rfl fun tid pc only old => ?_
      clear threads
      constructor
      all_goals grind -ring -linarith
  | prepare conn async pri connId time unmade =>
      obtain ⟨-, none, unreaped, -⟩ := poll.unmade unmade
      exact .inl ⟨none, unreaped⟩
  | _ =>
      refine threads.kept rfl rfl fun tid pc only old => ?_
      clear threads
      constructor
      all_goals grind -ring -linarith

/-- The flags of a query do not depend on where its thread is. -/
theorem QueryOk.goto {q : Query} {tid : Nat} {pc : RunPc} (ok : QueryOk v q)
    (only : v.threads = [⟨tid, pc⟩]) (live : LiveOk v q tid pc) (pc' : RunPc) :
    QueryOk { v with threads := [⟨tid, pc'⟩] } q := by
  obtain ⟨async, unselected, -⟩ := live
  refine { ok with runs := ?_, sync := ?_, selected := ?_ }
  · intro _ started starts
    obtain ⟨pc'', same⟩ := ok.runs async started starts
    obtain ⟨rfl, -⟩ : tid = q.tid ∧ pc = pc'' := by simpa [only] using same
    exact ⟨pc', rfl⟩
  · simp [async]
  · exact fun selected => absurd unselected (Nat.ne_of_gt selected)

theorem QueryOk.emit {q : Query} {e : Event} (ok : QueryOk v q)
    (unheard : ∀ f, e ≠ .handler v.id f) : QueryOk (v.emit e) q :=
  { ok with handled := fun f heard =>
      ok.handled f ((List.mem_cons.1 heard).resolve_left (unheard f).symm) }

theorem Good.query_step (good : Good v) (life : Life v v') :
    ∀ q, v'.query = some q → QueryOk v' q := by
  obtain ⟨poll, out, threads, queryOk⟩ := good
  cases life with
  | stay | scanEnd | skip | createEnd | freeEnd | addConnect | stop | stopThreads | abortEnd
  | unlock | clear => exact fun q query => { queryOk q query with }
  | @turnBack tid q thread query =>
      obtain ⟨only, old⟩ := threads.only thread
      intro q' same
      obtain rfl : q = q' := Option.some.inj (query.symm.trans same)
      rw [goto_of_only (by exact only)]
      exact (queryOk q query).goto only (old.live q query) _
  | @start tid q thread query
  | @retestBack tid q thread query
  | @retestOn tid q thread query =>
      obtain ⟨only, old⟩ := threads.only thread
      intro q' same
      obtain rfl : q = q' := Option.some.inj (query.symm.trans same)
      rw [goto_of_only (by exact only)]
      exact ((queryOk q query).emit (by simp)).goto only (old.live q query) _
  | @lock tid q thread query =>
      obtain ⟨only, old⟩ := threads.only thread
      have live := old.live _ query
      have ok := queryOk _ query
      have moved := ok.goto only live .push
      rintro _ ⟨⟩
      rw [goto_of_only (by exact only)]
      clear threads queryOk thread
      refine { moved with
        waiting := ?_, sync := ?_, selected := ?_, out := ?_, framed := ?_, reaps := ?_
        removed := ?_, handled := ?_ } <;> grind -ring -linarith
  | @finish tid q thread query =>
      obtain ⟨only, old⟩ := threads.only thread
      have live := old.live _ query
      have ok := queryOk _ query
      have moved := ok.goto only live .count
      rintro _ ⟨⟩
      rw [goto_of_only (by exact only)]
      clear threads queryOk thread
      refine { moved with
        waiting := ?_, selected := ?_, out := ?_, fuel := ?_, visited := ?_, reaps := ?_
        removed := ?_ } <;> grind -ring -linarith
  | @enter tid q attempt thread query =>
      obtain ⟨only, old⟩ := threads.only thread
      obtain ⟨_, _, control⟩ := enterAttempt_control v.conns q attempt
      rintro _ ⟨⟩
      rw [goto_of_only (by exact only), control]
      have called := (queryOk q query).emit (e := .call v.id (enterAttempt v.conns q attempt).2)
        (by simp)
      exact { called.goto only (old.live q query) _ with }
  | @exec tid q way attempt thread query =>
      obtain ⟨only, old⟩ := threads.only thread
      have live := old.live _ query
      have ok := queryOk _ query
      obtain ⟨_, _, _, control⟩ := finishAttempt_control v.stopThreads q way attempt
      rintro _ ⟨⟩
      rw [goto_of_only (by exact only), control]
      have moved := ok.goto only live .retest
      clear threads queryOk thread
      refine { moved with waiting := ?_, selected := ?_, framed := ?_, handled := ?_ } <;>
        grind -ring -linarith
  | @push tid thread =>
      obtain ⟨only, old⟩ := threads.only thread
      intro q query
      have live := old.live _ query
      have ok := queryOk _ query
      rw [goto_of_only (by exact only)]
      have moved := ok.goto only live .returned
      clear threads queryOk thread
      refine { moved with out := ?_ }
      grind -ring -linarith
  | @count tid thread =>
      obtain ⟨only, old⟩ := threads.only thread
      intro q query
      rw [goto_of_only (by exact only)]
      exact (queryOk q query).goto only (old.live q query) _
  | @create q tid creates selected query =>
      have ok := queryOk _ query
      rintro _ ⟨⟩
      clear queryOk
      refine { ok with runs := ?_, waiting := ?_, sync := ?_, selected := ?_ }
      · exact fun _ _ _ => ⟨.test, by simp [ok.selected selected]⟩
      all_goals grind -ring -linarith
  | @select q _ _ _ query =>
      have ok := queryOk _ query
      rintro _ ⟨⟩
      clear queryOk
      refine { ok with
        runs := ?_, waiting := ?_, sync := ?_, selected := ?_, reaps := ?_, reaped := ?_
        removed := ?_ } <;> grind -ring -linarith
  | @again q visit query =>
      have ok := queryOk _ query
      rintro _ ⟨⟩
      clear queryOk
      constructor <;> grind -ring -linarith
  | @spent q _ query =>
      have ok := queryOk _ query
      rintro _ ⟨⟩
      clear queryOk
      refine { ok with
        fuel := ?_, visited := by simp, reaps := by simp, reaped := ?_, removed := ?_ }
      all_goals grind -ring -linarith
  | @createFail q _ _ query =>
      have ok := queryOk _ query
      rintro _ ⟨⟩
      clear queryOk
      refine { ok with
        runs := ?_, waiting := ?_, sync := ?_, selected := ?_, reaps := ?_, reaped := ?_
        removed := ?_ } <;> grind -ring -linarith
  | @finishFrame q _ query =>
      have ok := queryOk _ query
      rintro _ ⟨⟩
      clear queryOk
      refine { ok with
        waiting := ?_, selected := ?_, out := ?_, fuel := ?_, visited := ?_, reaps := ?_
        removed := ?_ } <;> grind -ring -linarith
  | @abort p q _ query =>
      have ok := queryOk _ query
      rintro _ ⟨⟩
      clear queryOk
      refine { ok with visited := ?_, reaps := ?_, reaped := ?_, removed := ?_, handled := ?_ } <;>
        grind -ring -linarith
  | erase visit query =>
      rintro _ ⟨⟩
  | @free q frees visit removed query
  | @freeQuery q query =>
      have ok := queryOk _ query
      obtain ⟨_, _, _, control⟩ := freeQuery_control v.stopThreads q
      rintro _ ⟨⟩
      rw [control]
      clear queryOk
      refine { ok with
        waiting := ?_, selected := ?_, out := ?_, fuel := ?_, visited := ?_, reaps := ?_
        reaped := ?_, removed := ?_ } <;> grind -ring -linarith
  | @execQuery q err stores query held =>
      have ok := queryOk _ query
      cases async : q.async with
      | false =>
          obtain ⟨_, _, _, _, control⟩ := execQuery_control v.stopThreads q err stores
          rintro _ ⟨⟩
          rw [control]
          clear queryOk
          constructor <;> grind -ring -linarith
      | true =>
          rw [execQuery_of_started (ok.started_of_held async held)]
          rintro _ ⟨⟩
          exact { ok with }
  | marked _ _ _ query
  | release _ query
  | reapYes _ query
  | reapNo _ query =>
      intro q same
      have ok := queryOk _ same
      clear queryOk
      refine { ok with visited := ?_, reaps := ?_, reaped := ?_, removed := ?_ } <;>
        grind -ring -linarith
  | reap =>
      intro q same
      have ok := queryOk _ same
      clear queryOk
      refine { ok with visited := ?_, reaps := by simp, reaped := ?_, removed := ?_ }
      all_goals grind -ring -linarith
  | prepare conn async pri connId time unmade =>
      obtain ⟨gone, none, unreaped, unframed, idle, unheard⟩ := poll.unmade unmade
      obtain ⟨_, unselected, unfinished, unvisited⟩ := poll.gone gone
      rintro _ ⟨⟩
      clear queryOk
      constructor <;> grind -ring -linarith [newQuery, queryRetryCount]
  | begin | joinEnd =>
      intro q same
      have ok := queryOk _ same
      clear queryOk threads
      refine { ok with
        runs := ?_, waiting := ?_, sync := ?_, selected := ?_, reaped := ?_, removed := ?_ } <;>
        grind -ring -linarith
  | join =>
      intro q same
      have ok := queryOk _ same
      clear queryOk
      refine { ok with runs := ?_, sync := ?_, selected := ?_, reaped := ?_ } <;>
        grind -ring -linarith
  | startFrame | stopFrames =>
      intro q same
      have ok := queryOk _ same
      clear queryOk threads
      refine { ok with out := ?_ }
      grind -ring -linarith
  | backFrame hand | callback hand =>
      exact fun q query =>
        { queryOk q query with out := fun _ => (queryOk q query).out (.inr (by simp [hand])) }
  | deliver hand | heapLow _ _ hand =>
      intro q same
      have ok := queryOk _ same
      have out := ok.out (.inr (by simp [hand]))
      clear queryOk threads
      refine { ok with out := fun _ => out, handled := ?_ }
      grind -ring -linarith

theorem PollOk.made (poll : PollOk v) {q : Query} (query : v.query = some q) : v.made := by
  by_contra unmade
  simp [(poll.unmade unmade).1] at query

/-- A step in the life of a query that exists. -/
theorem PollOk.of_same (poll : PollOk v) (made : v'.made)
    (query : v'.query = none → v.query = none) (phase : v'.phase = v.phase)
    (visit : v'.visit = v.visit) (todo : v'.todo = v.todo) (starts : v'.starts = v.starts)
    (finished : v'.finished = v.finished) (reaped : v'.reaped = v.reaped) : PollOk v' := by
  refine ⟨?_, ?_, ?_, ?_, ?_, ?_, ?_, ?_, fun unmade => absurd made unmade⟩
  · rw [todo, starts, finished, visit]
    exact poll.once
  · rw [visit, phase]
    exact poll.walk
  · rw [visit, phase]
    exact poll.erase
  · rw [phase, todo]
    exact poll.todo
  · rw [phase, starts]
    exact poll.starts
  · rw [phase, finished]
    exact poll.finished
  · rw [phase, reaped]
    exact poll.reaped
  · rw [todo, starts, finished, visit]
    exact fun none => poll.gone (query none)

theorem Good.poll_step (good : Good v) (life : Life v v') : PollOk v' := by
  obtain ⟨poll, out, threads, -⟩ := good
  cases life with
  | stay | addConnect | stop | stopThreads | abortEnd | unlock | clear => exact { poll with }
  | turnBack _ query | start _ query | retestBack _ query | retestOn _ query
  | backFrame _ query | deliver _ query | heapLow _ _ _ query =>
      exact poll.of_same (poll.made query) id rfl rfl rfl rfl rfl rfl
  | enter _ _ query | exec _ _ query | lock _ query | finish _ query | finishFrame _ query
  | abort _ query | freeQuery query | execQuery _ _ query =>
      exact poll.of_same (poll.made query) (by rintro ⟨⟩) rfl rfl rfl rfl rfl rfl
  | push thread | count thread =>
      exact poll.of_same (threads.only thread).2.made id rfl rfl rfl rfl rfl rfl
  | begin todo idle =>
      have visit : v.visit = .none := by
        cases visit : v.visit <;> grind -ring -linarith
      constructor <;> grind -ring -linarith
  | _ => constructor <;> grind -ring -linarith

theorem Good.out_step (good : Good v) (life : Life v v') :
    v'.frames ≤ 1 ∧ (v'.hand ≠ .none → v'.frames = 0) := by
  obtain ⟨-, out, threads, -⟩ := good
  cases life with
  | push thread =>
      obtain ⟨unframed, idle⟩ := (threads.only thread).2.inside (by simp)
      simp [Slice.goto, unframed, idle]
  | _ => grind -ring -linarith [Slice.goto]

/-- **One step keeps the flags and the holders of a query in order.** -/
theorem Good.step (good : Good v) (life : Life v v') : Good v' :=
  ⟨good.poll_step life, good.out_step life, good.threads_step life, good.query_step life⟩

/-! ## Every run -/

/-- What holds of the slice of a fresh state and is kept by every step in the life
of a query holds of every query of every reachable state. -/
theorem slice_invariant {I : Slice → Prop}
    (base : ∀ maxThreads id, I (slice (.start maxThreads) id))
    (keep : ∀ v v', Good v → I v → Life v v' → I v') (run : machine.Reachable s) (id : Nat) :
    Good (slice s id) ∧ I (slice s id) := by
  refine Machine.Reaches.invariant (I := fun s => Good (slice s id) ∧ I (slice s id)) ?_ ?_ run
  · rintro _ ⟨maxThreads, rfl⟩
    exact ⟨good_start maxThreads id, base maxThreads id⟩
  · intro s a s' _ holds _ moved
    have life := slice_step moved id
    exact ⟨holds.1.step life, keep _ _ holds.1 holds.2 life⟩

/-- **In every reachable state every query is in order.** -/
theorem good_of_reachable (run : machine.Reachable s) (id : Nat) : Good (slice s id) :=
  (slice_invariant (I := fun _ => True) (fun _ _ => trivial) (fun _ _ _ _ _ => trivial) run id).1

end Refsapi.Mysql
