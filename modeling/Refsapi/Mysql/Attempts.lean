/-
# Mysql.Attempts -- how often a query is executed

An asynchronous query is started by a pass of the polling thread and retried by
a later one, up to `QUERY_RETRY_COUNT` times.  `Tried` follows the history of one
query along its life: how many attempts have begun against `retry_count`, that a
success is still in `successful` as long as the query exists, and that `stop`
left `aborted`.

The main result is `bounded_retries`.
-/
import Refsapi.Mysql.Invariant

namespace Refsapi.Mysql

set_option autoImplicit false

variable {s : State} {v v' : Slice}

/-! ## Events of an attempt -/

/-- `run_query` begins an attempt. -/
def Event.isStart : Event → Bool
  | .start _ => true
  | _ => false

/-- `exec_async_query` is entered. -/
def Event.isCall : Event → Bool
  | .call .. => true
  | _ => false

/-- How often `run_query` has handed the query to `exec_async_query`. -/
def starts (s : State) (id : Nat) : Nat := s.log.countP fun e => e.isStart && e.about == id

/-- How often `exec_async_query` has been entered with the query. -/
def calls (s : State) (id : Nat) : Nat := s.log.countP fun e => e.isCall && e.about == id

/-- What may follow an event of the same query: after a success nothing is executed,
and after `stop` has aborted the query no attempt begins; one that had begun finds
the connection refused. -/
def Follows (id : Nat) (later earlier : Event) : Prop :=
  (earlier = .outcome id true → later ≠ .start id ∧ ∀ way, later ≠ .call id way) ∧
  (earlier = .aborted id → later ≠ .start id ∧ ∀ way, later = .call id way → way = .refused)

/-! ## The invariant -/

/-- The thread of the present attempt has passed the first test of `run_query`. -/
def Begun (v : Slice) (q : Query) : Prop :=
  q.started = true ∧ v.starts = 0 ∧ v.threads ≠ [⟨q.tid, .test⟩]

structure Tried (v : Slice) : Prop where
  own : ∀ e ∈ v.history, e.about = v.id
  starts : v.history.countP Event.isStart ≤ queryRetryCount
  calls : v.history.countP Event.isCall ≤ v.history.countP Event.isStart
  entering : ∀ tid, v.threads = [⟨tid, .enter⟩] →
    v.history.countP Event.isCall < v.history.countP Event.isStart
  counted : ∀ q, v.query = some q → q.async = true →
    v.history.countP Event.isStart ≤ q.retryCount + 1 ∧
    (¬ Begun v q → v.history.countP Event.isStart ≤ q.retryCount)
  succeeded : ∀ q, v.query = some q → q.async = true → .outcome v.id true ∈ v.history →
    q.successful = true
  aborted : ∀ q, v.query = some q → .aborted v.id ∈ v.history → q.aborted = true

theorem tried_start (maxThreads id : Nat) : Tried (slice (.start maxThreads) id) := by
  constructor <;> simp [slice, State.start]

attribute [grind cases] Tried
attribute [grind =] Begun Event.isStart Event.isCall Event.about

theorem Tried.step (good : Good v) (tried : Tried v) (life : Life v v') : Tried v' := by
  obtain ⟨poll, -, threads, queryOk⟩ := good
  cases life with
  | stay | scanEnd | marked | skip | reapYes | reapNo | reap | release | createEnd | freeEnd
  | addConnect | startFrame | backFrame | callback | stop | stopFrames | stopThreads | abortEnd
  | unlock | clear => exact { tried with }
  | @start tid q thread query unstopped unaborted =>
      obtain ⟨only, old⟩ := threads.only thread
      have live := old.live _ query
      have ok := queryOk _ query
      rw [goto_of_only (by exact only)]
      clear threads queryOk thread
      constructor <;> grind -ring -linarith
  | @retestBack tid q thread query
  | @retestOn tid q thread query =>
      obtain ⟨only, old⟩ := threads.only thread
      rw [goto_of_only (by exact only)]
      clear threads queryOk thread
      constructor <;> grind -ring -linarith
  | @turnBack tid q thread query
  | @lock tid q thread query
  | @finish tid q thread query =>
      obtain ⟨only, -⟩ := threads.only thread
      rw [goto_of_only (by exact only)]
      clear threads queryOk thread
      refine { tried with entering := ?_, counted := ?_, succeeded := ?_, aborted := ?_ } <;>
        grind -ring -linarith
  | @enter tid q attempt thread query =>
      obtain ⟨only, old⟩ := threads.only thread
      obtain ⟨_, _, control⟩ := enterAttempt_control v.conns q attempt
      rw [goto_of_only (by exact only), control]
      clear threads queryOk thread
      constructor <;> grind -ring -linarith
  | @exec tid q way attempt thread query =>
      obtain ⟨only, old⟩ := threads.only thread
      have live := old.live _ query
      have ok := queryOk _ query
      obtain ⟨_, _, _, control⟩ := finishAttempt_control v.stopThreads q way attempt
      rw [goto_of_only (by exact only), control]
      clear threads queryOk thread
      constructor <;> grind -ring -linarith
  | @push tid thread
  | @count tid thread =>
      obtain ⟨only, -⟩ := threads.only thread
      rw [goto_of_only (by exact only)]
      clear threads queryOk thread
      refine { tried with entering := ?_, counted := ?_ } <;> grind -ring -linarith
  | @create q tid creates selected query =>
      have ok := queryOk _ query
      clear queryOk
      refine { tried with entering := ?_, counted := ?_, succeeded := ?_, aborted := ?_ } <;>
        grind -ring -linarith
  | @again q visit query isAgain
  | @spent q visit query isAgain =>
      clear queryOk
      refine { tried with counted := ?_, succeeded := ?_, aborted := ?_ } <;> grind -ring -linarith
  | @select q _ _ _ query
  | @createFail q _ _ query
  | @finishFrame q _ query =>
      clear queryOk
      refine { tried with counted := ?_, succeeded := ?_, aborted := ?_ } <;> grind -ring -linarith
  | @free q frees visit removed query
  | @freeQuery q query =>
      obtain ⟨_, _, _, control⟩ := freeQuery_control v.stopThreads q
      rw [control]
      clear queryOk
      refine { tried with counted := ?_, succeeded := ?_, aborted := ?_ } <;> grind -ring -linarith
  | @execQuery q err stores query held =>
      cases async : q.async with
      | false =>
          obtain ⟨_, _, _, _, control⟩ := execQuery_control v.stopThreads q err stores
          rw [control]
          clear queryOk
          refine { tried with counted := ?_, succeeded := ?_, aborted := ?_ } <;>
            grind -ring -linarith
      | true =>
          rw [execQuery_of_started ((queryOk _ query).started_of_held async held)]
          rw [← query]
          exact { tried with }
  | prepare conn async pri connId time unmade =>
      obtain ⟨gone, none, unreaped, unframed, idle, unheard⟩ := poll.unmade unmade
      clear queryOk
      constructor <;> grind -ring -linarith [newQuery]
  | begin todo idle
  | joinEnd joins =>
      clear queryOk
      refine { tried with counted := ?_ }
      grind -ring -linarith
  | erase | deliver | heapLow | abort | join =>
      clear queryOk
      constructor <;> grind -ring -linarith

/-! ## The order of events -/

theorem Follows.of_quiet {id : Nat} {later earlier : Event} (start : later ≠ .start id)
    (call : ∀ way, later ≠ .call id way) : Follows id later earlier :=
  ⟨fun _ => ⟨start, call⟩, fun _ => ⟨start, fun way same => absurd same (call way)⟩⟩

theorem enterAttempt_aborted {q : Query} (aborted : q.aborted = true) (connPrms : List FwdPrms)
    (attempt : Attempt) : (enterAttempt connPrms q attempt).2 = .refused := by
  simp [enterAttempt, aborted]

/-- A step keeps the order of the history. -/
theorem order_step (good : Good v) (tried : Tried v) (order : v.history.Pairwise (Follows v.id))
    (life : Life v v') : v'.history.Pairwise (Follows v'.id) := by
  cases life with
  | @start tid q thread query unstopped unaborted =>
      obtain ⟨only, old⟩ := good.thread.only thread
      obtain ⟨async, -, runs⟩ := old.live q query
      have untried : q.successful = false := by
        grind -ring -linarith
      refine order.cons fun earlier member => ⟨?_, ?_⟩
      · rintro rfl
        simp [tried.succeeded q query async member] at untried
      · rintro rfl
        simp [tried.aborted q query member] at unaborted
  | @enter tid q attempt thread query =>
      obtain ⟨only, old⟩ := good.thread.only thread
      obtain ⟨async, -, runs⟩ := old.live q query
      have untried : q.successful = false := by
        grind -ring -linarith
      refine order.cons fun earlier member => ⟨?_, ?_⟩
      · rintro rfl
        simp [tried.succeeded q query async member] at untried
      · rintro rfl
        have refused := enterAttempt_aborted (tried.aborted q query member) v.conns attempt
        simp [refused]
  | retestBack | retestOn | exec | erase | prepare | heapLow | abort =>
      exact order.cons fun _ _ => .of_quiet (by simp) (by simp)
  | deliver =>
      exact (order.cons fun _ _ => .of_quiet (by simp) (by simp)).cons
        fun _ _ => .of_quiet (by simp) (by simp)
  | _ => exact order

/-! ## Every run -/

theorem tried_of_reachable (run : machine.Reachable s) (id : Nat) :
    Tried (slice s id) ∧ (slice s id).history.Pairwise (Follows id) := by
  refine (slice_invariant (I := fun v => Tried v ∧ v.history.Pairwise (Follows v.id)) ?_ ?_ run
    id).2
  · exact fun maxThreads id => ⟨tried_start maxThreads id, .nil⟩
  · intro v v' good holds life
    exact ⟨holds.1.step good life, order_step good holds.1 holds.2 life⟩

theorem countP_history (s : State) (id : Nat) (p : Event → Bool) :
    (slice s id).history.countP p = s.log.countP fun e => p e && e.about == id := by
  simp [slice, List.countP_filter]

/-- The order of one query's history is its order in the log. -/
theorem order_of_history {id : Nat} (order : (slice s id).history.Pairwise (Follows id)) :
    s.log.Pairwise (Follows id) := by
  refine (List.pairwise_filter.1 order).imp fun {later earlier} follows => ?_
  by_cases about : later.about = id ∧ earlier.about = id
  · exact follows (by simpa using about.1) (by simpa using about.2)
  · constructor
    · rintro rfl
      constructor
      · rintro rfl
        simp [Event.about] at about
      · rintro way rfl
        simp [Event.about] at about
    · rintro rfl
      constructor
      · rintro rfl
        simp [Event.about] at about
      · rintro way rfl
        simp [Event.about] at about

/-- **Bounded retries.**  In every run a query is executed at most
`QUERY_RETRY_COUNT` times and by at most one thread at a time, and never again
after a success or after `stop` has aborted it. -/
theorem bounded_retries (run : machine.Reachable s) (id : Nat) :
    starts s id ≤ queryRetryCount ∧ calls s id ≤ queryRetryCount ∧
      s.log.Pairwise (Follows id) ∧ (s.threads id).length ≤ 1 := by
  obtain ⟨tried, order⟩ := tried_of_reachable run id
  have started : starts s id ≤ queryRetryCount := by
    simpa [starts, countP_history] using tried.starts
  have entered : calls s id ≤ starts s id := by
    simpa [calls, starts, countP_history] using tried.calls
  refine ⟨started, Nat.le_trans entered started, order_of_history order, ?_⟩
  rcases (good_of_reachable run id).thread with ⟨none, -⟩ | ⟨tid, pc, only, -⟩
  · simp [show s.threads id = [] from none]
  · simp [show s.threads id = [⟨tid, pc⟩] from only]

/-- `poll_query` takes some steps; every thread it makes can be made. -/
def pollSteps (n : Nat) : List Action := List.replicate n (.poll true)

/-- A thread runs `run_query` to its end; the query fails in the database. -/
def failedAttempt (id tid : Nat) : List Action :=
  List.replicate 6 (.query id tid ⟨true, true, true, false⟩)

/-- A query whose every attempt fails, up to its release. -/
def threeFailures : List Action :=
  [.game (.addConnect ⟨1, 1⟩), .game (.pushQuery 1 0 0)] ++
    pollSteps 7 ++ failedAttempt 1 0 ++ pollSteps 17 ++ failedAttempt 1 1 ++
    pollSteps 17 ++ failedAttempt 1 2 ++ pollSteps 12

theorem bounded_retries_threeFailures : ∃ s, calls s 1 = queryRetryCount ∧
    starts s 1 ≤ queryRetryCount ∧ calls s 1 ≤ queryRetryCount ∧
      s.log.Pairwise (Follows 1) ∧ (s.threads 1).length ≤ 1 := by
  have ends : (machine.exec (.start 4) threeFailures).map
      (fun s => calls s 1 == queryRetryCount) = some true := by decide
  obtain ⟨s, run, three⟩ := Machine.exists_reachable (M := machine) ⟨4, rfl⟩ ends
  exact ⟨s, by simpa using three, bounded_retries run 1⟩

end Refsapi.Mysql
