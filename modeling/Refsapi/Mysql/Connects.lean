/-
# Mysql.Connects -- on what connection a statement is sent

`async_connect` keeps the handle of a connection that it could not make, and the
next attempt takes a handle that is not null for a connection.  `Wired` follows the
handle of one query from attempt to attempt: as long as `poll_query` sends no query
back whose last connection failed, a thread enters `exec_async_query` with no handle
or with one that is connected.

The main result is `sent_on_connection`.
-/
import Refsapi.Mysql.Answer

namespace Refsapi.Mysql

set_option autoImplicit false

variable {s s' : State} {v v' : Slice}

/-! ## The statement and the connection -/

/-- `exec_async_query` comes to `mysql_real_query_start`. -/
def sends (way : Way) (attempt : Attempt) : Bool :=
  match way with
  | .refused => false
  | .fresh => attempt.connects
  | .reuse => true

/-- The handle of the query is one on which `mysql_real_connect` succeeded. -/
def Query.connected (q : Query) : Prop := q.conn = some ⟨true⟩

/-- `mysql_real_connect` failed on the handle of the query. -/
def Query.unconnected (q : Query) : Prop := q.conn = some ⟨false⟩

theorem connected_of_handle {q : Query} (handle : q.conn ≠ none) (free : ¬ q.unconnected) :
    q.connected := by
  unfold Query.connected
  cases conn : q.conn with
  | none => exact absurd conn handle
  | some handle =>
      obtain ⟨connected⟩ := handle
      cases connected with
      | false => exact absurd conn free
      | true => rfl

/-- An attempt that has come to `way` sends the statement on a connection, or its
failstate says that there is none. -/
structure Sound (q : Query) (way : Way) (attempt : Attempt) : Prop where
  sent : sends way attempt = true → (execAttempt q way attempt).connected
  failed : ¬ (execAttempt q way attempt).connected →
    (execAttempt q way attempt).failstate = tqueryConnectFailed

theorem sound_of_way {q : Query} {way : Way} (attempt : Attempt)
    (reuse : way = .reuse → q.connected) : Sound q way attempt := by
  cases way with
  | refused => exact ⟨by simp [sends], fun _ => rfl⟩
  | fresh =>
      cases connects : attempt.connects with
      | false => exact ⟨by simp [sends, connects], fun _ => by simp [execAttempt, connects]⟩
      | true =>
          have made : (execAttempt q .fresh attempt).connected := by
            simp [execAttempt, connects, Query.connected]
          exact ⟨fun _ => made, fun unmade => absurd made unmade⟩
  | reuse =>
      have made : (execAttempt q .reuse attempt).connected := reuse rfl
      exact ⟨fun _ => made, fun unmade => absurd made unmade⟩

/-- On a handle without a connection the statement is sent all the same. -/
theorem not_sound_of_unconnected {q : Query} (unconnected : q.unconnected) (attempt : Attempt) :
    ¬ Sound q .reuse attempt := by
  intro sound
  have made : q.connected := sound.sent rfl
  cases unconnected.symm.trans made

/-! ## The handle from attempt to attempt -/

/-- `enterAttempt` reuses the handle that the query has. -/
theorem enterAttempt_reuse {connPrms : List FwdPrms} {q : Query} {attempt : Attempt}
    (reuse : (enterAttempt connPrms q attempt).2 = .reuse) :
    q.conn ≠ none ∧ (enterAttempt connPrms q attempt).1.conn = q.conn := by
  unfold enterAttempt at reuse ⊢
  simp only at reuse ⊢
  split at reuse
  · cases reuse
  next admitted =>
  split at reuse
  · next some =>
      rw [if_neg admitted, if_pos some]
      exact ⟨Option.isSome_iff_ne_none.1 some, rfl⟩
  · split at reuse
    · cases reuse
    · split at reuse <;> cases reuse

/-- A query that waits for a thread, or whose thread has not yet entered
`exec_async_query`, has no handle or a connection. -/
structure Wired (v : Slice) : Prop where
  waiting : ∀ q, v.query = some q → q.async = true → q.started = false ∨ 0 < v.starts →
    ¬ q.unconnected
  before : ∀ tid pc q, v.threads = [⟨tid, pc⟩] → pc = .test ∨ pc = .enter → v.query = some q →
    ¬ q.unconnected
  reuse : ∀ tid q, v.threads = [⟨tid, .exec .reuse⟩] → v.query = some q → q.connected

/-- The step sends no query back whose last connection failed. -/
def SendsBack (v v' : Slice) : Prop :=
  v.visit = .retry → v'.visit = .none → ∀ q, v.query = some q → q.again = true →
    q.retryCount + 1 < queryRetryCount → ¬ q.unconnected

attribute [grind cases] Wired
attribute [grind =] Query.connected Query.unconnected

theorem Wired.step (good : Good v) (wired : Wired v) (allowed : SendsBack v v')
    (life : Life v v') : Wired v' := by
  obtain ⟨poll, -, threads, queryOk⟩ := good
  cases life with
  | stay | scanEnd | marked | skip | reapYes | reapNo | reap | release | freeEnd | addConnect
  | startFrame | backFrame | deliver | heapLow | callback | stop | stopFrames | stopThreads
  | abortEnd | unlock | clear | createEnd => exact { wired with }
  | @turnBack tid q thread query
  | @start tid q thread query
  | @retestBack tid q thread query
  | @retestOn tid q thread query
  | @lock tid q thread query
  | @finish tid q thread query =>
      obtain ⟨only, old⟩ := threads.only thread
      rw [goto_of_only (by exact only)]
      clear threads thread
      constructor <;> grind -ring -linarith
  | @push tid thread
  | @count tid thread =>
      obtain ⟨only, old⟩ := threads.only thread
      rw [goto_of_only (by exact only)]
      clear threads thread
      constructor <;> grind -ring -linarith
  | @enter tid q attempt thread query =>
      obtain ⟨only, old⟩ := threads.only thread
      have live := old.live _ query
      have free := wired.before tid .enter q only (.inr rfl) query
      have kept := @enterAttempt_reuse v.conns q attempt
      obtain ⟨_, _, control⟩ := enterAttempt_control v.conns q attempt
      rw [goto_of_only (by exact only)]
      constructor
      · rintro _ ⟨⟩ async waits
        rw [control] at waits
        grind -ring -linarith
      · rintro tid' pc' _ same isBefore ⟨⟩
        grind -ring -linarith
      · rintro tid' _ at_ ⟨⟩
        have same : (⟨tid, .exec (enterAttempt v.conns q attempt).2⟩ : Thread) =
          ⟨tid', .exec .reuse⟩ := by simpa using at_
        obtain ⟨handle, same⟩ := kept (by simpa using congrArg Thread.pc same)
        rw [Query.connected, same]
        exact connected_of_handle handle free
  | @exec tid q way attempt thread query =>
      obtain ⟨only, old⟩ := threads.only thread
      have live := old.live _ query
      obtain ⟨_, _, _, control⟩ := finishAttempt_control v.stopThreads q way attempt
      rw [goto_of_only (by exact only), control]
      clear threads thread
      constructor <;> grind -ring -linarith
  | @free q frees visit removed query
  | @freeQuery q query =>
      have ok := queryOk _ query
      have conn := freeQuery_conn v.stopThreads q
      obtain ⟨_, _, _, control⟩ := freeQuery_control v.stopThreads q
      rw [control] at conn ⊢
      clear queryOk
      constructor <;> grind -ring -linarith
  | @execQuery q err stores query held =>
      have ok := queryOk _ query
      cases async : q.async with
      | true =>
          rw [execQuery_of_started (ok.started_of_held async held), ← query]
          exact { wired with }
      | false =>
          obtain ⟨_, _, _, _, control⟩ := execQuery_control v.stopThreads q err stores
          have none := (ok.sync async).2.2
          rw [control]
          clear queryOk
          constructor <;> grind -ring -linarith
  | prepare conn async pri connId time unmade =>
      obtain ⟨gone, none, unreaped, unframed, idle, unheard⟩ := poll.unmade unmade
      clear queryOk
      constructor <;> grind -ring -linarith [newQuery]
  | @create q tid creates selected query =>
      have ok := queryOk _ query
      clear queryOk
      constructor <;> grind -ring -linarith
  | @again q visit query isAgain
  | @spent q visit query isAgain
  | @select q _ _ _ query
  | @createFail q _ _ query
  | @finishFrame q _ query
  | @abort p q _ query =>
      have ok := queryOk _ query
      clear queryOk
      constructor <;> grind -ring -linarith [SendsBack]
  | erase | begin | joinEnd | join =>
      clear queryOk
      constructor <;> grind -ring -linarith

/-! ## Every run -/

/-- `poll_query` sends no query back for another attempt after `mysql_real_connect` has
failed on its handle. -/
def RetriesConnected (s : State) (a : Action) : Prop :=
  ∀ created id q, a = .poll created → s.poll.pc = .retry id → s.mQueries id = some q →
    q.again = true → q.retryCount + 1 < queryRetryCount → ¬ q.unconnected

theorem visit_eq_retry {pc : PollPc} {id : Nat} : pc.visit id = .retry ↔ pc = .retry id := by
  cases pc <;> simp only [PollPc.visit, reduceCtorEq] <;> split <;> simp_all

theorem wired_of_reaches (run : machine.Reaches RetriesConnected s) (id : Nat) :
    Wired (slice s id) := by
  refine Machine.Reaches.invariant (I := fun s => Wired (slice s id)) ?_ ?_ run
  · rintro _ ⟨maxThreads, rfl⟩
    constructor <;> simp [slice, State.start]
  · intro s a s' before wired allowed moved
    refine wired.step (good_of_reachable before.reachable id) ?_ (slice_step moved id)
    intro retry done q query again last
    obtain ⟨created, rfl⟩ | same := poll_step moved
    · exact allowed created id q rfl (visit_eq_retry.1 retry) query again last
    · have kept : (slice s' id).visit = (slice s id).visit := by simp only [slice, same]
      rw [kept, retry] at done
      cases done

theorem threads_of_at {id tid : Nat} {pc : RunPc} (run : machine.Reachable s)
    (thread : At s id tid pc) : s.threads id = [⟨tid, pc⟩] :=
  ((good_of_reachable run id).thread.only thread).1

/-- **Statements are sent on connections.**  In every run that sends no query back after a
failed connection, a thread that enters `exec_async_query` without a connection makes one,
the statement is sent only on a handle that `mysql_real_connect` has connected, and an
attempt that makes no connection ends with the failstate that says so. -/
theorem sent_on_connection (run : machine.Reaches RetriesConnected s) {id tid : Nat} {q : Query}
    (query : s.mQueries id = some q) (attempt : Attempt) :
    (At s id tid .enter → ¬ q.connected → (enterAttempt s.connPrms q attempt).2 ≠ .reuse) ∧
      ∀ way, At s id tid (.exec way) → Sound q way attempt := by
  have wired := wired_of_reaches run id
  constructor
  · intro thread unmade reuse
    have handle := (enterAttempt_reuse reuse).1
    have free := wired.before tid .enter q (threads_of_at run.reachable thread) (.inr rfl) query
    exact unmade (connected_of_handle handle free)
  · intro way thread
    refine sound_of_way attempt ?_
    rintro rfl
    exact wired.reuse tid q (threads_of_at run.reachable thread) query

/-- A query that is executed is safe from its first attempt on exactly when its handle is not
one whose connection failed. -/
theorem sound_iff {q : Query} (connPrms : List FwdPrms) (async : q.async = true)
    (unfinished : q.finished = false) (unaborted : q.aborted = false) :
    (∀ attempt answer, Sound (enterAttempt connPrms q attempt).1
      (enterAttempt connPrms q attempt).2 answer) ↔ ¬ q.unconnected := by
  constructor
  · intro sound unconnected
    have attempt : Attempt := ⟨true, true, false, false⟩
    have way : enterAttempt connPrms q attempt =
        ({ q with failstate := tquerySuccess }, .reuse) := by
      have handle : q.conn = some ⟨false⟩ := unconnected
      simp [enterAttempt, async, unfinished, unaborted, handle]
    have sent := sound attempt attempt
    rw [way] at sent
    exact not_sound_of_unconnected (q := { q with failstate := tquerySuccess }) unconnected _ sent
  · intro free attempt answer
    refine sound_of_way answer fun reuse => ?_
    obtain ⟨handle, same⟩ := enterAttempt_reuse reuse
    rw [Query.connected, same]
    exact connected_of_handle handle free

/-- `RetriesConnected`, of the steps that the query table decides. -/
def retriesConnected (s : State) : Action → Bool
  | .poll _ =>
      match s.poll.pc with
      | .retry id =>
          match s.mQueries id with
          | none => true
          | some q => q.conn != some ⟨false⟩
      | _ => true
  | _ => true

theorem retriesConnected_sound (s : State) (a : Action) (ok : retriesConnected s a = true) :
    RetriesConnected s a := by
  rintro created id q rfl pc query - -
  simpa [retriesConnected, pc, query, Query.unconnected] using ok

/-- A query whose statement fails once; its second attempt is about to use the connection. -/
def secondStatement : List Action :=
  [.game (.addConnect ⟨1, 1⟩), .game (.pushQuery 1 0 0)] ++ pollSteps 7 ++
    failedAttempt 1 0 ++ pollSteps 17 ++ List.replicate 2 (.query 1 1 ⟨true, true, false, true⟩)

theorem sent_on_connection_second : ∃ s q, At s 1 1 (.exec .reuse) ∧ q.connected ∧
    ∀ attempt, (At s 1 1 .enter → ¬ q.connected →
      (enterAttempt s.connPrms q attempt).2 ≠ .reuse) ∧
        ∀ way, At s 1 1 (.exec way) → Sound q way attempt := by
  have ends : (machine.execIf retriesConnected (.start 4) secondStatement).map
      (fun s : State => decide ((s.threads 1).find? (fun t => t.tid == 1) =
        some ⟨1, .exec .reuse⟩ ∧ (s.mQueries 1).map Query.conn = some (some ⟨true⟩))) =
          some true := by decide
  obtain ⟨s, run, facts⟩ :=
    Machine.exists_reaches (M := machine) retriesConnected_sound ⟨4, rfl⟩ ends
  obtain ⟨thread, conn⟩ := of_decide_eq_true facts
  obtain ⟨q, query, connected⟩ := Option.map_eq_some_iff.1 conn
  exact ⟨s, q, thread, connected, fun attempt => sent_on_connection run query attempt⟩

/-- The first connection of a query fails; its second attempt goes on with the handle. -/
def failedConnection : List Action :=
  [.game (.addConnect ⟨1, 1⟩), .game (.pushQuery 1 0 0)] ++ pollSteps 7 ++
    List.replicate 6 (.query 1 0 ⟨true, false, false, false⟩) ++ pollSteps 17 ++
    List.replicate 2 (.query 1 1 ⟨true, true, true, true⟩)

/-- A statement can be sent on a handle that was never connected. -/
theorem not_always_on_connection : ¬ ∀ s, machine.Reachable s → ∀ id tid way q attempt,
    At s id tid (.exec way) → s.mQueries id = some q → Sound q way attempt := by
  intro always
  have ends : (machine.exec (.start 4) failedConnection).map
      (fun s : State => decide ((s.threads 1).find? (fun t => t.tid == 1) =
        some ⟨1, .exec .reuse⟩ ∧ (s.mQueries 1).map Query.conn = some (some ⟨false⟩))) =
          some true := by decide
  obtain ⟨s, run, facts⟩ := Machine.exists_reachable (M := machine) ⟨4, rfl⟩ ends
  obtain ⟨thread, conn⟩ := of_decide_eq_true facts
  obtain ⟨q, query, unconnected⟩ := Option.map_eq_some_iff.1 conn
  exact not_sound_of_unconnected unconnected ⟨true, true, true, true⟩
    (always s run 1 1 .reuse q _ thread query)

end Refsapi.Mysql
