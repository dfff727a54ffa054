/-
# Mysql.Frames -- the queries in `m_frames` exist

`frame_mutex` keeps a query thread that pushes and `stop` apart (`FrameLock`):
while `stop` sets `aborted`, no thread is between taking the mutex and its push.
What the mutex cannot prevent is that `stop` comes between the second test of
`run_query` and the lock.  Then the thread pushes a query that `stop` has aborted,
and `poll_query` frees it as `aborted && framed` with its pointer in `m_frames`.

The main results are `frames_present`, for the runs in which no thread takes the mutex
for an aborted query, and `not_always_present`.
-/
import Refsapi.Mysql.Answer

namespace Refsapi.Mysql

set_option autoImplicit false

variable {s s' : State} {v v' : Slice}

/-! ## Who holds `frame_mutex` -/

structure FrameLock (s : State) : Prop where
  push : ∀ id tid, At s id tid .push → s.frameMutex = some (.query id tid)
  stop : s.game = .stopThreads ∨ (∃ todo, s.game = .abort todo) → s.frameMutex = some .game

theorem at_goto {id tid id' tid' : Nat} {pc pc' : RunPc}
    (thread : At (s.goto id tid pc) id' tid' pc') :
    id' = id ∧ tid' = tid ∧ pc' = pc ∨ At s id' tid' pc' ∧ ¬ (id' = id ∧ tid' = tid) := by
  unfold At State.goto State.setThreads at thread
  by_cases here : id' = id
  · subst here
    have found : Option.map (fun t : Thread => if t.tid = tid then { t with pc } else t)
        ((s.threads id').find? fun t => t.tid == tid') = some ⟨tid', pc'⟩ := by
      have same : (fun t : Thread => (if t.tid = tid then { t with pc } else t).tid == tid') =
          fun t => t.tid == tid' := by
        funext t
        split <;> rfl
      simpa [List.find?_map, Function.comp_def, same] using thread
    obtain ⟨t, before, after⟩ := Option.map_eq_some_iff.1 found
    split at after
    · next isThis =>
        cases after
        exact .inl ⟨rfl, isThis, rfl⟩
    · next isOther =>
        subst after
        exact .inr ⟨before, fun both => isOther both.2⟩
  · exact .inr ⟨by simpa [At, here] using thread, fun both => here both.1⟩

theorem FrameLock.query {id tid : Nat} (lock : FrameLock s) (move : QueryMove s id tid s') :
    FrameLock s' := by
  cases move with
  | lock thread query free =>
      constructor
      · intro id' tid' pushes
        rcases at_goto pushes with ⟨rfl, rfl, -⟩ | ⟨before, -⟩
        · rfl
        · cases free.symm.trans (lock.push id' tid' before)
      · intro stops
        cases free.symm.trans (lock.stop stops)
  | push thread =>
      have mine := lock.push id tid thread
      constructor
      · intro id' tid' pushes
        rcases at_goto pushes with ⟨-, -, isPush⟩ | ⟨before, other⟩
        · cases isPush
        · have both := mine.symm.trans (lock.push id' tid' before)
          simp only [Option.some.injEq, Party.query.injEq] at both
          exact absurd ⟨both.1.symm, both.2.symm⟩ other
      · intro stops
        cases mine.symm.trans (lock.stop stops)
  | _ =>
      refine ⟨fun id' tid' pushes => ?_, lock.stop⟩
      rcases at_goto pushes with ⟨-, -, isPush⟩ | ⟨before, -⟩
      · cases isPush
      · exact lock.push id' tid' before

theorem release_control (s : State) (id : Nat) (removable : Bool) :
    ∃ finishedQueries, s.release id removable =
      { s with poll := { s.poll with pc := .scan, finishedQueries } } := by
  unfold State.release
  split
  · exact ⟨_, rfl⟩
  · exact ⟨s.poll.finishedQueries, rfl⟩

theorem FrameLock.poll (good : ∀ id, Good (slice s id)) (lock : FrameLock s)
    (move : PollMove s s') : FrameLock s' := by
  cases move with
  | @create id rest q pc head query =>
      refine ⟨fun id' tid' pushes => lock.push id' tid' ?_, lock.stop⟩
      by_cases here : id' = id
      · subst here
        simp only [At, State.setThreads, State.setQuery, Function.update_self,
          List.find?_append, Option.or_eq_some_iff] at pushes
        rcases pushes with before | ⟨-, new⟩
        · exact before
        · simp only [List.find?_cons, List.find?_nil] at new
          split at new <;> cases new
      · simpa [At, State.setThreads, State.setQuery, here] using pushes
  | @join ref rest pc head returned =>
      refine ⟨fun id' tid' pushes => lock.push id' tid' ?_, lock.stop⟩
      by_cases here : id' = ref.query
      · subst here
        have only : s.threads ref.query = [⟨ref.tid, .returned⟩] :=
          (good ref.query).thread.reaps returned
        simp [At, State.setThreads, only] at pushes
      · simpa [At, State.setThreads, here] using pushes
  | @spent id q | @release id q =>
      obtain ⟨_, same⟩ := release_control _ id q.removable
      exact same ▸ ⟨lock.push, lock.stop⟩
  | _ => exact ⟨lock.push, lock.stop⟩

theorem FrameLock.game (lock : FrameLock s) (move : GameMove s s') : FrameLock s' := by
  cases move with
  | stopFrames pc free =>
      refine ⟨fun id tid pushes => ?_, fun _ => rfl⟩
      cases free.symm.trans (lock.push id tid pushes)
  | stopThreads pc free => exact ⟨lock.push, fun _ => lock.stop (.inl pc)⟩
  | abort pc query => exact ⟨lock.push, fun _ => lock.stop (.inr ⟨_, pc⟩)⟩
  | abortEnd pc =>
      refine ⟨fun id tid pushes => ?_, fun stops => by simp [State.gameAt] at stops⟩
      cases (lock.stop (.inr ⟨_, pc⟩)).symm.trans (lock.push id tid pushes)
  | _ =>
      refine ⟨lock.push, fun stops => lock.stop ?_⟩
      first
        | exact stops
        | simp [State.gameAt] at stops

theorem frameLock_of_reachable (run : machine.Reachable s) : FrameLock s := by
  refine Machine.Reaches.invariant (I := FrameLock) ?_ ?_ run
  · rintro _ ⟨maxThreads, rfl⟩
    constructor <;> simp [At, State.start]
  · intro s a s' before lock _ moved
    rcases machine_move moved with ⟨id, tid, move⟩ | move | move
    · exact lock.query move
    · exact lock.poll (good_of_reachable before) move
    · exact lock.game move

/-- `stop` has emptied `m_frames` and still holds the mutex. -/
def Aborting (v : Slice) : Prop := v.stop = .threads ∨ ∃ pending, v.stop = .abort pending

/-- No thread pushes while `stop` aborts. -/
theorem not_pushing_of_aborting (run : machine.Reachable s) (id : Nat)
    (aborting : Aborting (slice s id)) : pcOf (slice s id).threads ≠ some .push := by
  have lock := frameLock_of_reachable run
  have held : s.frameMutex = some .game := by
    apply lock.stop
    rcases aborting with isThreads | ⟨pending, isAbort⟩
    · left
      cases pc : s.game <;> simp_all [slice, GamePc.stop]
    · right
      cases pc : s.game <;> simp_all [slice, GamePc.stop]
  rcases (good_of_reachable run id).thread with ⟨none, -⟩ | ⟨tid, pc, only, -⟩
  · simp [none]
  · intro pushes
    obtain rfl : pc = .push := by simpa [only] using pushes
    have thread : At s id tid .push := by simp [At, show s.threads id = [⟨tid, .push⟩] from only]
    cases held.symm.trans (lock.push id tid thread)

/-- The query is in `m_frames`, on its way there or on its way from there. -/
def Out (v : Slice) : Prop :=
  0 < v.frames ∨ pcOf v.threads = some .push ∨ v.hand ≠ .none

/-- A query that is out exists and cannot be released. -/
structure FramesOk (v : Slice) : Prop where
  present : Out v → v.query ≠ none
  kept : ∀ q, v.query = some q → Out v → q.async = true ∧ q.aborted = false ∧ q.finished = false
  emptied : Aborting v → v.frames = 0

attribute [grind cases] FramesOk
attribute [grind] Out Aborting

theorem FramesOk.step (good : Good v) (stopOk : StopOk v) (frames : FramesOk v)
    (exclusive : Aborting v → pcOf v.threads ≠ some .push)
    (locks : pcOf v.threads = some .lock → pcOf v'.threads = some .push →
      ∀ q, v.query = some q → q.aborted = false) (life : Life v v') : FramesOk v' := by
  obtain ⟨poll, out, threads, queryOk⟩ := good
  cases life with
  | stay | scanEnd | marked | skip | reapYes | reapNo | reap | release | createEnd | freeEnd
  | begin | joinEnd | addConnect => exact { frames with }
  | @turnBack tid q thread query
  | @start tid q thread query
  | @retestBack tid q thread query
  | @retestOn tid q thread query
  | @lock tid q thread query
  | @finish tid q thread query =>
      obtain ⟨only, old⟩ := threads.only thread
      have live := old.live _ query
      rw [goto_of_only (by exact only)] at locks ⊢
      have inside := old.inside
      clear threads queryOk thread stopOk poll old
      constructor <;> grind
  | @enter tid q attempt thread query =>
      obtain ⟨only, old⟩ := threads.only thread
      obtain ⟨_, _, control⟩ := enterAttempt_control v.conns q attempt
      rw [goto_of_only (by exact only), control] at locks ⊢
      have inside := old.inside
      clear threads queryOk thread stopOk poll old
      constructor <;> grind
  | @exec tid q way attempt thread query =>
      obtain ⟨only, old⟩ := threads.only thread
      obtain ⟨_, _, _, control⟩ := finishAttempt_control v.stopThreads q way attempt
      rw [goto_of_only (by exact only), control] at locks ⊢
      have inside := old.inside
      clear threads queryOk thread stopOk poll old
      constructor <;> grind
  | @push tid thread
  | @count tid thread =>
      obtain ⟨only, old⟩ := threads.only thread
      rw [goto_of_only (by exact only)] at locks ⊢
      clear threads queryOk thread stopOk poll old
      constructor <;> grind
  | @create q tid creates selected query =>
      have ok := queryOk _ query
      have none : v.threads = [] := by grind
      clear threads queryOk stopOk poll
      constructor <;> grind
  | @again q visit query isAgain
  | @spent q visit query isAgain =>
      have ok := queryOk _ query
      clear threads queryOk stopOk poll
      constructor <;> grind
  | @select q _ _ _ query
  | @createFail q _ _ query =>
      have ok := queryOk _ query
      clear threads queryOk stopOk poll
      constructor <;> grind
  | @finishFrame q hand query =>
      have still : pcOf v.threads ≠ some .push := by
        rcases threads with ⟨none, -⟩ | ⟨tid, pc, only, old⟩
        · simp [none]
        · intro pushes
          obtain rfl : pc = .push := by simpa [only] using pushes
          simpa [hand] using (old.inside (by simp)).2
      clear threads queryOk stopOk poll
      constructor <;> grind
  | @free q frees visit removed query
  | @freeQuery q query =>
      obtain ⟨_, _, _, control⟩ := freeQuery_control v.stopThreads q
      rw [control] at locks ⊢
      clear threads queryOk stopOk poll
      constructor <;> grind
  | @execQuery q err stores query held =>
      obtain ⟨_, _, _, _, control⟩ := execQuery_control v.stopThreads q err stores
      rw [control] at locks ⊢
      clear threads queryOk stopOk poll
      constructor <;> grind
  | @erase q visit query =>
      have removable := (queryOk q query).removed (.inr visit)
      clear threads queryOk stopOk poll
      constructor <;> grind
  | @join tid returns pos returned =>
      have only := threads.reaps returned
      rw [only, List.erase_cons_head]
      clear threads queryOk stopOk poll
      constructor <;> grind
  | prepare conn async pri connId time unmade =>
      obtain ⟨gone, none, -, unframed, idle, -⟩ := poll.unmade unmade
      clear threads queryOk stopOk poll
      constructor <;> grind
  | _ =>
      clear threads queryOk poll
      constructor <;> grind

theorem QueryMove.threads_other {id tid x : Nat} (move : QueryMove s id tid s') (other : x ≠ id) :
    s'.threads x = s.threads x := by
  cases move <;> simp [State.goto, State.setThreads, State.setQuery, State.emit, other]

theorem QueryMove.runs {id tid : Nat} (move : QueryMove s id tid s') : ∃ pc, At s id tid pc := by
  cases move <;> exact ⟨_, by assumption⟩

theorem PollMove.pc {id : Nat} {pc : RunPc} (move : PollMove s s')
    (before : pcOf (s.threads id) = some pc) (pending : pc ≠ .returned)
    (only : (s.threads id).length ≤ 1) : pcOf (s'.threads id) = some pc := by
  cases move with
  | @create id' rest q _ _ query =>
      by_cases here : id = id'
      · subst here
        obtain ⟨t, head, isPc⟩ := Option.map_eq_some_iff.1 before
        simp [pcOf, State.setThreads, State.setQuery, List.head?_append, head, isPc]
      · simpa [State.setThreads, State.setQuery, here] using before
  | @join ref rest _ _ returned =>
      by_cases here : id = ref.query
      · subst here
        obtain ⟨t, head, isPc⟩ := Option.map_eq_some_iff.1 before
        obtain ⟨rest, split⟩ := List.head?_eq_some_iff.1 head
        obtain rfl : rest = [] := by simpa [split] using only
        obtain rfl : ⟨ref.tid, .returned⟩ = t := by simpa [split] using returned
        exact absurd isPc pending.symm
      · simpa [State.setThreads, here] using before
  | @spent id q | @release id q =>
      obtain ⟨_, same⟩ := release_control _ id q.removable
      rw [same]
      exact before
  | _ => exact before

theorem GameMove.threads (move : GameMove s s') : s'.threads = s.threads := by
  cases move <;> rfl

/-- A thread comes to its push by its own step. -/
theorem lock_step {a : Action} (run : machine.Reachable s) (moved : machine.step s a = some s')
    {id : Nat} (before : pcOf (s.threads id) = some .lock)
    (after : pcOf (s'.threads id) = some .push) :
    ∃ tid attempt, a = .query id tid attempt ∧ At s id tid .lock := by
  obtain ⟨tid, only⟩ : ∃ tid, s.threads id = [⟨tid, .lock⟩] := by
    rcases (good_of_reachable run id).thread with ⟨none, -⟩ | ⟨tid, pc, only, -⟩
    · simp [show s.threads id = [] from none] at before
    · have only : s.threads id = [⟨tid, pc⟩] := only
      exact ⟨tid, by simpa [only] using before⟩
  cases a with
  | query id' tid' attempt =>
      have move := queryStep_move moved
      obtain rfl : id = id' := by
        by_contra other
        rw [move.threads_other other] at after
        cases before.symm.trans after
      obtain ⟨pc, runs⟩ := move.runs
      obtain rfl : tid = tid' := by
        by_contra other
        simp [At, only, other] at runs
      exact ⟨tid, attempt, rfl, by simp [At, only]⟩
  | poll created =>
      have stays := (pollStep_move moved).pc before (by simp) (by simp [only])
      cases stays.symm.trans after
  | game act =>
      rw [(gameStep_move moved).threads] at after
      cases before.symm.trans after

/-- A query thread takes `frame_mutex` only for a query that is not aborted. -/
def LocksUnaborted (s : State) (a : Action) : Prop :=
  ∀ id tid attempt q, a = .query id tid attempt → At s id tid .lock → s.mQueries id = some q →
    q.aborted = false

theorem framesOk_of_reaches (run : machine.Reaches LocksUnaborted s) (id : Nat) :
    FramesOk (slice s id) := by
  refine Machine.Reaches.invariant (I := fun s => FramesOk (slice s id)) ?_ ?_ run
  · rintro _ ⟨maxThreads, rfl⟩
    constructor <;> simp [Out, slice, State.start, GamePc.hand]
  · intro s a s' before frames allowed moved
    have reached := before.reachable
    refine frames.step (good_of_reachable reached id) (followed_of_reachable reached id).stopOk
      (not_pushing_of_aborting reached id) ?_ (slice_step moved id)
    intro locked pushes q query
    obtain ⟨tid, attempt, isQuery, thread⟩ := lock_step reached moved locked pushes
    exact allowed id tid attempt q isQuery thread query

/-- **Every query in `m_frames` exists**, in the runs in which no query thread takes
`frame_mutex` for a query that `stop` has aborted since its test. -/
theorem frames_present (run : machine.Reaches LocksUnaborted s) {id : Nat}
    (framed : id ∈ s.frames) :
    ∃ q, s.mQueries id = some q := by
  have present := (framesOk_of_reaches run id).present (.inl (List.count_pos_iff.2 framed))
  exact Option.ne_none_iff_exists'.1 present

/-- `LocksUnaborted`, of the steps that the query table decides. -/
def locksUnaborted (s : State) : Action → Bool
  | .query id _ _ =>
      match s.mQueries id with
      | none => true
      | some q => !q.aborted
  | _ => true

theorem locksUnaborted_sound (s : State) (a : Action) (ok : locksUnaborted s a = true) :
    LocksUnaborted s a := by
  rintro id tid attempt q rfl - query
  simpa [locksUnaborted, query] using ok

/-- A thread takes some steps in `run_query`; the query succeeds. -/
def succeedingAttempt (id tid n : Nat) : List Action :=
  List.replicate n (.query id tid ⟨true, true, false, true⟩)

/-- A query that succeeds, up to its thread's return. -/
def delivered : List Action :=
  [.game (.addConnect ⟨1, 1⟩), .game (.pushQuery 1 0 0)] ++ pollSteps 7 ++
    succeedingAttempt 1 0 6

theorem frames_present_delivered : ∃ s : State, 1 ∈ s.frames ∧ ∃ q, s.mQueries 1 = some q := by
  have ends : (machine.execIf locksUnaborted (.start 4) delivered).map
      (fun s => decide (1 ∈ s.frames)) = some true := by decide
  obtain ⟨s, run, framed⟩ :=
    Machine.exists_reaches (M := machine) locksUnaborted_sound ⟨4, rfl⟩ ends
  have framed : 1 ∈ s.frames := by simpa using framed
  exact ⟨s, framed, frames_present run framed⟩

/-- `stop` runs while a thread is between its second test and the lock.  The thread
pushes the aborted query, and the next pass of the polling thread frees it. -/
def lateLock : List Action :=
  [.game (.addConnect ⟨1, 1⟩), .game (.pushQuery 1 0 0)] ++ pollSteps 7 ++
    succeedingAttempt 1 0 4 ++ [.game .stop] ++ List.replicate 6 (.game (.next true true)) ++
    succeedingAttempt 1 0 2 ++ pollSteps 10

/-- A query can be freed and its pointer stay in `m_frames`. -/
theorem not_always_present : ¬ ∀ s, machine.Reachable s → ∀ id ∈ s.frames,
    ∃ q, s.mQueries id = some q := by
  intro always
  have ends : (machine.exec (.start 4) lateLock).map
      (fun s : State => decide (1 ∈ s.frames ∧ s.mQueries 1 = none)) = some true := by decide
  obtain ⟨s, run, facts⟩ := Machine.exists_reachable (M := machine) ⟨4, rfl⟩ ends
  obtain ⟨framed, gone⟩ := of_decide_eq_true facts
  obtain ⟨q, present⟩ := always s run 1 framed
  simp [gone] at present

end Refsapi.Mysql
