/-
# Mysql.Accounts -- the counters of threads

`num_threads` counts what is in `m_threads` or selected for a thread;
`num_finished` counts the queries of `m_threads` that are finished, but a flag and
its counter are changed in two steps on two threads.  The share of a query in
`threads_count()` is what it adds to the difference when every step that is still
owed is taken into account, and `Balanced` says that the difference is the sum of the
shares.

The main result is `threads_bounded`, for runs in which `stop` does not begin.
-/
import Mathlib.Algebra.BigOperators.Group.Finset.Piecewise
import Mathlib.Algebra.BigOperators.Ring.Finset
import Mathlib.Algebra.Order.BigOperators.Group.Finset
import Refsapi.Mysql.Frames

namespace Refsapi.Mysql

set_option autoImplicit false

variable {s s' : State} {v v' : Slice}

/-! ## The share of a query -/

/-- The query is finished and its thread is still in `m_threads`. -/
def settled (query : Option Query) (reaped : Nat) : Bool :=
  match query with
  | some q => q.async && q.started && q.finished && reaped == 0
  | none => false

/-- What a query adds to `threads_count()`. -/
def shareOf (query : Option Query) (threads : List Thread) (starts reaped : Nat) : Int :=
  starts + threads.length - reaped + threads.countP (fun t => t.pc == .count) -
    if settled query reaped then 1 else 0

def share (s : State) (id : Nat) : Int :=
  shareOf (s.mQueries id) (s.threads id) (s.poll.startQueries.count id)
    (s.poll.finishedThreads.countP fun ref => ref.query == id)

/-- The game thread owes `num_finished` a query. -/
def GamePc.owed : GamePc → Int
  | .count => 1
  | _ => 0

def total (s : State) : Int := ∑ id ∈ Finset.range (s.queryNums + 1), share s id

structure Balanced (s : State) : Prop where
  threads : s.numThreads = s.mThreads.length + s.poll.startQueries.length
  shares : threadsCount s = total s + s.game.owed

theorem total_of_moved {id : Nat} {d : Int} (made : id ≤ s.queryNums)
    (nums : s'.queryNums = s.queryNums)
    (moved : ∀ x, share s' x = share s x + if x = id then d else 0) :
    total s' = total s + d := by
  unfold total
  rw [nums, Finset.sum_congr rfl fun x _ => moved x, Finset.sum_add_distrib,
    Finset.sum_ite_eq' (Finset.range (s.queryNums + 1)) id fun _ => d]
  simp [Nat.lt_succ_of_le made]

theorem total_of_same (nums : s'.queryNums = s.queryNums)
    (same : ∀ x, share s' x = share s x) : total s' = total s := by
  unfold total
  rw [nums, Finset.sum_congr rfl fun x _ => same x]

/-! ## Runs without `stop` -/

/-- `stop` does not begin. -/
def NoStop (_ : State) (a : Action) : Prop := a ≠ .game .stop

/-- `stop` has had no part in the query. -/
structure Unstopped (v : Slice) : Prop where
  outside : v.stop = .none
  free : v.stopThreads = false
  unaborted : ∀ q, v.query = some q → q.aborted = false

theorem Unstopped.step (unstopped : Unstopped v) (outside : v'.stop ≠ .frames) (life : Life v v') :
    Unstopped v' := by
  obtain ⟨none, free, unaborted⟩ := unstopped
  cases life with
  | stop => exact absurd rfl outside
  | stopFrames stop | stopThreads pending stop | abort stop | abortEnd stop | unlock stop
  | clear stop => cases none.symm.trans stop
  | @enter tid q attempt thread query =>
      obtain ⟨_, _, control⟩ := enterAttempt_control v.conns q attempt
      rw [control]
      exact ⟨none, free, by rintro _ ⟨⟩; exact unaborted q query⟩
  | @exec tid q way attempt thread query =>
      obtain ⟨_, _, _, control⟩ := finishAttempt_control v.stopThreads q way attempt
      rw [control]
      exact ⟨none, free, by rintro _ ⟨⟩; exact unaborted q query⟩
  | @free q _ _ _ query
  | @freeQuery q query =>
      obtain ⟨_, _, _, control⟩ := freeQuery_control v.stopThreads q
      rw [control]
      exact ⟨none, free, by rintro _ ⟨⟩; exact unaborted q query⟩
  | @execQuery q err stores query =>
      obtain ⟨_, _, _, _, control⟩ := execQuery_control v.stopThreads q err stores
      rw [control]
      exact ⟨none, free, by rintro _ ⟨⟩; exact unaborted q query⟩
  | @lock _ q _ query | @finish _ q _ query | @select q _ _ _ query | @again q _ query
  | @spent q _ query | @create q _ _ _ query | @createFail q _ _ query
  | @finishFrame q _ query =>
      exact ⟨none, free, by rintro _ ⟨⟩; exact unaborted q query⟩
  | erase => exact ⟨none, free, by rintro _ ⟨⟩⟩
  | prepare => exact ⟨none, free, by rintro _ ⟨⟩; rfl⟩
  | _ => exact ⟨none, free, unaborted⟩

theorem gameNext_outside {error data : Bool} (moved : gameNext error data s = some s') :
    s'.game ≠ .stopFrames := by
  grind [gameNext]

theorem step_outside {a : Action} (allowed : NoStop s a) (moved : machine.step s a = some s')
    (outside : s.game ≠ .stopFrames) : s'.game ≠ .stopFrames := by
  cases a with
  | query id tid attempt =>
      have same : s'.game = s.game := by cases queryStep_move moved <;> rfl
      rwa [same]
  | poll created =>
      have same : s'.game = s.game := by
        cases pollStep_move moved with
        | @spent id q | @release id q =>
            obtain ⟨_, same⟩ := release_control _ id q.removable
            exact (congrArg State.game same).trans rfl
        | _ => rfl
      rwa [same]
  | game act =>
      cases act with
      | stop => exact absurd rfl allowed
      | next error data => exact gameNext_outside moved
      | _ =>
        simp only [machine] at moved
        grind [gameStep, prepareQuery, State.setQuery, State.emit]

theorem unstopped_of_reaches (run : machine.Reaches NoStop s) (id : Nat) :
    Unstopped (slice s id) := by
  refine (Machine.Reaches.invariant (I := fun s => s.game ≠ .stopFrames ∧ Unstopped (slice s id))
    ?_ ?_ run).2
  · rintro _ ⟨maxThreads, rfl⟩
    refine ⟨by simp [State.start], ?_, ?_, ?_⟩ <;> simp [slice, State.start, GamePc.stop]
  · intro s a s' before holds allowed moved
    have outside := step_outside allowed moved holds.1
    refine ⟨outside, holds.2.step ?_ (slice_step moved id)⟩
    intro frames
    cases pc : s'.game <;> simp_all [slice, GamePc.stop]

/-! ## One step -/

theorem at_inj {id tid : Nat} {pc pc' : RunPc} (one : At s id tid pc) (other : At s id tid pc') :
    pc = pc' := by
  simpa using one.symm.trans other

attribute [local simp] State.goto State.setThreads State.setQuery State.emit threadsCount

/-- What a step of a query's thread does to the accounts. -/
theorem QueryMove.share {id tid : Nat} (good : Good (slice s id))
    (unstopped : Unstopped (slice s id)) (move : QueryMove s id tid s') :
    ∃ d, (∀ x, share s' x = share s x + if x = id then d else 0) ∧
      threadsCount s' = threadsCount s + d := by
  obtain ⟨pc, thread⟩ := move.runs
  obtain ⟨only, old⟩ := good.thread.only (v := slice s id) thread
  have only : s.threads id = [⟨tid, pc⟩] := only
  cases move with
  | count runs =>
      refine ⟨-1, fun x => ?_, by simp; omega⟩
      have place := at_inj runs thread
      by_cases here : x = id
      · subst here
        simp [Mysql.share, shareOf, only, ← place]
        omega
      · simp [Mysql.share, here]
  | @finish q runs query =>
      refine ⟨0, fun x => ?_, by simp⟩
      have place := at_inj runs thread
      subst place
      obtain ⟨async, -, live⟩ := old.live q query
      have unaborted := unstopped.unaborted q query
      have settles : q.started = true ∧ q.finished = false ∧
          (s.poll.finishedThreads.countP fun ref => ref.query == id) = 0 := by
        change _ ∧ _ ∧ (slice s id).reaped = 0
        grind
      by_cases here : x = id
      · subst here
        simp [Mysql.share, shareOf, only, query, settled, async, settles]
      · simp [Mysql.share, here]
  | @turnBack _ runs | @start _ runs | @retestBack _ runs | @retestOn _ runs =>
      refine ⟨0, fun x => ?_, by simp⟩
      have place := at_inj runs thread
      by_cases here : x = id
      · subst here
        simp [Mysql.share, shareOf, only, ← place]
      · simp [Mysql.share, here]
  | @enter q attempt runs query =>
      refine ⟨0, fun x => ?_, by simp⟩
      have place := at_inj runs thread
      obtain ⟨_, _, control⟩ := enterAttempt_control s.connPrms q attempt
      by_cases here : x = id
      · subst here
        simp [Mysql.share, shareOf, only, ← place, control, query, settled]
      · simp [Mysql.share, here]
  | @exec q way attempt runs query =>
      refine ⟨0, fun x => ?_, by simp⟩
      have place := at_inj runs thread
      obtain ⟨_, _, _, control⟩ := finishAttempt_control s.stopThreads q way attempt
      by_cases here : x = id
      · subst here
        simp [Mysql.share, shareOf, only, ← place, control, query, settled]
      · simp [Mysql.share, here]
  | @lock q runs query =>
      refine ⟨0, fun x => ?_, by simp⟩
      have place := at_inj runs thread
      by_cases here : x = id
      · subst here
        simp [Mysql.share, shareOf, only, ← place, query, settled]
      · simp [Mysql.share, here]
  | push runs =>
      refine ⟨0, fun x => ?_, by simp⟩
      have place := at_inj runs thread
      by_cases here : x = id
      · subst here
        simp [Mysql.share, shareOf, only, ← place]
      · simp [Mysql.share, here]

/-- Reaped threads of a query. -/
abbrev reapedOf (s : State) (id : Nat) : Nat :=
  s.poll.finishedThreads.countP fun ref => ref.query == id

theorem unsettled_of_reaped {q : Query} {reaped : Nat}
    (isReaped : q.async = true → q.started = true → 0 < reaped) :
    settled (some q) reaped = false := by
  cases async : q.async <;> cases started : q.started <;> simp_all [settled]
  omega

/-- What a step of the polling thread does to the accounts. -/
theorem PollMove.share (good : ∀ id, Good (slice s id))
    (unstopped : ∀ id, Unstopped (slice s id)) (move : PollMove s s') :
    ∃ id d, (d ≠ 0 → id ≤ s.queryNums) ∧ (∀ x, share s' x = share s x + if x = id then d else 0) ∧
      threadsCount s' = threadsCount s + d := by
  cases move with
  | begin pc =>
      refine ⟨0, 0, by simp, fun x => ?_, by simp⟩
      have idle : (slice s x).phase = .idle := by simp [slice, pc, PollPc.phase]
      have starts : s.poll.startQueries.count x = 0 :=
        (good x).poll.starts (by simp [idle]) (by simp [idle])
      have reaped : reapedOf s x = 0 := (good x).poll.reaped idle
      simp [Mysql.share, starts, reaped]
  | @select id todo q pc head query unfinished unaborted async unstarted may =>
      have made : id ≤ s.queryNums := ((good id).query q query).made.1
      refine ⟨id, 1, fun _ => made, fun x => ?_, by simp; omega⟩
      by_cases here : x = id
      · subst here
        simp [Mysql.share, shareOf, query, settled, unfinished]
        omega
      · simp [Mysql.share, here, Ne.symm here]
  | @reap id q pc query found =>
      have visit : (slice s id).visit = .reap := by simp [slice, pc, PollPc.visit]
      have ok := (good id).query q query
      obtain ⟨async, started, done⟩ := ok.reaps visit
      have finished : q.finished = true := by
        simpa [(unstopped id).unaborted q query] using done
      have starts : (slice s id).starts = 0 := by
        have := (good id).poll.once
        grind
      obtain ⟨rpc, only⟩ := ok.runs async started starts
      have live := ((good id).thread.only
        (show (slice s id).At q.tid rpc by simp [Slice.At, only])).2.live q query
      have once := (good id).poll.once
      have unreaped : (slice s id).reaped = 0 := by
        grind
      have unreaped : reapedOf s id = 0 := unreaped
      refine ⟨id, 0, by simp, fun x => ?_, by simp [finished]⟩
      by_cases here : x = id
      · subst here
        simp [Mysql.share, shareOf, query, settled, finished, async, started, unreaped]
        omega
      · simp [Mysql.share, here, Ne.symm here]
  | @again id q pc query isAgain room =>
      have visit : (slice s id).visit = .retry := by simp [slice, pc, PollPc.visit]
      have ok := (good id).query q query
      have reaped : q.async = true → q.started = true → 0 < reapedOf s id := fun async started =>
        ok.reaped (.inl visit) async started ((unstopped id).unaborted q query)
      refine ⟨id, 0, by simp, fun x => ?_, by simp [State.pollAt]⟩
      by_cases here : x = id
      · subst here
        have unsettled := unsettled_of_reaped reaped
        simp [Mysql.share, shareOf, State.pollAt, query, unsettled]
        simp [settled]
      · simp [Mysql.share, State.pollAt, here]
  | @spent id q pc query =>
      obtain ⟨_, same⟩ := release_control
        (s.setQuery id (some { q with retryCount := q.retryCount + 1 })) id q.removable
      rw [same]
      refine ⟨id, 0, by simp, fun x => ?_, by simp⟩
      by_cases here : x = id
      · subst here
        simp [Mysql.share, shareOf, query, settled]
      · simp [Mysql.share, here]
  | @release id q pc query =>
      obtain ⟨_, same⟩ := release_control s id q.removable
      exact ⟨id, 0, by simp, fun x => by simp [Mysql.share, same], by simp [same]⟩
  | @create id rest q pc head query =>
      have ok := (good id).query q query
      obtain ⟨async, started, unfinished, -, -, none⟩ := ok.selected (by simp [slice, head])
      have none : s.threads id = [] := none
      refine ⟨id, 0, by simp, fun x => ?_, by simp⟩
      by_cases here : x = id
      · subst here
        simp [Mysql.share, shareOf, query, settled, head, none]
      · simp [Mysql.share, here, head, Ne.symm here]
  | @createFail id rest q pc head query =>
      have ok := (good id).query q query
      obtain ⟨async, started, unfinished, -, -, none⟩ := ok.selected (by simp [slice, head])
      refine ⟨id, -1, fun _ => ok.made.1, fun x => ?_, by simp; omega⟩
      by_cases here : x = id
      · subst here
        simp [Mysql.share, shareOf, query, settled, unfinished, head]
        omega
      · simp [Mysql.share, here, head, Ne.symm here]
  | @free id rest q pc head query =>
      obtain ⟨_, _, _, control⟩ := freeQuery_control s.stopThreads q
      refine ⟨id, 0, by simp, fun x => ?_, by simp⟩
      by_cases here : x = id
      · subst here
        cases async : q.async <;>
          simp [Mysql.share, shareOf, query, settled, control, async]
      · simp [Mysql.share, here]
  | @erase id q pc query unlocked =>
      have visit : (slice s id).visit = .erase := by simp [slice, pc, PollPc.visit]
      have ok := (good id).query q query
      have reaped : q.async = true → q.started = true → 0 < reapedOf s id := fun async started =>
        ok.reaped (.inr (.inr visit)) async started ((unstopped id).unaborted q query)
      refine ⟨id, 0, by simp, fun x => ?_, by simp [State.pollAt]⟩
      by_cases here : x = id
      · subst here
        have unsettled := unsettled_of_reaped reaped
        simp [Mysql.share, shareOf, State.pollAt, query, unsettled]
        simp [settled]
      · simp [Mysql.share, State.pollAt, here]
  | joinEnd pc finished =>
      refine ⟨0, 0, by simp, fun x => ?_, by simp⟩
      have starts : s.poll.startQueries.count x = 0 :=
        (good x).poll.starts (by simp [slice, pc, PollPc.phase]) (by simp [slice, pc, PollPc.phase])
      simp [Mysql.share, Poll.idle, starts, finished]
  | @join ref rest pc head returned =>
      refine ⟨ref.query, 0, by simp, fun x => ?_, by simp⟩
      by_cases here : x = ref.query
      · subst here
        obtain ⟨tid, pc', only, old⟩ : ∃ tid pc', s.threads ref.query = [⟨tid, pc'⟩] ∧
            ThreadOk (slice s ref.query) tid pc' := by
          rcases (good ref.query).thread with ⟨none, -⟩ | one
          · simp [show s.threads ref.query = [] from none] at returned
          · exact one
        obtain ⟨rfl, rfl⟩ : ref.tid = tid ∧ .returned = pc' := by simpa [only] using returned
        have last : (rest.countP fun other => other.query == ref.query) = 0 := by
          have := old.reaped
          simp only [slice, head, List.countP_cons_of_pos, beq_self_eq_true] at this
          omega
        have unsettled (reaped : Nat) : settled (s.mQueries ref.query) reaped = false := by
          cases query : s.mQueries ref.query with
          | none => rfl
          | some q =>
              have live := old.live q query
              have joins : (slice s ref.query).phase = .join := by simp [slice, pc, PollPc.phase]
              have reaped : 0 < (slice s ref.query).reaped := by simp [slice, head]
              have poll := (good ref.query).poll
              have unstarted : q.started = false := by
                grind
              simp [settled, unstarted]
        simp [Mysql.share, shareOf, only, head, last, unsettled]
      · simp [Mysql.share, here, head, Ne.symm here]
  | _ => exact ⟨0, 0, by simp, fun x => by simp [Mysql.share, State.pollAt, State.visited],
      by simp [State.pollAt, State.visited]⟩

theorem total_prepare {q : Query} (good : Good (slice s (s.queryNums + 1)))
    (fresh : q.started = false)
    (query : s'.mQueries = Function.update s.mQueries (s.queryNums + 1) (some q))
    (threads : s'.threads = s.threads) (poll : s'.poll = s.poll)
    (nums : s'.queryNums = s.queryNums + 1) : total s' = total s := by
  have unmade : ¬ (slice s (s.queryNums + 1)).made := by simp [slice]
  obtain ⟨gone, none, unreaped, -⟩ := good.poll.unmade unmade
  obtain ⟨-, unselected, -⟩ := good.poll.gone gone
  unfold total
  rw [nums, Finset.sum_range_succ]
  have new : share s' (s.queryNums + 1) = 0 := by
    have none : s.threads (s.queryNums + 1) = [] := none
    have unreaped : reapedOf s (s.queryNums + 1) = 0 := unreaped
    have unselected : s.poll.startQueries.count (s.queryNums + 1) = 0 := unselected
    simp [share, shareOf, query, threads, poll, none, unreaped, unselected, settled, fresh]
  rw [new, Int.add_zero]
  refine Finset.sum_congr rfl fun x inside => ?_
  have other : x ≠ s.queryNums + 1 := Nat.ne_of_lt (Finset.mem_range.1 inside)
  simp [share, query, threads, poll, other]

theorem balance_of_same (nums : s'.queryNums = s.queryNums) (same : ∀ x, share s' x = share s x)
    (counted : threadsCount s' - s'.game.owed = threadsCount s - s.game.owed) :
    threadsCount s' - total s' - s'.game.owed = threadsCount s - total s - s.game.owed := by
  rw [total_of_same nums same]
  omega

/-- A step of the game thread keeps the balance. -/
theorem GameMove.balance (good : ∀ id, Good (slice s id))
    (unstopped : ∀ id, Unstopped (slice s id)) (move : GameMove s s') :
    threadsCount s' - total s' - s'.game.owed = threadsCount s - total s - s.game.owed := by
  cases move with
  | prepare conn async pri connId time natives =>
      let s' := { (s.setQuery (s.queryNums + 1)
          (some (newQuery (s.queryNums + 1) conn async pri connId time))).emit
            (.created (s.queryNums + 1) async (getConnect s.connPrms connId)) with
        queryNums := s.queryNums + 1 }
      have kept : total s' = total s := total_prepare (good _) rfl rfl rfl rfl rfl
      rw [kept]
      simp
  | @execQuery id q err stores natives query isHeld =>
      refine balance_of_same rfl (fun x => ?_) (by simp)
      have ok := (good id).query q query
      by_cases here : x = id
      · subst here
        cases async : q.async with
        | true =>
            have started := ok.started_of_held async (held_iff.1 isHeld)
            simp [Mysql.share, execQuery_of_started started, query]
        | false =>
            obtain ⟨_, _, _, _, control⟩ := execQuery_control s.stopThreads q err stores
            simp [Mysql.share, shareOf, query, control, settled, async]
      · simp [Mysql.share, here]
  | @freeQuery id q natives query isHeld =>
      refine balance_of_same rfl (fun x => ?_) (by simp)
      by_cases here : x = id
      · subst here
        obtain ⟨_, _, _, control⟩ := freeQuery_control s.stopThreads q
        cases async : q.async <;> simp [Mysql.share, shareOf, query, control, settled, async]
      · simp [Mysql.share, here]
  | @finish id q pc query =>
      have ok := (good id).query q query
      have moved : total ((s.setQuery id (some { q with finished := true })).gameAt .count) =
          total s + -1 := by
        refine total_of_moved ok.made.1 rfl fun x => ?_
        by_cases here : x = id
        · subst here
          have hand : (slice s x).hand = .finish := by simp [slice, pc, GamePc.hand]
          obtain ⟨framed, unfinished⟩ := ok.out (.inr (by simp [hand]))
          have unaborted := (unstopped x).unaborted q query
          have flags : q.async = true ∧ q.started = true := by
            have sync := ok.sync
            have waiting := ok.waiting
            grind
          have unreaped : (slice s x).reaped = 0 := by
            rcases (good x).thread with ⟨-, zero⟩ | ⟨tid, pc', -, old⟩
            · exact zero
            · have live := old.live q query
              clear ok pc
              grind
          have unreaped : reapedOf s x = 0 := unreaped
          simp [Mysql.share, shareOf, State.gameAt, query, settled, flags, unfinished, unreaped]
          omega
        · simp [Mysql.share, State.gameAt, here]
      rw [moved]
      simp [GamePc.owed, pc, State.gameAt]
      omega
  | count pc =>
      exact balance_of_same rfl (fun x => rfl) (by simp [GamePc.owed, pc, State.gameAt]; omega)
  | addConnect | badPriority => exact balance_of_same rfl (fun x => rfl) (by simp)
  | startFrame pc | turnBack pc | deliver pc | heapLow _ _ pc | callback pc | stop pc
  | stopFrames pc | stopThreads pc | abortEnd pc | unlock pc | clear pc  =>
      exact balance_of_same rfl (fun x => rfl) (by simp [GamePc.owed, pc, State.gameAt])
  | @abort id todo q pc query =>
      refine balance_of_same rfl (fun x => ?_) (by simp [GamePc.owed, pc, State.gameAt])
      by_cases here : x = id
      · subst here
        simp [Mysql.share, shareOf, query, settled, State.gameAt]
      · simp [Mysql.share, here, State.gameAt]

/-! ## Every run -/

theorem total_eq_of_move {id : Nat} {d : Int} (made : d ≠ 0 → id ≤ s.queryNums)
    (nums : s'.queryNums = s.queryNums)
    (moved : ∀ x, share s' x = share s x + if x = id then d else 0) : total s' = total s + d := by
  by_cases zero : d = 0
  · subst zero
    simpa using total_of_same nums fun x => by simpa using moved x
  · exact total_of_moved (made zero) nums moved

theorem balanced_step {a : Action} (good : ∀ id, Good (slice s id))
    (unstopped : ∀ id, Unstopped (slice s id)) (balanced : threadsCount s = total s + s.game.owed)
    (moved : machine.step s a = some s') : threadsCount s' = total s' + s'.game.owed := by
  rcases machine_move moved with ⟨id, tid, move⟩ | move | move
  · obtain ⟨d, shares, counted⟩ := move.share (good id) (unstopped id)
    have made : id ≤ s.queryNums := by
      obtain ⟨pc, thread⟩ := move.runs
      exact ((good id).thread.only (v := slice s id) thread).2.made
    have nums : s'.queryNums = s.queryNums := by cases move <;> rfl
    have game : s'.game = s.game := by cases move <;> rfl
    rw [total_eq_of_move (fun _ => made) nums shares, counted, game]
    omega
  · obtain ⟨id, d, made, shares, counted⟩ := move.share good unstopped
    have same : s'.queryNums = s.queryNums ∧ s'.game = s.game := by
      cases move with
      | @spent id q | @release id q =>
          obtain ⟨_, same⟩ := release_control _ id q.removable
          rw [same]
          exact ⟨rfl, rfl⟩
      | _ => exact ⟨rfl, rfl⟩
    rw [total_eq_of_move made same.1 shares, counted, same.2]
    omega
  · have := move.balance good unstopped
    omega

/-- Selected or in `m_threads`. -/
theorem numThreads_step {a : Action} (good : ∀ id, Good (slice s id))
    (counted : s.numThreads = s.mThreads.length + s.poll.startQueries.length)
    (moved : machine.step s a = some s') :
    s'.numThreads = s'.mThreads.length + s'.poll.startQueries.length := by
  have none (outside : s.poll.pc.phase ≠ .walk ∧ s.poll.pc.phase ≠ .create) :
      s.poll.startQueries = [] :=
    List.eq_nil_iff_forall_not_mem.2 fun id member =>
      Nat.ne_of_gt (List.count_pos_iff.2 member) ((good id).poll.starts outside.1 outside.2)
  rcases machine_move moved with ⟨id, tid, move⟩ | move | move
  · cases move <;> exact counted
  · cases move with
    | begin pc =>
        simpa [none (by simp [pc, PollPc.phase])] using counted
    | joinEnd pc =>
        simpa [none (by simp [pc, PollPc.phase]), Poll.idle] using counted
    | select =>
        simp
        omega
    | reap pc query found =>
        have := List.length_erase_of_mem found
        have := List.length_pos_of_mem found
        simp
        omega
    | create pc head =>
        simp [head] at counted ⊢
        omega
    | createFail pc head =>
        simp [head] at counted ⊢
        omega
    | @spent id q | @release id q =>
        obtain ⟨_, same⟩ := release_control _ id q.removable
        rw [same]
        exact counted
    | _ => exact counted
  · cases move <;> exact counted

/-- `threads_count()` grows only where it is tested. -/
theorem threadsCount_step {a : Action}
    (bounded : threadsCount s ≤ s.maxThreads <<< maxQueryPriority)
    (moved : machine.step s a = some s') :
    threadsCount s' ≤ s'.maxThreads <<< maxQueryPriority := by
  rcases machine_move moved with ⟨id, tid, move⟩ | move | move
  · cases move <;> simp at bounded ⊢ <;> omega
  · cases move with
    | @select id todo q pc head query _ _ _ _ may =>
        have shift : (s.maxThreads : Int) <<< (maxQueryPriority - q.pri) ≤
            (s.maxThreads : Int) <<< maxQueryPriority := by
          simp only [Int.shiftLeft_eq']
          exact Int.mul_le_mul_of_nonneg_left
            (Int.ofNat_le.2 (Nat.pow_le_pow_right (by decide) (Nat.sub_le _ _))) (by omega)
        have below := may.2
        simp at below ⊢
        omega
    | @spent id q | @release id q =>
        obtain ⟨_, same⟩ := release_control _ id q.removable
        rw [same]
        exact bounded
    | reap =>
        simp at bounded ⊢
        split <;> omega
    | createFail =>
        simp at bounded ⊢
        omega
    | _ => exact bounded
  · cases move with
    | count =>
        simp [State.gameAt] at bounded ⊢
        omega
    | _ => exact bounded

/-! ## Active queries -/

/-- The query is asynchronous, started and not finished. -/
def Query.active (q : Query) : Bool := q.async && q.started && !q.finished

/-- The active queries. -/
def active (s : State) : Finset Nat :=
  (Finset.range (s.queryNums + 1)).filter fun id => (s.mQueries id).any Query.active

/-- A started query is selected or has a thread, which is reaped only when it is finished. -/
theorem thread_of_started {q : Query} (good : Good v) (query : v.query = some q)
    (unaborted : q.aborted = false) (async : q.async = true) (started : q.started = true) :
    0 < v.starts ∨ v.threads.length = 1 ∧ (q.finished = false → v.reaped = 0) := by
  have ok := good.query q query
  rcases Nat.eq_zero_or_pos v.starts with unselected | selected
  · obtain ⟨pc, only⟩ := ok.runs async started unselected
    have old := (good.thread.only (show v.At q.tid pc by simp [Slice.At, only])).2
    have live := old.live q query
    refine .inr ⟨by simp [only], fun unfinished => ?_⟩
    clear ok good old
    grind
  · exact .inl selected

theorem reaped_le_length (good : Good v) : v.reaped ≤ v.threads.length := by
  rcases good.thread with ⟨-, zero⟩ | ⟨tid, pc, only, old⟩
  · omega
  · simpa [only] using old.reaped

theorem active_le_share {id : Nat} (good : Good (slice s id)) (unstopped : Unstopped (slice s id)) :
    (if (s.mQueries id).any Query.active then 1 else 0) ≤ share s id := by
  have lengths : (s.poll.finishedThreads.countP fun ref => ref.query == id) ≤
    (s.threads id).length := reaped_le_length good
  cases query : s.mQueries id with
  | none =>
      simp only [share, shareOf, query, settled, Option.any_none, Bool.false_eq_true, if_false]
      omega
  | some q =>
      have ok := good.query q query
      have thread := thread_of_started good query (unstopped.unaborted q query)
      have selected := ok.selected
      simp only [slice] at thread selected
      simp only [share, shareOf, query, settled, Option.any_some, Query.active]
      clear ok good unstopped
      have empty : s.threads id = [] → (s.threads id).length = 0 := by
        rintro none
        simp [none]
      grind

theorem card_active_le (good : ∀ id, Good (slice s id)) (unstopped : ∀ id, Unstopped (slice s id)) :
    ((active s).card : Int) ≤ total s := by
  unfold active total
  rw [Finset.natCast_card_filter]
  exact Finset.sum_le_sum fun id _ => active_le_share (good id) (unstopped id)

theorem QueryMove.started {id tid x : Nat} {q q' : Query} (move : QueryMove s id tid s')
    (before : s.mQueries x = some q) (after : s'.mQueries x = some q') :
    q'.started = q.started := by
  by_cases here : x = id
  · subst here
    cases move with
    | @enter q₀ attempt _ query =>
        obtain ⟨_, _, control⟩ := enterAttempt_control s.connPrms q₀ attempt
        simp_all
    | @exec q₀ way attempt _ query =>
        obtain ⟨_, _, _, control⟩ := finishAttempt_control s.stopThreads q₀ way attempt
        simp_all
    | @lock q₀ _ query | @finish q₀ _ query =>
        simp_all
        grind
    | _ => simp_all
  · have same : s'.mQueries x = s.mQueries x := by cases move <;> simp [here]
    rw [same, before] at after
    cases after
    rfl

/-- A query is started only below the cap of its priority. -/
theorem started_below {a : Action} (run : machine.Reachable s) (moved : machine.step s a = some s')
    {id : Nat} {q q' : Query} (before : s.mQueries id = some q) (async : q.async = true)
    (unstarted : q.started = false) (after : s'.mQueries id = some q')
    (started : q'.started = true) :
    mayStart s q := by
  have ok := (good_of_reachable run id).query q before
  rcases machine_move moved with ⟨id', tid, move⟩ | move | move
  · simp [move.started before after, unstarted] at started
  · cases move with
    | @select id' todo q₀ _ _ query _ _ _ _ may =>
        by_cases here : id = id'
        · subst here
          obtain rfl : q = q₀ := Option.some.inj (before.symm.trans query)
          exact may
        · simp_all
    | @spent id' q₀ _ query | @release id' q₀ _ query =>
        obtain ⟨_, same⟩ := release_control _ id' q₀.removable
        rw [same] at after
        by_cases here : id = id' <;> simp_all <;> grind
    | @free id' _ q₀ _ _ query =>
        obtain ⟨_, _, _, control⟩ := freeQuery_control s.stopThreads q₀
        by_cases here : id = id' <;> simp_all
    | @erase id' _ _ query | @create id' _ _ _ _ query | @createFail id' _ _ _ _ query
    | @again id' _ _ query =>
        by_cases here : id = id' <;> simp_all [State.pollAt] <;> grind
    | _ => simp_all [State.pollAt, State.visited]
  · cases move with
    | prepare =>
        have inside : id ≤ s.queryNums := ok.made.1
        have here : id ≠ s.queryNums + 1 := by omega
        simp_all
    | @execQuery id' q₀ err stores natives query isHeld =>
        by_cases here : id = id'
        · subst here
          obtain rfl : q = q₀ := Option.some.inj (before.symm.trans query)
          simp [ok.started_of_held async (held_iff.1 isHeld)] at unstarted
        · simp_all
    | @freeQuery id' q₀ natives query isHeld =>
        obtain ⟨_, _, _, control⟩ := freeQuery_control s.stopThreads q₀
        by_cases here : id = id' <;> simp_all
    | @finish id' _ _ query | @abort id' _ _ _ query =>
        by_cases here : id = id'
        · simp_all [State.gameAt]
          grind
        · simp_all [State.gameAt]
    | _ => simp_all [State.gameAt]

/-! ## The accounts of every run -/

theorem accounts_of_reaches (run : machine.Reaches NoStop s) : Balanced s := by
  have both := Machine.Reaches.invariant (I := Balanced) ?_ ?_ run
  · exact both
  · rintro _ ⟨maxThreads, rfl⟩
    refine ⟨rfl, ?_⟩
    have zero : total (.start maxThreads) = 0 := by
      simp [total, share, shareOf, settled, State.start, Poll.idle]
    rw [zero]
    rfl
  · intro s a s' before balanced _ moved
    have good := good_of_reachable before.reachable
    exact ⟨numThreads_step good balanced.threads moved,
      balanced_step good (unstopped_of_reaches before) balanced.shares moved⟩

theorem bounded_of_reachable (run : machine.Reachable s) :
    threadsCount s ≤ s.maxThreads <<< maxQueryPriority := by
  refine Machine.Reaches.invariant
    (I := fun s => threadsCount s ≤ s.maxThreads <<< maxQueryPriority) ?_ ?_ run
  · rintro _ ⟨maxThreads, rfl⟩
    exact Int.natCast_nonneg _
  · intro s a s' _ bounded _ moved
    exact threadsCount_step bounded moved

theorem mem_active (run : machine.Reachable s) {id : Nat} :
    id ∈ active s ↔ ∃ q, s.mQueries id = some q ∧ q.async = true ∧ q.started = true ∧
      q.finished = false := by
  simp only [active, Finset.mem_filter, Finset.mem_range, Option.any_eq_true]
  constructor
  · rintro ⟨-, q, query, isActive⟩
    exact ⟨q, query, by simpa [Query.active, and_assoc] using isActive⟩
  · rintro ⟨q, query, flags⟩
    have made : id ≤ s.queryNums := ((good_of_reachable run id).query q query).made.1
    exact ⟨by omega, q, query, by simpa [Query.active, and_assoc] using flags⟩

/-- **Thread accounting.**  In every run without `stop`: between two passes `num_threads`
is the number of entries of `m_threads`; `threads_count()` is at least the number of
active queries; a query is started only below the cap of its priority; and no more than
`max_threads << MAX_QUERY_PRIORITY` queries are active. -/
theorem threads_bounded (run : machine.Reaches NoStop s) :
    (s.poll.pc = .idle → s.numThreads = s.mThreads.length) ∧
    (active s).card ≤ threadsCount s ∧
    (∀ a s' id q q', machine.step s a = some s' → s.mQueries id = some q → q.async = true →
      q.started = false → s'.mQueries id = some q' → q'.started = true →
      threadsCount s < s.maxThreads <<< (maxQueryPriority - q.pri)) ∧
    (active s).card ≤ s.maxThreads <<< maxQueryPriority := by
  have good := good_of_reachable run.reachable
  have balanced := accounts_of_reaches run
  have owed : 0 ≤ s.game.owed := by
    cases s.game <;> simp [GamePc.owed]
  have counted : ((active s).card : Int) ≤ threadsCount s := by
    have := card_active_le good (unstopped_of_reaches run)
    have := balanced.shares
    omega
  refine ⟨fun pc => ?_, counted,
    fun a s' id q q' moved before async unstarted after started => ?_, ?_⟩
  · have none : s.poll.startQueries = [] :=
      List.eq_nil_iff_forall_not_mem.2 fun id member =>
        Nat.ne_of_gt (List.count_pos_iff.2 member)
          ((good id).poll.starts (by simp [slice, pc, PollPc.phase])
            (by simp [slice, pc, PollPc.phase]))
    simpa [none] using balanced.threads
  · exact (started_below run.reachable moved before async unstarted after started).2
  · have bounded := bounded_of_reachable run.reachable
    exact Int.ofNat_le.1 (Int.le_trans counted bounded)

/-- `NoStop`, to be tested. -/
def noStop (_ : State) (a : Action) : Bool := decide (a ≠ .game .stop)

theorem noStop_sound (s : State) (a : Action) (ok : noStop s a = true) : NoStop s a := by
  simpa [noStop, NoStop] using ok

/-- One query, up to the moment its thread has been made. -/
def oneThread : List Action := .game (.pushQuery 1 0 0) :: pollSteps 6

theorem threads_bounded_oneThread : ∃ s, (active s).card = 1 ∧
    (s.poll.pc = .idle → s.numThreads = s.mThreads.length) ∧
    (active s).card ≤ threadsCount s ∧
    (∀ a s' id q q', machine.step s a = some s' → s.mQueries id = some q → q.async = true →
      q.started = false → s'.mQueries id = some q' → q'.started = true →
      threadsCount s < s.maxThreads <<< (maxQueryPriority - q.pri)) ∧
    (active s).card ≤ s.maxThreads <<< maxQueryPriority := by
  have ends : (machine.execIf noStop (.start 4) oneThread).map
      (fun s => decide ((active s).card = 1)) = some true := by decide
  obtain ⟨s, run, one⟩ := Machine.exists_reaches (M := machine) noStop_sound ⟨4, rfl⟩ ends
  exact ⟨s, of_decide_eq_true one, threads_bounded run⟩

/-- The queries with `started` and without `finished`, synchronous ones included. -/
def startedUnfinished (s : State) : Finset Nat :=
  (Finset.range (s.queryNums + 1)).filter fun id =>
    (s.mQueries id).any fun q => q.started && !q.finished

/-- `exec_query` starts a synchronous query on the game thread, and no counter knows it. -/
theorem not_all_started_counted : ¬ ∀ s, machine.Reaches NoStop s →
    (startedUnfinished s).card ≤ threadsCount s := by
  intro always
  have ends : (machine.execIf noStop (.start 4)
      [.game (.query (some ⟨true⟩) 0), .game (.execQuery 1 false false)]).map
        (fun s => decide ((startedUnfinished s).card = 1 ∧ threadsCount s = 0)) = some true := by
    decide
  obtain ⟨s, run, facts⟩ := Machine.exists_reaches (M := machine) noStop_sound ⟨4, rfl⟩ ends
  obtain ⟨one, none⟩ := of_decide_eq_true facts
  have := always s run
  omega

end Refsapi.Mysql
