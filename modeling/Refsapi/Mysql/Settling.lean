/-
# Mysql.Settling -- what the threads of the manager wait for

`poll_query` takes `threads_mutex` twice and joins threads, `run_query` takes `frame_mutex`, and
`stop` takes the second and inside it the first.  No circle comes of this: who holds
`threads_mutex` waits for nothing, and who holds `frame_mutex` waits for that one at most.

A step that goes on with what has begun takes something from `work`, so that a pass, a `stop`, a
frame and all attempts come to their end in every interleaving (`settles`), unless
`frame_forward` has the pointer of a query that is gone.
-/
import Mathlib
import Refsapi.Lib.Settling
import Refsapi.Mysql.Frames

namespace Refsapi.Mysql

set_option autoImplicit false

variable {s s' : State} {v v' : Slice}

/-! ## Who holds `threads_mutex` -/

/-- The polling thread is inside its first block. -/
def Phase.locked : Phase → Bool
  | .walk | .create => true
  | _ => false

/-- `stop` is in its walk over the queries. -/
def GamePc.aborts : GamePc → Bool
  | .abort _ => true
  | _ => false

structure ThreadsLock (s : State) : Prop where
  poll : s.threadsMutex = some .poll ↔ s.poll.pc.phase.locked = true
  game : s.threadsMutex = some .game ↔ s.game.aborts = true
  query : ∀ id tid, s.threadsMutex ≠ some (.query id tid)
  /-- What `stop` has still to abort is there. -/
  pending : ∀ todo, s.game = .abort todo → ∀ id ∈ todo, s.mQueries id ≠ none

theorem ThreadsLock.free (lock : ThreadsLock s) (poll : s.poll.pc.phase.locked = false)
    (game : s.game.aborts = false) : s.threadsMutex = none := by
  cases held : s.threadsMutex with
  | none => rfl
  | some party =>
      cases party with
      | poll => exact absurd (lock.poll.1 held) (by simp [poll])
      | game => exact absurd (lock.game.1 held) (by simp [game])
      | query id tid => exact absurd held (lock.query id tid)

/-- A step that keeps the mutex, the places that hold it and the queries. -/
theorem ThreadsLock.of_same (lock : ThreadsLock s) (mutex : s'.threadsMutex = s.threadsMutex)
    (poll : s'.poll.pc.phase.locked = s.poll.pc.phase.locked) (game : s'.game = s.game)
    (queries : ∀ id, s.mQueries id ≠ none → s'.mQueries id ≠ none) : ThreadsLock s' where
  poll := by rw [mutex, poll]; exact lock.poll
  game := by rw [mutex, game]; exact lock.game
  query := by rw [mutex]; exact lock.query
  pending todo aborts id member := queries id (lock.pending todo (game ▸ aborts) id member)

theorem setQuery_some_ne {id : Nat} {q : Query} (x : Nat) (present : s.mQueries x ≠ none) :
    (s.setQuery id (some q)).mQueries x ≠ none := by
  by_cases here : x = id
  · simp [State.setQuery, here]
  · simpa [State.setQuery, here] using present

theorem ThreadsLock.query_step {id tid : Nat} (lock : ThreadsLock s)
    (move : QueryMove s id tid s') : ThreadsLock s' := by
  cases move with
  | enter | exec | lock | finish => exact lock.of_same rfl rfl rfl setQuery_some_ne
  | _ => exact lock.of_same rfl rfl rfl fun _ present => present

theorem ThreadsLock.poll_step (lock : ThreadsLock s) (move : PollMove s s') :
    ThreadsLock s' := by
  have none_of (unlocked : s.threadsMutex = none) :
      s.poll.pc.phase.locked = false ∧ s.game.aborts = false := by
    constructor
    · rw [← Bool.not_eq_true, ← lock.poll, unlocked]
      simp
    · rw [← Bool.not_eq_true, ← lock.game, unlocked]
      simp
  have poll_of (locked : s.poll.pc.phase.locked = true) : s.game.aborts = false := by
    rw [← Bool.not_eq_true, ← lock.game, lock.poll.2 locked]
    simp
  cases move with
  | begin pc free =>
      have game := (none_of free).2
      refine ⟨by simp [PollPc.phase, Phase.locked], ?_, by simp, lock.pending⟩
      simp [game]
  | createEnd pc none =>
      have game := poll_of (by simp [pc, PollPc.phase, Phase.locked])
      refine ⟨by simp [State.pollAt, PollPc.phase, Phase.locked], ?_, by simp [State.pollAt],
        lock.pending⟩
      simp [State.pollAt, game]
  | erase pc query free =>
      have game := (none_of free).2
      refine ⟨lock.poll.trans ?_, lock.game, lock.query, fun todo aborts => ?_⟩
      · simp [State.pollAt, PollPc.phase, Phase.locked, pc]
      · have := aborts ▸ game
        simp [GamePc.aborts] at this
  | scanEnd pc | marked pc | reapYes pc | reapNo pc | reap pc | freeEnd pc | joinEnd pc =>
      refine lock.of_same rfl ?_ rfl fun _ present => present
      simp [State.pollAt, PollPc.phase, Phase.locked, Poll.idle, pc]
  | skip | join => exact lock.of_same rfl rfl rfl fun _ present => present
  | select | create | createFail => exact lock.of_same rfl rfl rfl setQuery_some_ne
  | again pc | free pc =>
      refine lock.of_same rfl ?_ rfl setQuery_some_ne
      simp [State.pollAt, PollPc.phase, Phase.locked, pc]
  | @spent id q pc =>
      obtain ⟨_, same⟩ := release_control
        (s.setQuery id (some { q with retryCount := q.retryCount + 1 })) id q.removable
      rw [same]
      exact lock.of_same rfl (by simp [PollPc.phase, Phase.locked, pc]) rfl setQuery_some_ne
  | @release id q pc =>
      obtain ⟨_, same⟩ := release_control s id q.removable
      rw [same]
      exact lock.of_same rfl (by simp [PollPc.phase, Phase.locked, pc]) rfl fun _ present => present

theorem ThreadsLock.game_step (lock : ThreadsLock s) (move : GameMove s s') :
    ThreadsLock s' := by
  cases move with
  | stopThreads pc free =>
      have poll : s.poll.pc.phase.locked = false := by
        rw [← Bool.not_eq_true, ← lock.poll, free]
        simp
      refine ⟨?_, by simp [State.gameAt, GamePc.aborts], by simp [State.gameAt], ?_⟩
      · simp [State.gameAt, poll]
      · intro todo aborts id member
        obtain rfl : queryOrder s = todo := by simpa [State.gameAt] using aborts
        obtain ⟨-, q, query, -⟩ := (mem_queryOrder s id).1 member
        simp [State.gameAt, query]
  | abortEnd pc =>
      have poll : s.poll.pc.phase.locked = false := by
        rw [← Bool.not_eq_true, ← lock.poll, lock.game.2 (by simp [pc, GamePc.aborts])]
        simp
      refine ⟨by simp [State.gameAt, poll], by simp [State.gameAt, GamePc.aborts],
        by simp [State.gameAt], fun todo aborts => by simp [State.gameAt] at aborts⟩
  | @abort id todo q pc query =>
      have held := lock.game.2 (by simp [pc, GamePc.aborts])
      refine ⟨lock.poll, by simp [State.gameAt, State.emit, State.setQuery, GamePc.aborts, held],
        lock.query, fun rest aborts x member => ?_⟩
      obtain rfl : todo = rest := by simpa [State.gameAt] using aborts
      exact setQuery_some_ne x (lock.pending _ pc x (List.mem_cons_of_mem _ member))
  | prepare | execQuery | freeQuery => exact lock.of_same rfl rfl rfl setQuery_some_ne
  | addConnect | badPriority => exact lock.of_same rfl rfl rfl fun _ present => present
  | startFrame pc | stop pc | turnBack pc | deliver pc | heapLow _ _ pc | callback pc | finish pc
  | count pc | stopFrames pc | unlock pc | clear pc =>
      refine ⟨lock.poll, lock.game.trans ?_, lock.query, fun todo aborts => ?_⟩
      · simp [State.gameAt, GamePc.aborts, pc]
      · simp [State.gameAt] at aborts

theorem threadsLock_of_reachable (run : machine.Reachable s) : ThreadsLock s := by
  refine Machine.Reaches.invariant (I := ThreadsLock) ?_ ?_ run
  · rintro _ ⟨maxThreads, rfl⟩
    constructor <;> simp [State.start, Poll.idle, PollPc.phase, Phase.locked, GamePc.aborts]
  · intro s a s' _ lock _ moved
    rcases machine_move moved with ⟨id, tid, move⟩ | move | move
    · exact lock.query_step move
    · exact lock.poll_step move
    · exact lock.game_step move

/-! ## Who holds `frame_mutex` -/

/-- A thread that pushes, or `stop`. -/
def FrameHeld (s : State) : Prop :=
  s.frameMutex = none ∨ (∃ id tid, ⟨tid, .push⟩ ∈ s.threads id) ∨ s.game = .stopThreads ∨
    s.game.aborts = true

theorem FrameHeld.of_same (held : FrameHeld s) (mutex : s'.frameMutex = s.frameMutex)
    (threads : ∀ id tid, ⟨tid, .push⟩ ∈ s.threads id → ⟨tid, .push⟩ ∈ s'.threads id)
    (game : s'.game = s.game) : FrameHeld s' := by
  rw [FrameHeld, mutex, game]
  rcases held with free | ⟨id, tid, pushes⟩ | stops
  · exact .inl free
  · exact .inr (.inl ⟨id, tid, threads id tid pushes⟩)
  · exact .inr (.inr stops)

/-- A thread that does not push goes on. -/
theorem pushes_goto {id tid : Nat} {pc pc' : RunPc} (good : Good (slice s id))
    (thread : At s id tid pc) (other : pc ≠ .push) (x y : Nat)
    (pushes : ⟨y, .push⟩ ∈ s.threads x) : ⟨y, .push⟩ ∈ (s.goto id tid pc').threads x := by
  by_cases here : x = id
  · subst here
    have only : s.threads x = [⟨tid, pc⟩] := (good.thread.only thread).1
    rw [only, List.mem_singleton, Thread.mk.injEq] at pushes
    exact absurd pushes.2.symm other
  · simpa [State.goto, State.setThreads, here] using pushes

theorem FrameHeld.query_step {id tid : Nat} (good : Good (slice s id)) (held : FrameHeld s)
    (move : QueryMove s id tid s') : FrameHeld s' := by
  cases move with
  | lock thread =>
      have only : s.threads id = [⟨tid, .lock⟩] := (good.thread.only thread).1
      refine .inr (.inl ⟨id, tid, ?_⟩)
      simp [State.goto, State.setThreads, State.setQuery, only]
  | push => exact .inl rfl
  | turnBack thread | start thread | retestBack thread | retestOn thread | finish thread
  | count thread => exact held.of_same rfl (pushes_goto good thread (by simp)) rfl
  | enter attempt thread | exec attempt thread =>
      exact held.of_same rfl (pushes_goto good thread (by simp)) rfl

theorem FrameHeld.poll_step (good : ∀ id, Good (slice s id)) (held : FrameHeld s)
    (move : PollMove s s') : FrameHeld s' := by
  cases move with
  | @create id rest q pc head query =>
      refine held.of_same rfl (fun x y pushes => ?_) rfl
      by_cases here : x = id
      · subst here
        simp [State.setThreads, State.setQuery, pushes]
      · simpa [State.setThreads, State.setQuery, here] using pushes
  | @join ref rest pc head returned =>
      have only : s.threads ref.query = [⟨ref.tid, .returned⟩] :=
        (good ref.query).thread.reaps returned
      refine held.of_same rfl (fun x y pushes => ?_) rfl
      by_cases here : x = ref.query
      · rw [here, only] at pushes
        simp at pushes
      · simpa [State.setThreads, here] using pushes
  | @spent id q pc =>
      obtain ⟨_, same⟩ := release_control
        (s.setQuery id (some { q with retryCount := q.retryCount + 1 })) id q.removable
      rw [same]
      exact held.of_same rfl (fun _ _ pushes => pushes) rfl
  | @release id q pc =>
      obtain ⟨_, same⟩ := release_control s id q.removable
      rw [same]
      exact held.of_same rfl (fun _ _ pushes => pushes) rfl
  | _ => exact held.of_same rfl (fun _ _ pushes => pushes) rfl

theorem FrameHeld.game_step (held : FrameHeld s) (move : GameMove s s') : FrameHeld s' := by
  cases move with
  | stopFrames => exact .inr (.inr (.inl rfl))
  | stopThreads | abort => exact .inr (.inr (.inr rfl))
  | abortEnd => exact .inl rfl
  | addConnect | badPriority | prepare | execQuery | freeQuery =>
      exact held.of_same rfl (fun _ _ pushes => pushes) rfl
  | startFrame pc | stop pc | turnBack pc | deliver pc | heapLow _ _ pc | callback pc | finish pc
  | count pc | unlock pc | clear pc =>
      rcases held with free | pushes | stops | aborts
      · exact .inl free
      · exact .inr (.inl pushes)
      · exact absurd (stops.symm.trans pc) (by simp)
      · simp [pc, GamePc.aborts] at aborts

theorem frameHeld_of_reachable (run : machine.Reachable s) : FrameHeld s := by
  refine Machine.Reaches.invariant (I := FrameHeld) ?_ ?_ run
  · rintro _ ⟨maxThreads, rfl⟩
    exact .inl rfl
  · intro s a s' before held _ moved
    rcases machine_move moved with ⟨id, tid, move⟩ | move | move
    · exact held.query_step (good_of_reachable before id) move
    · exact held.poll_step (good_of_reachable before) move
    · exact held.game_step move

/-! ## `m_threads` -/

/-- The threads that run a query and have not been joined. -/
def tids (s : State) (id : Nat) : List Nat := (s.threads id).map Thread.tid

/-- Thread ids are new, `m_threads` has those that are not taken out of it to be joined, and
what is to be joined is a thread. -/
structure Keys (s : State) : Prop where
  below : ∀ id, ∀ tid ∈ tids s id, tid < s.nextTid
  apart : ∀ id x, ∀ tid ∈ tids s id, tid ∈ tids s x → id = x
  refs : ∀ ref ∈ s.poll.finishedThreads, ref.tid ∈ tids s ref.query
  kept : ∀ id, (∀ ref ∈ s.poll.finishedThreads, ref.query ≠ id) →
    ∀ tid ∈ tids s id, tid ∈ s.mThreads

theorem Keys.of_same (keys : Keys s) (threads : ∀ id, tids s' id = tids s id)
    (next : s'.nextTid = s.nextTid) (refs : s'.poll.finishedThreads = s.poll.finishedThreads)
    (mThreads : s'.mThreads = s.mThreads) : Keys s' where
  below id tid member := by rw [next]; exact keys.below id tid (threads id ▸ member)
  apart id x tid one other := keys.apart id x tid (threads id ▸ one) (threads x ▸ other)
  refs ref member := by rw [threads]; exact keys.refs ref (refs ▸ member)
  kept id free tid member := by
    rw [mThreads]
    exact keys.kept id (refs ▸ free) tid (threads id ▸ member)

theorem tids_goto (s : State) (id tid : Nat) (pc : RunPc) (x : Nat) :
    tids (s.goto id tid pc) x = tids s x := by
  by_cases here : x = id
  · subst here
    have same : (Thread.tid ∘ fun t : Thread => if t.tid = tid then { t with pc } else t) =
        Thread.tid := by
      funext t
      simp only [Function.comp_apply]
      split <;> rfl
    simp [tids, State.goto, State.setThreads, same]
  · simp [tids, State.goto, State.setThreads, here]

theorem Keys.query_step {id tid : Nat} (keys : Keys s) (move : QueryMove s id tid s') :
    Keys s' := by
  cases move <;> exact keys.of_same (tids_goto _ id tid _) rfl rfl rfl

/-- No thread of the query is to be joined. -/
theorem refs_apart {id : Nat} (none : (slice s id).reaped = 0) :
    ∀ ref ∈ s.poll.finishedThreads, ref.query ≠ id := by
  intro ref member same
  have positive : 0 < (slice s id).reaped :=
    List.countP_pos_iff.2 ⟨ref, member, beq_iff_eq.2 same⟩
  rw [none] at positive
  exact Nat.lt_irrefl 0 positive

/-- The polling thread has nothing to join. -/
theorem finishedThreads_nil (none : ∀ id, (slice s id).reaped = 0) :
    s.poll.finishedThreads = [] :=
  List.eq_nil_iff_forall_not_mem.2 fun ref member => refs_apart (none ref.query) ref member rfl

/-- The query whose thread is reaped has one, which is reaped once. -/
theorem reap_thread (good : ∀ id, Good (slice s id)) {id : Nat} {q : Query}
    (pc : s.poll.pc = .reap id) (query : s.mQueries id = some q) :
    q.tid ∈ tids s id ∧ (slice s id).reaped = 0 := by
  have ok := (good id).query q query
  have visit : (slice s id).visit = .reap := by simp [slice, pc, PollPc.visit]
  have unselected : (slice s id).starts = 0 := by
    have once := (good id).poll.once
    rw [visit, if_neg (by simp)] at once
    omega
  obtain ⟨async, started, -⟩ := ok.reaps visit
  obtain ⟨place, only⟩ := ok.runs async started unselected
  have thread : s.threads id = [⟨q.tid, place⟩] := only
  refine ⟨by simp [tids, thread], ?_⟩
  have old := ((good id).thread.only (show (slice s id).At q.tid place by
    simp [Slice.At, only])).2
  rcases (old.live q query).2.2 with ⟨-, -, -, reaped⟩ | ⟨unstarted, -⟩
  · by_contra positive
    obtain ⟨places, -⟩ := reaped (Nat.pos_of_ne_zero positive)
    rw [visit] at places
    have unfinished := (good id).poll.once
    rw [visit, if_neg (by simp)] at unfinished
    rcases places with places | places | places
    · cases places
    · omega
    · cases places
  · rw [started] at unstarted
    cases unstarted

/-- A new thread. -/
theorem Keys.created {id : Nat} (keys : Keys s) (none : s.threads id = [])
    (threads : s'.threads = Function.update s.threads id (s.threads id ++ [⟨s.nextTid, .test⟩]))
    (next : s'.nextTid = s.nextTid + 1) (mThreads : s'.mThreads = s.mThreads ++ [s.nextTid])
    (refs : s'.poll.finishedThreads = s.poll.finishedThreads) : Keys s' := by
  have here : tids s' id = [s.nextTid] := by simp [tids, threads, none]
  have there (x : Nat) (other : x ≠ id) : tids s' x = tids s x := by simp [tids, threads, other]
  have others (ref : ThreadRef) (member : ref ∈ s.poll.finishedThreads) : ref.query ≠ id := by
    intro same
    have thread := keys.refs ref member
    simp [tids, same, none] at thread
  refine ⟨fun x tid member => ?_, fun x y tid one other => ?_, fun ref member => ?_,
    fun x free tid member => ?_⟩
  · rw [next]
    by_cases same : x = id
    · rw [same, here, List.mem_singleton] at member
      omega
    · have below := keys.below x tid (there x same ▸ member)
      omega
  · by_cases isX : x = id <;> by_cases isY : y = id
    · rw [isX, isY]
    · rw [isX, here, List.mem_singleton] at one
      have below := keys.below y tid (there y isY ▸ other)
      omega
    · rw [isY, here, List.mem_singleton] at other
      have below := keys.below x tid (there x isX ▸ one)
      omega
    · exact keys.apart x y tid (there x isX ▸ one) (there y isY ▸ other)
  · rw [refs] at member
    rw [there _ (others ref member)]
    exact keys.refs ref member
  · rw [mThreads]
    by_cases same : x = id
    · rw [same, here] at member
      exact List.mem_append_right _ member
    · exact List.mem_append_left _ (keys.kept x (refs ▸ free) tid (there x same ▸ member))

/-- The thread of `ref` is joined. -/
theorem Keys.joined {ref : ThreadRef} {rest : List ThreadRef} (keys : Keys s)
    (head : s.poll.finishedThreads = ref :: rest)
    (only : s.threads ref.query = [⟨ref.tid, .returned⟩])
    (once : (slice s ref.query).reaped ≤ 1)
    (threads : s'.threads = Function.update s.threads ref.query
      ((s.threads ref.query).erase ⟨ref.tid, .returned⟩))
    (next : s'.nextTid = s.nextTid) (mThreads : s'.mThreads = s.mThreads)
    (refs : s'.poll.finishedThreads = rest) : Keys s' := by
  have here : tids s' ref.query = [] := by simp [tids, threads, only]
  have there (x : Nat) (other : x ≠ ref.query) : tids s' x = tids s x := by
    simp [tids, threads, other]
  have old {x tid : Nat} (member : tid ∈ tids s' x) : x ≠ ref.query ∧ tid ∈ tids s x := by
    by_cases same : x = ref.query
    · rw [same, here] at member
      cases member
    · exact ⟨same, there x same ▸ member⟩
  have others (r : ThreadRef) (member : r ∈ rest) : r.query ≠ ref.query := by
    intro same
    have again : 0 < rest.countP fun x => x.query == ref.query :=
      List.countP_pos_iff.2 ⟨r, member, beq_iff_eq.2 same⟩
    have twice : (slice s ref.query).reaped = (rest.countP fun x => x.query == ref.query) + 1 := by
      simp [slice, head]
    omega
  refine ⟨fun x tid member => ?_, fun x y tid one other => ?_, fun r member => ?_,
    fun x free tid member => ?_⟩
  · rw [next]
    exact keys.below x tid (old member).2
  · exact keys.apart x y tid (old one).2 (old other).2
  · rw [refs] at member
    rw [there _ (others r member)]
    exact keys.refs r (head ▸ List.mem_cons_of_mem _ member)
  · obtain ⟨other, before⟩ := old member
    rw [mThreads]
    refine keys.kept x (fun r listed => ?_) tid before
    rw [head] at listed
    rcases List.mem_cons.1 listed with rfl | later
    · exact Ne.symm other
    · exact free r (refs ▸ later)

theorem Keys.poll_step (good : ∀ id, Good (slice s id)) (keys : Keys s) (move : PollMove s s') :
    Keys s' := by
  cases move with
  | begin pc =>
      have none := finishedThreads_nil fun id =>
        (good id).poll.reaped (by simp [slice, pc, PollPc.phase])
      exact keys.of_same (fun _ => rfl) rfl none.symm rfl
  | joinEnd pc none => exact keys.of_same (fun _ => rfl) rfl none.symm rfl
  | @reap id q pc query found =>
      obtain ⟨thread, unreaped⟩ := reap_thread good pc query
      refine ⟨keys.below, keys.apart, fun ref member => ?_, fun x free tid member => ?_⟩
      · rcases List.mem_append.1 member with before | new
        · exact keys.refs ref before
        · rw [List.mem_singleton.1 new]
          exact thread
      · have other : x ≠ id := fun same =>
          free ⟨q.tid, id⟩ (List.mem_append_right _ (List.mem_singleton_self _)) same.symm
        have before : tid ∈ s.mThreads :=
          keys.kept x (fun ref listed => free ref (List.mem_append_left _ listed)) tid member
        refine (List.mem_erase_of_ne ?_).2 before
        rintro rfl
        exact other (keys.apart x id _ member thread)
  | @create id rest q pc head query =>
      have selected : 0 < (slice s id).starts := by simp [slice, head]
      have none : s.threads id = [] := (((good id).query q query).selected selected).2.2.2.2.2
      exact keys.created none rfl rfl rfl rfl
  | @join ref rest pc head returned =>
      have only : s.threads ref.query = [⟨ref.tid, .returned⟩] :=
        (good ref.query).thread.reaps returned
      have thread : (slice s ref.query).At ref.tid .returned := by
        simp [Slice.At, show (slice s ref.query).threads = _ from only]
      exact keys.joined head only ((good ref.query).thread.only thread).2.reaped rfl rfl rfl rfl
  | @spent id q pc =>
      obtain ⟨_, same⟩ := release_control
        (s.setQuery id (some { q with retryCount := q.retryCount + 1 })) id q.removable
      rw [same]
      exact keys.of_same (fun _ => rfl) rfl rfl rfl
  | @release id q pc =>
      obtain ⟨_, same⟩ := release_control s id q.removable
      rw [same]
      exact keys.of_same (fun _ => rfl) rfl rfl rfl
  | _ => exact keys.of_same (fun _ => rfl) rfl rfl rfl

theorem keys_of_reachable (run : machine.Reachable s) : Keys s := by
  refine Machine.Reaches.invariant (I := Keys) ?_ ?_ run
  · rintro _ ⟨maxThreads, rfl⟩
    constructor <;> simp [State.start, Poll.idle, tids]
  · intro s a s' before keys _ moved
    rcases machine_move moved with ⟨id, tid, move⟩ | move | move
    · exact keys.query_step move
    · exact keys.poll_step (good_of_reachable before) move
    · cases move <;> exact keys.of_same (fun _ => rfl) rfl rfl rfl

/-! ## Steps that can be taken -/

/-- What the polling thread holds is there. -/
theorem exists_polled {id : Nat} (good : Good (slice s id))
    (held : id ∈ s.poll.todo ∨ id ∈ s.poll.startQueries ∨ id ∈ s.poll.finishedQueries ∨
      s.poll.pc.visit id ≠ .none) : ∃ q, s.mQueries id = some q := by
  refine Option.ne_none_iff_exists'.1 fun gone => ?_
  obtain ⟨todo, starts, finished, visit⟩ := good.poll.gone gone
  rcases held with member | member | member | visits
  · exact (List.count_pos_iff.2 member).ne' todo
  · exact (List.count_pos_iff.2 member).ne' starts
  · exact (List.count_pos_iff.2 member).ne' finished
  · exact visits visit

/-- In its first block the polling thread waits for nothing, and every thread that it looks up
is in `m_threads`. -/
theorem pollStep_of_locked (run : machine.Reachable s) (locked : s.poll.pc.phase.locked = true) :
    pollStep true s ≠ none := by
  have good := good_of_reachable run
  simp only [pollStep]
  cases pc : s.poll.pc with
  | idle | free | join => simp [pc, PollPc.phase, Phase.locked] at locked
  | erase id => simp [pc, PollPc.phase, Phase.locked] at locked
  | scan =>
      cases head : s.poll.todo with
      | nil => simp
      | cons id todo =>
          obtain ⟨q, query⟩ := exists_polled (good id) (.inl (head ▸ List.mem_cons_self))
          simp only [query]
          split
          · simp
          · split <;> simp
  | reapTest id =>
      obtain ⟨q, query⟩ := exists_polled (good id) (.inr (.inr (.inr (by simp [pc, PollPc.visit]))))
      simp only [query]
      split <;> simp
  | reap id =>
      obtain ⟨q, query⟩ := exists_polled (good id) (.inr (.inr (.inr (by simp [pc, PollPc.visit]))))
      obtain ⟨thread, unreaped⟩ := reap_thread good pc query
      have found := (keys_of_reachable run).kept id (refs_apart unreaped) q.tid thread
      simp [query, found]
  | retry id =>
      obtain ⟨q, query⟩ := exists_polled (good id) (.inr (.inr (.inr (by simp [pc, PollPc.visit]))))
      simp only [query]
      split
      · split <;> simp
      · simp
  | create =>
      cases head : s.poll.startQueries with
      | nil => simp
      | cons id rest =>
          obtain ⟨q, query⟩ := exists_polled (good id) (.inr (.inl (head ▸ List.mem_cons_self)))
          simp [query]

/-- Outside it waits for `threads_mutex` and for the threads that it joins. -/
theorem pollStep_of_free (run : machine.Reachable s) (free : s.threadsMutex = none)
    (threads : ∀ id, ∀ t ∈ s.threads id, t.pc = .returned) : pollStep true s ≠ none := by
  have good := good_of_reachable run
  by_cases locked : s.poll.pc.phase.locked = true
  · exact pollStep_of_locked run locked
  · simp only [pollStep]
    cases pc : s.poll.pc with
    | scan | create => simp [pc, PollPc.phase, Phase.locked] at locked
    | reapTest id | reap id | retry id => simp [pc, PollPc.phase, Phase.locked] at locked
    | idle => simp [free]
    | free =>
        cases head : s.poll.finishedQueries with
        | nil => simp
        | cons id rest =>
            obtain ⟨q, query⟩ :=
              exists_polled (good id) (.inr (.inr (.inl (head ▸ List.mem_cons_self))))
            simp [query]
    | erase id =>
        obtain ⟨q, query⟩ :=
          exists_polled (good id) (.inr (.inr (.inr (by simp [pc, PollPc.visit]))))
        simp [query, free]
    | join =>
        cases head : s.poll.finishedThreads with
        | nil => simp
        | cons ref rest =>
            have listed : ref ∈ s.poll.finishedThreads := head ▸ List.mem_cons_self
            obtain ⟨t, member, same⟩ := List.mem_map.1 ((keys_of_reachable run).refs ref listed)
            have returned : ⟨ref.tid, .returned⟩ ∈ s.threads ref.query := by
              rw [← same, ← threads ref.query t member]
              exact member
            simp [returned]

/-- A query thread waits for `frame_mutex` only. -/
theorem queryStep_of_free {id : Nat} {t : Thread} (run : machine.Reachable s)
    (member : t ∈ s.threads id) (busy : t.pc ≠ .returned)
    (free : t.pc = .lock → s.frameMutex = none) (attempt : Attempt) :
    queryStep id t.tid attempt s ≠ none := by
  have good := good_of_reachable run id
  obtain ⟨tid, pc⟩ := t
  have only : s.threads id = [⟨tid, pc⟩] := by
    rcases good.thread with ⟨none, -⟩ | ⟨tid', pc', only, -⟩
    · rw [show s.threads id = [] from none] at member
      cases member
    · have isOnly : s.threads id = [⟨tid', pc'⟩] := only
      rw [isOnly] at member
      rw [isOnly, List.mem_singleton.1 member]
  have thread : (slice s id).At tid pc := by
    simp [Slice.At, show (slice s id).threads = _ from only]
  have early : pc.early = true → ∃ q, s.mQueries id = some q := by
    intro isEarly
    refine Option.ne_none_iff_exists'.1 fun gone => ?_
    rw [(good.thread.only thread).2.gone gone] at isEarly
    cases isEarly
  unfold queryStep
  simp only [only, List.find?_cons, beq_self_eq_true]
  cases pc with
  | returned => exact absurd rfl busy
  | push | count => simp
  | lock =>
      obtain ⟨q, query⟩ := early rfl
      simp [query, free rfl]
  | test =>
      obtain ⟨q, query⟩ := early rfl
      simp only [query]
      split <;> simp
  | retest =>
      obtain ⟨q, query⟩ := early rfl
      simp only [query]
      split
      · simp
      · split <;> simp
  | enter | finish =>
      obtain ⟨q, query⟩ := early rfl
      simp [query]
  | exec way =>
      obtain ⟨q, query⟩ := early rfl
      simp [query]

/-- The frame that the game thread forwards is that of a query that is gone. -/
def State.Dangles (s : State) : Prop :=
  ∃ id, (s.game = .forward id ∨ s.game = .finish id) ∧ s.mQueries id = none

/-- The game thread waits for the two mutexes. -/
theorem gameNext_of_free (run : machine.Reachable s) (busy : s.game ≠ .idle)
    (sound : ¬ s.Dangles) (frames : s.game = .stopFrames → s.frameMutex = none)
    (threads : s.game = .stopThreads → s.threadsMutex = none) (error data : Bool) :
    gameNext error data s ≠ none := by
  simp only [gameNext]
  cases game : s.game with
  | idle => exact absurd game busy
  | forward id =>
      have present : s.mQueries id ≠ none := fun gone => sound ⟨id, .inl game, gone⟩
      obtain ⟨q, query⟩ := Option.ne_none_iff_exists'.1 present
      simp only [query]
      split
      · simp
      · split <;> simp
  | finish id =>
      have present : s.mQueries id ≠ none := fun gone => sound ⟨id, .inr game, gone⟩
      obtain ⟨q, query⟩ := Option.ne_none_iff_exists'.1 present
      simp [query]
  | stopFrames => simp [frames game]
  | stopThreads => simp [threads game]
  | abort todo =>
      cases todo with
      | nil => simp
      | cons id todo =>
          have present := (threadsLock_of_reachable run).pending _ game id List.mem_cons_self
          obtain ⟨q, query⟩ := Option.ne_none_iff_exists'.1 present
          simp [query]
  | _ => simp

/-! ## The work that is left -/

/-- A step that goes on with what has begun.  A pass of `poll_query` begins when the polling
thread wakes up, the rest when the engine or a plugin calls. -/
def Settling (s : State) : Action → Prop
  | .game (.next _ _) => True
  | .game _ => False
  | .poll _ => s.poll.pc ≠ .idle
  | .query .. => True

def RunPc.work : RunPc → Nat
  | .test => 6
  | .enter => 5
  | .exec _ => 4
  | .retest => 3
  | .lock | .finish => 2
  | .push | .count => 1
  | .returned => 0

def PollPc.work : PollPc → Nat
  | .idle => 0
  | .scan => 4
  | .reapTest _ => 10
  | .reap _ => 9
  | .retry _ => 7
  | .create | .erase _ => 3
  | .free => 2
  | .join => 1

/-- With the thread that a query may get, and the release of one. -/
def Poll.work (p : Poll) : Nat :=
  8 * p.todo.length + 7 * p.startQueries.length + 2 * p.finishedQueries.length +
    p.finishedThreads.length + p.pc.work

def GamePc.work (queryNums : Nat) : GamePc → Nat
  | .idle => 0
  | .forward _ => 4
  | .callback _ => 3
  | .finish _ | .unlock => 2
  | .count | .clear => 1
  | .stopFrames => queryNums + 6
  | .stopThreads => queryNums + 5
  | .abort todo => todo.length + 3

/-- What the threads of a query have still to do. -/
def attemptsWork (s : State) (id : Nat) : Nat := ((s.threads id).map fun t => t.pc.work).sum

/-- An upper bound of the steps that are left. -/
def work (s : State) : Nat :=
  s.poll.work + s.game.work s.queryNums +
    ∑ id ∈ Finset.range (s.queryNums + 1), attemptsWork s id

theorem queryOrder_length_le (s : State) : (queryOrder s).length ≤ s.queryNums + 1 := by
  have inside : queryOrder s ⊆ List.range (s.queryNums + 1) := by
    intro id member
    have made := ((mem_queryOrder s id).1 member).1
    exact List.mem_range.2 (by omega)
  have short := (List.subperm_of_subset (nodup_queryOrder s) inside).length_le
  rwa [List.length_range] at short

/-- The game thread goes on. -/
theorem gameNext_work {error data : Bool} (moved : gameNext error data s = some s') :
    s'.game.work s'.queryNums < s.game.work s.queryNums ∧ s'.poll = s.poll ∧
      s'.threads = s.threads ∧ s'.queryNums = s.queryNums := by
  have order := queryOrder_length_le s
  simp only [gameNext] at moved
  cases game : s.game with
  | idle => simp [game] at moved
  | forward id =>
      cases query : s.mQueries id with
      | none => simp [game, query] at moved
      | some q =>
          simp only [game, query] at moved
          split at moved
          · cases moved
            exact ⟨by simp [GamePc.work], rfl, rfl, rfl⟩
          · split at moved <;> cases moved <;> exact ⟨by simp [GamePc.work], rfl, rfl, rfl⟩
  | finish id =>
      cases query : s.mQueries id with
      | none => simp [game, query] at moved
      | some q =>
          simp only [game, query] at moved
          cases moved
          exact ⟨by simp [GamePc.work], rfl, rfl, rfl⟩
  | stopFrames =>
      simp only [game] at moved
      split at moved <;> cases moved
      exact ⟨by simp [GamePc.work], rfl, rfl, rfl⟩
  | stopThreads =>
      simp only [game] at moved
      split at moved <;> cases moved
      exact ⟨by simp only [GamePc.work]; omega, rfl, rfl, rfl⟩
  | abort todo =>
      cases todo with
      | nil =>
          simp only [game] at moved
          cases moved
          exact ⟨by simp [GamePc.work], rfl, rfl, rfl⟩
      | cons id todo =>
          cases query : s.mQueries id with
          | none => simp [game, query] at moved
          | some q =>
              simp only [game, query] at moved
              cases moved
              exact ⟨by simp [GamePc.work], rfl, rfl, rfl⟩
  | callback id | count | unlock | clear =>
      simp only [game] at moved
      cases moved
      exact ⟨by simp [GamePc.work], rfl, rfl, rfl⟩

/-- A thread goes on. -/
theorem QueryMove.advances {id tid : Nat} (move : QueryMove s id tid s') :
    ∃ pc pc', At s id tid pc ∧ s'.threads = (s.goto id tid pc').threads ∧ pc'.work < pc.work ∧
      s'.poll = s.poll ∧ s'.game = s.game ∧ s'.queryNums = s.queryNums := by
  cases move with
  | turnBack thread => exact ⟨_, .finish, thread, rfl, by decide, rfl, rfl, rfl⟩
  | start thread => exact ⟨_, .enter, thread, rfl, by decide, rfl, rfl, rfl⟩
  | enter attempt thread => exact ⟨_, _, thread, rfl, by simp [RunPc.work], rfl, rfl, rfl⟩
  | exec attempt thread => exact ⟨_, .retest, thread, rfl, by simp [RunPc.work], rfl, rfl, rfl⟩
  | retestBack thread => exact ⟨_, .finish, thread, rfl, by decide, rfl, rfl, rfl⟩
  | retestOn thread => exact ⟨_, .lock, thread, rfl, by decide, rfl, rfl, rfl⟩
  | lock thread => exact ⟨_, .push, thread, rfl, by decide, rfl, rfl, rfl⟩
  | push thread => exact ⟨_, .returned, thread, rfl, by decide, rfl, rfl, rfl⟩
  | finish thread => exact ⟨_, .count, thread, rfl, by decide, rfl, rfl, rfl⟩
  | count thread => exact ⟨_, .returned, thread, rfl, by decide, rfl, rfl, rfl⟩

theorem QueryMove.work_lt {id tid : Nat} (good : Good (slice s id))
    (move : QueryMove s id tid s') : work s' < work s := by
  obtain ⟨pc, pc', thread, threads, less, poll, game, nums⟩ := move.advances
  have only : s.threads id = [⟨tid, pc⟩] := (good.thread.only thread).1
  have made : id ≤ s.queryNums := (good.thread.only thread).2.made
  have before : attemptsWork s id = pc.work := by simp [attemptsWork, only]
  have after : attemptsWork s' id = pc'.work := by
    simp [attemptsWork, threads, State.goto, State.setThreads, only]
  have others (x : Nat) (other : x ≠ id) : attemptsWork s' x = attemptsWork s x := by
    simp [attemptsWork, threads, State.goto, State.setThreads, other]
  have member : id ∈ Finset.range (s.queryNums + 1) := Finset.mem_range.2 (Nat.lt_succ_of_le made)
  have sum := Machine.sum_moved member others
  rw [work, work, poll, game, nums]
  omega

/-- The polling thread goes on, with the threads as they are. -/
theorem work_lt_of_poll (threads : s'.threads = s.threads) (game : s'.game = s.game)
    (nums : s'.queryNums = s.queryNums) (less : s'.poll.work < s.poll.work) : work s' < work s := by
  have same : attemptsWork s' = attemptsWork s := by
    funext id
    rw [attemptsWork, attemptsWork, threads]
  rw [work, work, game, nums, same]
  omega

/-- The polling thread goes on, and makes or joins a thread. -/
theorem work_lt_of_thread {id : Nat} (made : id ≤ s.queryNums)
    (others : ∀ x, x ≠ id → attemptsWork s' x = attemptsWork s x) (game : s'.game = s.game)
    (nums : s'.queryNums = s.queryNums)
    (less : s'.poll.work + attemptsWork s' id < s.poll.work + attemptsWork s id) :
    work s' < work s := by
  have member : id ∈ Finset.range (s.queryNums + 1) := Finset.mem_range.2 (Nat.lt_succ_of_le made)
  have sum := Machine.sum_moved member others
  rw [work, work, game, nums]
  omega

/-- A query is marked for release or not. -/
theorem release_work_lt {id : Nat} (removable : Bool) (pc : s.poll.pc = .retry id) :
    (s.release id removable).poll.work < s.poll.work := by
  unfold State.release
  split
  · simp [Poll.work, PollPc.work, pc]
    omega
  · simp [Poll.work, PollPc.work, pc]

theorem PollMove.work_lt (good : ∀ id, Good (slice s id)) (begun : s.poll.pc ≠ .idle)
    (move : PollMove s s') : work s' < work s := by
  cases move with
  | begin pc => exact absurd pc begun
  | @create id rest q pc head query =>
      have selected : 0 < (slice s id).starts := by simp [slice, head]
      have ok := (good id).query q query
      have none : s.threads id = [] := (ok.selected selected).2.2.2.2.2
      refine work_lt_of_thread ok.made.1 (fun x other => ?_) rfl rfl ?_
      · simp [attemptsWork, State.setThreads, State.setQuery, other]
      · simp [attemptsWork, State.setThreads, State.setQuery, none, Poll.work, head, RunPc.work]
        omega
  | @join ref rest pc head returned =>
      have only : s.threads ref.query = [⟨ref.tid, .returned⟩] :=
        (good ref.query).thread.reaps returned
      have made : ref.query ≤ s.queryNums := by
        by_contra unmade
        have none := ((good ref.query).poll.unmade unmade).2.1
        rw [show s.threads ref.query = [] from none] at only
        cases only
      refine work_lt_of_thread made (fun x other => ?_) rfl rfl ?_
      · simp [attemptsWork, State.setThreads, other]
      · simp [attemptsWork, State.setThreads, only, Poll.work, head]
        omega
  | @spent id q pc =>
      obtain ⟨_, same⟩ := release_control
        (s.setQuery id (some { q with retryCount := q.retryCount + 1 })) id q.removable
      refine work_lt_of_poll (same ▸ rfl) (same ▸ rfl) (same ▸ rfl) ?_
      exact release_work_lt (s := s.setQuery id _) q.removable pc
  | @release id q pc =>
      obtain ⟨_, same⟩ := release_control s id q.removable
      exact work_lt_of_poll (same ▸ rfl) (same ▸ rfl) (same ▸ rfl) (release_work_lt _ pc)
  | scanEnd pc none | freeEnd pc none | createEnd pc none =>
      refine work_lt_of_poll rfl rfl rfl ?_
      simp [Poll.work, PollPc.work, State.pollAt, pc]
  | marked pc head | skip pc head =>
      refine work_lt_of_poll rfl rfl rfl ?_
      simp only [Poll.work, PollPc.work, State.pollAt, State.visited, pc, head, List.length_cons]
      omega
  | select pc head =>
      refine work_lt_of_poll rfl rfl rfl ?_
      simp [Poll.work, PollPc.work, pc, head]
      omega
  | createFail pc head | free pc head =>
      refine work_lt_of_poll rfl rfl rfl ?_
      simp only [Poll.work, PollPc.work, pc, head, List.length_cons]
      omega
  | reapYes pc | reapNo pc | erase pc | again pc =>
      refine work_lt_of_poll rfl rfl rfl ?_
      simp [Poll.work, PollPc.work, State.pollAt, State.setQuery, State.emit, pc]
  | reap pc =>
      refine work_lt_of_poll rfl rfl rfl ?_
      simp [Poll.work, PollPc.work, pc]
      omega
  | joinEnd pc none =>
      refine work_lt_of_poll rfl rfl rfl ?_
      simp [Poll.work, PollPc.work, Poll.idle, pc]

theorem work_lt {a : Action} (run : machine.Reachable s) (settling : Settling s a)
    (moved : machine.step s a = some s') : work s' < work s := by
  have good := good_of_reachable run
  cases a with
  | query id tid attempt => exact (queryStep_move moved).work_lt (good id)
  | poll created => exact (pollStep_move moved).work_lt good settling
  | game act =>
      cases act with
      | next error data =>
          obtain ⟨less, poll, threads, nums⟩ := gameNext_work moved
          have same : attemptsWork s' = attemptsWork s := by
            funext id
            rw [attemptsWork, attemptsWork, threads]
          rw [nums] at less
          rw [work, work, poll, nums, same]
          omega
      | _ => cases settling

/-! ## At rest -/

/-- All that has begun has come to its end; a frame whose query is gone has none. -/
structure AtRest (s : State) : Prop where
  poll : s.poll.pc = .idle
  threads : ∀ id, ∀ t ∈ s.threads id, t.pc = .returned
  game : s.game = .idle ∨ s.Dangles
  threadsMutex : s.threadsMutex = none
  frameMutex : s.frameMutex = none

theorem atRest_of_stuck (run : machine.Reachable s) (stuck : machine.Stuck Settling s) :
    AtRest s := by
  have lock := threadsLock_of_reachable run
  have polls (begun : s.poll.pc ≠ .idle) : pollStep true s = none := stuck (.poll true) begun
  have games : gameNext true true s = none := stuck (.game (.next true true)) trivial
  have queries (id tid : Nat) : queryStep id tid ⟨true, true, true, true⟩ s = none :=
    stuck (.query id tid _) trivial
  have unlocked : s.poll.pc.phase.locked = false := by
    rw [← Bool.not_eq_true]
    intro locked
    refine pollStep_of_locked run locked (polls fun idle => ?_)
    simp [idle, PollPc.phase, Phase.locked] at locked
  -- the game thread is not in a walk, so that nobody holds `threads_mutex`
  have waits : s.game = .idle ∨ s.Dangles ∨ s.game = .stopFrames ∧ s.frameMutex ≠ none := by
    by_contra moves
    push Not at moves
    obtain ⟨busy, sound, frames⟩ := moves
    refine gameNext_of_free run busy sound frames (fun stops => ?_) true true games
    exact lock.free unlocked (by simp [stops, GamePc.aborts])
  have walks : s.game.aborts = false := by
    rcases waits with idle | ⟨id, forward | finish, -⟩ | ⟨stops, -⟩
    · simp [idle, GamePc.aborts]
    · simp [forward, GamePc.aborts]
    · simp [finish, GamePc.aborts]
    · simp [stops, GamePc.aborts]
  have threadsMutex := lock.free unlocked walks
  -- nobody pushes, so that nobody holds `frame_mutex`
  have frameMutex : s.frameMutex = none := by
    rcases frameHeld_of_reachable run with free | ⟨id, tid, pushes⟩ | stops | aborts
    · exact free
    · exact absurd (queries id tid) (queryStep_of_free run pushes (by simp) (by simp) _)
    · rcases waits with idle | ⟨id, forward | finish, -⟩ | ⟨frames, -⟩
      · exact absurd (stops.symm.trans idle) (by simp)
      · exact absurd (stops.symm.trans forward) (by simp)
      · exact absurd (stops.symm.trans finish) (by simp)
      · exact absurd (stops.symm.trans frames) (by simp)
    · exact absurd aborts (by simp [walks])
  have threads : ∀ id, ∀ t ∈ s.threads id, t.pc = .returned := by
    intro id t member
    by_contra busy
    exact queryStep_of_free run member busy (fun _ => frameMutex) _ (queries id t.tid)
  refine ⟨?_, threads, ?_, threadsMutex, frameMutex⟩
  · by_contra begun
    exact pollStep_of_free run threadsMutex threads (polls begun)
  · rcases waits with idle | dangles | ⟨-, held⟩
    · exact .inl idle
    · exact .inr dangles
    · exact absurd frameMutex held

/-- Where no thread locks for an aborted query, no frame's query is gone. -/
theorem not_dangles_of_reaches (run : machine.Reaches LocksUnaborted s) : ¬ s.Dangles := by
  rintro ⟨id, place, gone⟩
  refine (framesOk_of_reaches run id).present (.inr (.inr ?_)) gone
  rcases place with forward | finish
  · simp [slice, forward, GamePc.hand]
  · simp [slice, finish, GamePc.hand]

/-- **The manager settles.**  From every state that a run reaches, in every interleaving of the
polling thread, the query threads and the game thread, what has begun comes to its end: not more
than `work s` steps are left, and where no step is left, nobody waits for a mutex or a thread.
`frame_forward` with the pointer of a query that is gone, which `stop` can leave behind, is the
one exception. -/
theorem settles (run : machine.Reachable s) :
    (∀ n t, machine.Runs Settling n s t → n ≤ work s ∧
      (machine.Stuck Settling t → AtRest t ∧
        (machine.Reaches LocksUnaborted t → t.game = .idle))) ∧
    ∃ n t, machine.Runs Settling n s t ∧ AtRest t := by
  have less : ∀ s a s', machine.Reachable s → Settling s a → machine.step s a = some s' →
      work s' < work s := fun s a s' run settling moved => work_lt run settling moved
  have keep : ∀ s a s', machine.Reachable s → Settling s a → machine.step s a = some s' →
      machine.Reachable s' := fun s a s' run _ moved => run.step trivial moved
  refine ⟨fun n t runs => ⟨?_, fun stuck => ?_⟩, ?_⟩
  · have bound := runs.length_le keep less run
    omega
  · have rest := atRest_of_stuck (runs.reachable run) stuck
    exact ⟨rest, fun sound => rest.game.resolve_right (not_dangles_of_reaches sound)⟩
  · obtain ⟨n, t, runs, stuck⟩ := Machine.exists_stuck keep less run
    exact ⟨n, t, runs, atRest_of_stuck (runs.reachable run) stuck⟩

/-- A query has a thread that is in its attempt, and `stop` holds `frame_mutex`. -/
def underway : List Action :=
  .game (.pushQuery 1 0 0) :: pollSteps 5 ++
    [.query 1 0 ⟨true, true, true, true⟩, .game .stop, .game (.next true true)]

theorem settles_underway : ∃ s : State, s.game = .stopThreads ∧ s.poll.pc = .free ∧
    (∀ n t, machine.Runs Settling n s t → n ≤ 13) ∧
    ∃ n t, machine.Runs Settling n s t ∧ AtRest t := by
  have ends : (machine.exec (.start 1) underway).map
      (fun s => s.game == .stopThreads && s.poll.pc == .free && work s == 13) = some true := by
    decide +kernel
  obtain ⟨s, run, holds⟩ := Machine.exists_reachable (M := machine) ⟨1, rfl⟩ ends
  simp only [Bool.and_eq_true, beq_iff_eq] at holds
  obtain ⟨bound, rests⟩ := settles run
  exact ⟨s, holds.1.1, holds.1.2, fun n t runs => holds.2 ▸ (bound n t runs).1, rests⟩

end Refsapi.Mysql
