/-
# Timers.Signal -- when an armed timer can be missed

`stop` sets `stop_loop`, and `build_queue` clears it after its walk.  So a signal that is
raised for a timer which the walk has already passed, or which came after the walk, is
erased with the others, and no rebuild follows.  Where no signal comes so (`Heard`), every
timer that is armed is in the queue, or something that leads to a rebuild is still to come
(`Safe`).
-/
import Refsapi.Timers.Dispatch

namespace Refsapi.Timers

set_option autoImplicit false

/-- The worker comes to the walk of `build_queue`. -/
def WorkerPc.beforeWalk : WorkerPc → Bool
  | start | clear | enter => true
  | _ => false

/-- The worker is in `build_queue`, from the walk to the end. -/
def WorkerPc.building : WorkerPc → Bool
  | scan _ | push _ _ | reset => true
  | _ => false

/-- The worker has completed `build_queue`. -/
def WorkerPc.built (pc : WorkerPc) : Bool := !pc.beforeWalk && !pc.building

/-- The game thread is in `stop_all`. -/
def GamePc.stopping : GamePc → Bool
  | stopFrame | stopQueue | stopTimer | restart => true
  | _ => false

/-- The game thread is about to raise the signal. -/
def GamePc.owes : GamePc → Bool
  | signal _ | removing => true
  | pc => pc.stopping

/-- A copy of the timer is waiting, or the walk has still to come to it. -/
def State.Reaching (s : State) (id : Nat) : Prop :=
  id ∈ s.worker.toScan ∨ ∃ q ∈ s.waiting, q.id = id

/-- The worker will come to the timer. -/
def State.Kept (s : State) (id : Nat) : Prop :=
  s.worker.beforeWalk = true ∨ s.worker.built = true ∧ s.stopLoop = true ∨ s.Reaching id

/-- The timer will be removed, or signalled, or reached. -/
def State.Safe (s : State) (id : Nat) : Prop :=
  s.stopTimer = true ∨ s.game.stopping = true ∨ s.game = .signal (some id) ∨ s.Kept id

/-- The step raises no signal for a timer that the build under way does not reach. -/
def Heard (s : State) : Action → Prop
  | .go _ _ => ∀ id, s.game = .signal (some id) → s.pushes id = true →
      s.worker.building = true → s.Reaching id
  | _ => True

structure Sure (s : State) : Prop where
  safe : ∀ t ∈ s.timers, t.executed = false → s.Safe t.id
  emptied : s.game = .restart → s.timers = []
  held : ∀ t, s.worker.entry = some t → s.queue = [] →
    s.game = .stopTimer ∨ ∀ u ∈ s.timers, u.id ≠ t.id

variable {s s' : State} {a : Action}

/-- The worker has moved, and the timers are as they were. -/
theorem Sure.of_work (sure : Sure s) (timers : s'.timers = s.timers) (game : s'.game = s.game)
    (safe : ∀ t ∈ s.timers, t.executed = false → s.Kept t.id → s'.stopTimer = true ∨ s'.Kept t.id)
    (stop : s'.stopTimer = s.stopTimer ∨ s'.worker.beforeWalk = true)
    (held : ∀ t, s'.worker.entry = some t → s'.queue = s.queue ∧
      (s.worker.entry = some t ∨ s.queue ≠ [])) : Sure s' := by
  refine ⟨fun t listed waits => ?_, fun restart => ?_, fun t entry empty => ?_⟩
  · rw [timers] at listed
    rcases stop with same | before
    · rcases sure.safe t listed waits with stopped | stopping | owed | kept
      · exact .inl (same ▸ stopped)
      · exact .inr (.inl (game ▸ stopping))
      · exact .inr (.inr (.inl (game ▸ owed)))
      · rcases safe t listed waits kept with stopped | kept
        · exact .inl stopped
        · exact .inr (.inr (.inr kept))
    · exact .inr (.inr (.inr (.inl before)))
  · exact timers.trans (sure.emptied (game ▸ restart))
  · obtain ⟨queue, old | nonempty⟩ := held t entry
    · rw [game, timers]
      exact sure.held t old (queue ▸ empty)
    · exact absurd (queue ▸ empty) nonempty

theorem reaching_of_building {id : Nat} (building : s.worker.building = true) (kept : s.Kept id) :
    s.Reaching id := by
  rcases kept with before | ⟨built, -⟩ | reaching
  · cases pc : s.worker <;> rw [pc] at before building <;> cases before <;> cases building
  · simp [WorkerPc.built, building] at built
  · exact reaching

/-- The worker has completed the build, and what is waiting stays. -/
theorem kept_of_built {id : Nat} (built : s.worker.built = true) (built' : s'.worker.built = true)
    (stopLoop : s'.stopLoop = s.stopLoop)
    (waiting : ∀ q ∈ s.waiting, q.id = id → ∃ q' ∈ s'.waiting, q'.id = id) (kept : s.Kept id) :
    s'.Kept id := by
  rcases kept with before | ⟨-, loops⟩ | scanned | ⟨q, copy, same⟩
  · simp [WorkerPc.built, before] at built
  · exact .inr (.inl ⟨built', stopLoop.trans loops⟩)
  · cases pc : s.worker <;> rw [pc] at scanned built <;> cases built <;> cases scanned
  · exact .inr (.inr (.inr (waiting q copy same)))

theorem Sure.erase (sure : Sure s) {p : Tm → Bool} {game : GamePc}
    (before : s.game = .idle ∨ ∃ t, s.game = .remove t)
    (after : game = .signal none ∨ game = .removing ∨ game = .idle) :
    Sure { s.erase p with game := game } := by
  have listed {t : Tm} (member : t ∈ s.timers.filter fun t => !p t) : t ∈ s.timers :=
    (List.mem_filter.1 member).1
  refine ⟨fun t member waits => ?_, fun restart => ?_, fun t entry empty => .inr fun u member => ?_⟩
  · rcases sure.safe t (listed member) waits with stopped | stopping | owed | kept
    · exact .inl stopped
    · rcases before with idle | ⟨u, idle⟩ <;> rw [idle] at stopping <;> cases stopping
    · rcases before with idle | ⟨u, idle⟩ <;> rw [idle] at owed <;> cases owed
    · exact .inr (.inr (.inr kept))
  · rcases after with rfl | rfl | rfl <;> cases restart
  · rcases sure.held t entry empty with stopping | away
    · rcases before with idle | ⟨v, idle⟩ <;> rw [idle] at stopping <;> cases stopping
    · exact away u (listed member)

theorem Sure.work_step (ok : Dispatched s.core) (sure : Sure s) {order : List Tm} {now : Int}
    (move : Move s (.work order now) s') : Sure s' := by
  have outside {pc : WorkerPc} {queue : List Tm} (none : pc.entry = none) (t : Tm)
      (entry : pc.entry = some t) : queue = s.queue ∧ (s.worker.entry = some t ∨ s.queue ≠ []) := by
    rw [none] at entry
    cases entry
  -- Steps after the build that change neither the queue nor what is waiting.
  have later {pc : WorkerPc} (built : s.worker.built = true) (built' : pc.built = true)
      (waiting : ({ s with worker := pc } : State).waiting = s.waiting)
      (held : ∀ t, pc.entry = some t → s.worker.entry = some t ∨ s.queue ≠ []) :
      Sure { s with worker := pc } := by
    refine sure.of_work rfl rfl (fun t _ _ kept => .inr ?_) (.inl rfl) fun t entry =>
      ⟨rfl, held t entry⟩
    exact kept_of_built built built' rfl (fun q copy same => ⟨q, waiting.symm ▸ copy, same⟩) kept
  cases move with
  | stay => exact sure
  | erase idle erases free after => exact sure.erase (.inl idle) (after.imp_right .inl)
  | start pc | clear pc free | wake pc =>
      exact sure.of_work rfl rfl (fun _ _ _ _ => .inr (.inl rfl)) (.inr rfl) (outside rfl)
  | refused pc stopped =>
      exact sure.of_work rfl rfl (fun _ _ _ _ => .inl stopped) (.inl rfl) (outside rfl)
  | enter pc free runs =>
      exact sure.of_work rfl rfl (fun t listed _ _ => .inr (.inr (.inr (.inl
        (List.mem_map_of_mem listed))))) (.inl rfl) (outside rfl)
  | scanned pc | reset pc =>
      refine sure.of_work rfl rfl (fun t listed _ kept => .inr (.inr (.inr ?_))) (.inl rfl)
        (outside rfl)
      rcases reaching_of_building (by rw [pc]; rfl) kept with scanned | ⟨q, copy, same⟩
      · rw [pc] at scanned
        cases scanned
      · rw [waiting_of_outside (by rw [pc]; rfl) (by rw [pc]; rfl)] at copy
        exact .inr ⟨q, copy, same⟩
  | @finds _ _ id rest pc pushes =>
      refine sure.of_work rfl rfl (fun t listed _ kept => .inr (.inr (.inr ?_))) (.inl rfl)
        (outside rfl)
      rcases reaching_of_building (by rw [pc]; rfl) kept with scanned | ⟨q, copy, same⟩
      · rw [pc] at scanned
        exact .inl scanned
      · rw [waiting_of_outside (by rw [pc]; rfl) (by rw [pc]; rfl)] at copy
        exact .inr ⟨q, copy, same⟩
  | @skips _ _ id rest pc skipped =>
      refine sure.of_work rfl rfl (fun t listed waits kept => .inr (.inr (.inr ?_))) (.inl rfl)
        (outside rfl)
      rcases reaching_of_building (by rw [pc]; rfl) kept with scanned | ⟨q, copy, same⟩
      · rw [pc] at scanned
        rcases List.mem_cons.1 scanned with here | later
        · rw [pushes_iff.2 ⟨t, listed, here, waits⟩] at skipped
          cases skipped
        · exact .inl later
      · rw [waiting_of_outside (by rw [pc]; rfl) (by rw [pc]; rfl)] at copy
        exact .inr ⟨q, copy, same⟩
  | @push order now id rest u pc free listed' isId pushed =>
      refine sure.of_work rfl rfl (fun t listed waits kept => .inr (.inr (.inr ?_))) (.inl rfl)
        (outside rfl)
      rcases reaching_of_building (by rw [pc]; rfl) kept with scanned | ⟨q, copy, same⟩
      · rw [pc] at scanned
        rcases List.mem_cons.1 scanned with here | later
        · exact .inr ⟨u, pushed.1.mem_iff.2 List.mem_cons_self, isId.trans here.symm⟩
        · exact .inl later
      · rw [waiting_of_outside (by rw [pc]; rfl) (by rw [pc]; rfl)] at copy
        exact .inr ⟨q, pushed.1.mem_iff.2 (List.mem_cons_of_mem _ copy), same⟩
  | empty pc | more pc nonempty =>
      refine later (by rw [pc]; rfl) rfl ?_ fun t entry => by cases entry
      rw [waiting_of_outside (s := s) (by rw [pc]; rfl) (by rw [pc]; rfl)]
      rfl
  | @top _ _ t pc first =>
      obtain ⟨rest, queue⟩ := List.head?_eq_some_iff.1 first
      refine later (by rw [pc]; rfl) rfl ?_ fun _ _ => .inr (by simp [queue])
      rw [waiting_of_outside (s := s) (by rw [pc]; rfl) (by rw [pc]; rfl), waiting_of_entry rfl]
      simp [queue]
  | @compare _ _ t _ pc next =>
      have waiting := waiting_of_entry (s := s) (t := t) (by rw [pc]; rfl)
      have held (u : Tm) (same : some t = some u) : s.worker.entry = some u ∨ s.queue ≠ [] := by
        cases same
        exact .inl (by rw [pc]; rfl)
      rcases next with rfl | rfl <;>
        exact later (by rw [pc]; rfl) rfl (waiting ▸ rfl) held
  | @wait _ _ t pc | @check _ _ t pc | @checkLoop _ _ t pc | @lockFrame _ _ t pc
  | @found _ _ t pc =>
      have waiting := waiting_of_entry (s := s) (t := t) (by rw [pc]; rfl)
      refine later (by rw [pc]; rfl) rfl (waiting ▸ rfl) fun u same => ?_
      cases same
      exact .inl (by rw [pc]; rfl)
  | breaks pc =>
      refine sure.of_work rfl rfl (fun t _ _ _ => ?_) (.inl rfl) (outside rfl)
      rcases pc with ⟨-, stopped⟩ | ⟨-, loops⟩
      · exact .inl stopped
      · exact .inr (.inr (.inl ⟨rfl, loops⟩))
  | @gone _ _ t pc none =>
      have entry : s.worker.entry = some t := by rw [pc]; rfl
      refine sure.of_work rfl rfl (fun u listed _ kept => .inr ?_) (.inl rfl) (outside rfl)
      refine kept_of_built (s := s) (by rw [pc]; rfl) rfl rfl (fun q copy same => ?_) kept
      have agree := ok.agree q (by simp [Core.copies, State.core, copy]) u listed same.symm
      rw [waiting_of_entry entry] at copy
      rcases List.mem_cons.1 copy with rfl | later
      · exact absurd ⟨agree.amx, agree.groupId, agree.id⟩ (none u listed)
      · exact ⟨q, later, same⟩
  | @mark order now t pc pushed =>
      have entry : s.worker.entry = some t := by rw [pc]; rfl
      refine ⟨fun u listed waits => ?_, fun restart => ?_, fun v entry => by cases entry⟩
      · obtain ⟨v, listed', ⟨-, rfl⟩ | ⟨other, rfl⟩⟩ := mem_writeTo listed
        · cases waits
        · rcases sure.safe u listed' waits with stopped | stopping | owed | kept
          · exact .inl stopped
          · exact .inr (.inl stopping)
          · exact .inr (.inr (.inl owed))
          · refine .inr (.inr (.inr ?_))
            refine kept_of_built (s := s) (by rw [pc]; rfl) rfl rfl (fun q copy same => ?_) kept
            rw [waiting_of_entry entry] at copy
            rcases List.mem_cons.1 copy with rfl | later
            · exact absurd same.symm other
            · exact ⟨q, later, same⟩
      · exact List.map_eq_nil_iff.2 (sure.emptied restart)
  | @pop _ _ t u rest pc first =>
      refine sure.of_work rfl rfl (fun v _ _ kept => .inr ?_) (.inl rfl) (outside rfl)
      refine kept_of_built (s := s) (by rw [pc]; rfl) rfl rfl
        (fun q copy same => ⟨q, ?_, same⟩) kept
      rw [waiting_of_pop pc, first] at copy
      exact copy
  | recheck pc next =>
      have waiting := waiting_of_outside (s := s) (by rw [pc]; rfl) (by rw [pc]; rfl)
      rcases next with rfl | rfl <;>
        exact later (by rw [pc]; rfl) rfl (waiting ▸ rfl) fun t entry => by cases entry
  | recheckLoop pc next =>
      have waiting := waiting_of_outside (s := s) (by rw [pc]; rfl) (by rw [pc]; rfl)
      rcases next with rfl | rfl
      · exact later (by rw [pc]; rfl) rfl (waiting ▸ rfl) fun t entry => by cases entry
      · exact sure.of_work rfl rfl (fun _ _ _ _ => .inr (.inl rfl)) (.inr rfl) (outside rfl)

/-- The game thread has moved where it owes no signal; what it has armed it will signal. -/
theorem Sure.of_game (sure : Sure s) (quiet : s.game.owes = false) (restart : s'.game ≠ .restart)
    (worker : s'.worker = s.worker) (queue : s'.queue = s.queue)
    (loop : s'.stopLoop = s.stopLoop) (timer : s'.stopTimer = s.stopTimer)
    (timers : ∀ u ∈ s'.timers, s'.game = .signal (some u.id) ∨ ∃ v ∈ s.timers, v.id = u.id ∧
      (u.executed = false → v.executed = false))
    (old : ∀ u ∈ s'.timers, ∀ t, s.worker.entry = some t → u.id = t.id →
      ∃ v ∈ s.timers, v.id = u.id) : Sure s' := by
  refine ⟨fun u listed waits => ?_, fun same => absurd same restart, fun t entry empty => .inr ?_⟩
  · rcases timers u listed with signal | ⟨v, listed', same, armed⟩
    · exact .inr (.inr (.inl signal))
    · rcases sure.safe v listed' (armed waits) with stopped | stopping | signal | kept
      · exact .inl (timer ▸ stopped)
      · cases pc : s.game <;> rw [pc] at quiet stopping <;> cases stopping <;> cases quiet
      · rw [signal] at quiet
        cases quiet
      · refine .inr (.inr (.inr ?_))
        have waiting := waiting_congr worker queue
        rcases kept with before | ⟨built, loops⟩ | scanned | ⟨q, copy, isId⟩
        · exact .inl (worker ▸ before)
        · exact .inr (.inl ⟨worker ▸ built, loop.trans loops⟩)
        · exact .inr (.inr (.inl (worker.symm ▸ same ▸ scanned)))
        · exact .inr (.inr (.inr ⟨q, waiting.symm ▸ copy, isId.trans same⟩))
  · intro u listed same
    rw [worker] at entry
    rcases sure.held t entry (queue ▸ empty) with stopping | away
    · rw [stopping] at quiet
      cases quiet
    · obtain ⟨v, listed', isId⟩ := old u listed t entry same
      exact away v listed' (isId.trans same)

/-- The game thread has moved and the timers are as they were. -/
theorem Sure.of_same (sure : Sure s) (quiet : s.game.owes = false) (restart : s'.game ≠ .restart)
    (worker : s'.worker = s.worker) (queue : s'.queue = s.queue)
    (loop : s'.stopLoop = s.stopLoop) (timer : s'.stopTimer = s.stopTimer)
    (timers : s'.timers = s.timers) : Sure s' :=
  sure.of_game quiet restart worker queue loop timer
    (fun u listed => .inr ⟨u, timers ▸ listed, rfl, id⟩)
    fun u listed _ _ _ => ⟨u, timers ▸ listed, rfl⟩

/-- What `frame_forward` arms it signals. -/
theorem Sure.finish (sure : Sure s) (quiet : s.game.owes = false) (t : Tm) (ret now : Int) :
    Sure (s.finished t ret now) := by
  unfold State.finished
  split
  · refine sure.of_game quiet (by simp) rfl rfl rfl rfl
      (fun u listed => ?_) fun u listed _ _ _ => ?_
    · obtain ⟨v, listed', ⟨here, rfl⟩ | ⟨-, rfl⟩⟩ := mem_writeTo listed
      · exact .inl (by simp [State.rearmed, here])
      · exact .inr ⟨u, listed', rfl, id⟩
    · obtain ⟨v, listed', ⟨-, rfl⟩ | ⟨-, rfl⟩⟩ := mem_writeTo listed
      · exact ⟨v, listed', rfl⟩
      · exact ⟨u, listed', rfl⟩
  · exact sure.of_same quiet (by simp) rfl rfl rfl rfl rfl

theorem sure_of_none (none : s.timers = []) : Sure s := by
  have absent {t : Tm} (listed : t ∈ s.timers) : False := by
    rw [none] at listed
    cases listed
  exact ⟨fun t listed => (absent listed).elim, fun _ => none, fun _ _ _ =>
    .inr fun u listed => (absent listed).elim⟩

theorem Sure.game_step (ok : Dispatched s.core) (sure : Sure s) (heard : Heard s a)
    (game : ∀ order now, a ≠ .work order now) (move : Move s a s') : Sure s' := by
  cases move with
  | stay => exact sure
  | addTimer idle free =>
      refine sure.of_game (by rw [idle]; rfl) (by simp [State.insert]) rfl rfl rfl rfl
        (fun u listed => ?_) fun u listed t entry same => ?_
      · rcases List.mem_cons.1 ((insert_perm _ _ _).mem_iff.1 listed) with rfl | older
        · exact .inl rfl
        · exact .inr ⟨u, older, rfl, id⟩
      · rcases List.mem_cons.1 ((insert_perm _ _ _).mem_iff.1 listed) with rfl | older
        · have known : t.id ≤ s.nums := ok.old t (by
            simp [Core.copies, State.core, waiting_of_entry entry])
          rw [← same] at known
          exact absurd known (Nat.not_succ_le_self s.nums)
        · exact ⟨u, older, rfl⟩
  | erase idle erases free after => exact sure.erase (.inl idle) (after.imp_right .inl)
  | changeTimerById idle | startFrame idle | drop idle | execute idle =>
      exact sure.of_same (by rw [idle]; rfl) (by simp) rfl rfl rfl rfl rfl
  | @returns ret now t rest idle running =>
      have quiet : Sure { s with inside := rest } :=
        sure.of_same (by rw [idle]; rfl) (by simp [idle]) rfl rfl rfl rfl rfl
      exact quiet.finish (by simp only [idle]; rfl) t ret now
  | @fail now t tm pc listed same =>
      have quiet : Sure { s with game := .idle, history := .missed t :: s.history } :=
        sure.of_same (by rw [pc]; rfl) (by simp) rfl rfl rfl rfl rfl
      exact quiet.finish rfl t 0 now
  | change pc =>
      refine sure.of_game (by rw [pc]; rfl) (by simp) rfl rfl rfl rfl (fun u listed => .inr ?_)
        fun u listed _ _ _ => ?_
      · obtain ⟨v, listed', ⟨-, rfl⟩ | ⟨-, rfl⟩⟩ := mem_writeTo listed
        · exact ⟨v, listed', rfl, id⟩
        · exact ⟨u, listed', rfl, id⟩
      · obtain ⟨v, listed', ⟨-, rfl⟩ | ⟨-, rfl⟩⟩ := mem_writeTo listed
        · exact ⟨v, listed', rfl⟩
        · exact ⟨u, listed', rfl⟩
  | stopAll idle =>
      refine ⟨fun _ _ _ => .inl rfl, fun same => (by cases same), fun t entry empty => ?_⟩
      rcases sure.held t entry empty with stopping | away
      · rw [idle] at stopping
        cases stopping
      · exact .inr away
  | signal pc =>
      refine ⟨fun t listed waits => ?_, fun same => (by cases same), fun t entry empty => ?_⟩
      · rcases sure.safe t listed waits with stopped | stopping | owed | kept
        · exact .inl stopped
        · rcases pc with ⟨armed, pc⟩ | pc <;> rw [pc] at stopping <;> cases stopping
        · refine .inr (.inr (.inr ?_))
          by_cases walk : s.worker.beforeWalk = true
          · exact .inl walk
          by_cases building : s.worker.building = true
          · exact .inr (.inr (heard t.id owed (pushes_iff.2 ⟨t, listed, rfl, waits⟩) building))
          · exact .inr (.inl ⟨by simp [WorkerPc.built, walk, building], rfl⟩)
        · refine .inr (.inr (.inr ?_))
          rcases kept with before | ⟨built, -⟩ | reaching
          · exact .inl before
          · exact .inr (.inl ⟨built, rfl⟩)
          · exact .inr (.inr reaching)
      · rcases sure.held t entry empty with stopping | away
        · rcases pc with ⟨armed, pc⟩ | pc <;> rw [pc] at stopping <;> cases stopping
        · exact .inr away
  | stopFrame pc =>
      refine ⟨fun _ _ _ => .inr (.inl rfl), fun same => (by cases same), fun t entry empty => ?_⟩
      rcases sure.held t entry empty with stopping | away
      · rw [pc] at stopping
        cases stopping
      · exact .inr away
  | stopQueue pc =>
      exact ⟨fun _ _ _ => .inr (.inl rfl), fun same => (by cases same), fun _ _ _ => .inl rfl⟩
  | stopTimer pc free => exact sure_of_none (by simp [State.erase])
  | restart pc => exact sure_of_none (sure.emptied pc)
  | remove pc free => exact sure.erase (.inr ⟨_, pc⟩) (.inr (.inr rfl))
  | _ => exact absurd rfl (game _ _)

/-- **A step without a signal that comes too late loses no timer.** -/
theorem Sure.step (ok : Dispatched s.core) (sure : Sure s) (heard : Heard s a)
    (move : Move s a s') : Sure s' := by
  cases a with
  | work order now => exact sure.work_step ok move
  | _ => exact sure.game_step ok heard (fun _ _ same => by cases same) move

/-- Nothing will make the worker rebuild its queue, and the queue lacks no timer that is
armed. -/
def State.NoneLost (s : State) : Prop :=
  s.worker.built = true → s.stopTimer = false → s.stopLoop = false → s.game.owes = false →
    ∀ t ∈ s.timers, t.executed = false → ∃ q ∈ s.queue, q.id = t.id

theorem Sure.noneLost (walked : Walked s) (sure : Sure s) : s.NoneLost := by
  intro built runs quiet game t listed waits
  rcases sure.safe t listed waits with stopped | stopping | owed | kept
  · rw [runs] at stopped
    cases stopped
  · cases pc : s.game <;> rw [pc] at game stopping <;> cases stopping <;> cases game
  · rw [owed] at game
    cases game
  rcases kept with before | ⟨-, loops⟩ | scanned | ⟨q, copy, same⟩
  · simp [WorkerPc.built, before] at built
  · rw [quiet] at loops
    cases loops
  · cases pc : s.worker <;> rw [pc] at scanned built <;> cases built <;> cases scanned
  unfold State.waiting at copy
  split at copy
  · next first entry =>
      rcases List.mem_cons.1 copy with rfl | later
      · rcases walked.first q (.inl entry) with isHead | empty
        · exact ⟨q, List.mem_of_mem_head? isHead, same⟩
        · rcases sure.held q entry empty with stopping | away
          · rw [stopping] at game
            cases game
          · exact absurd same.symm (away t listed)
      · exact ⟨q, List.mem_of_mem_tail later, same⟩
  · split at copy
    · exact ⟨q, List.mem_of_mem_tail copy, same⟩
    · exact ⟨q, copy, same⟩

theorem sure_of_reaches (run : machine.Reaches Heard s) : Sure s := by
  refine Machine.Reaches.invariant (I := Sure) ?_ (fun s a s' before sure heard moved =>
    sure.step (dispatched_of_reachable before.reachable).1 heard (move_of_step moved)) run
  rintro _ ⟨maxClients, rfl⟩
  exact sure_of_none rfl

/-- **No armed timer is lost**, in every run in which no signal for a timer comes between
the walk's passing it and the end of that build. -/
theorem none_lost (s : State) (run : machine.Reaches Heard s) : s.NoneLost :=
  (sure_of_reaches run).noneLost (dispatched_of_reachable run.reachable).2

/-- `Heard`, to be tested. -/
def heard (s : State) : Action → Bool
  | .go _ _ => !s.worker.building
  | _ => true

theorem heard_sound (s : State) (a : Action) (ok : heard s a = true) : Heard s a := by
  cases a with
  | go allots now =>
      intro id owed pushes building
      simp [heard, building] at ok
  | _ => trivial

/-- A timer is added before the worker has begun, and is in the queue. -/
theorem none_lost_one : ∃ s : State,
    (s.worker = .size ∧ s.timers.map Tm.id = [1] ∧ s.queue.map Tm.id = [1]) ∧ s.NoneLost := by
  let t : Tm := ⟨1, 1, 7, 0, .fin false 1, 1000000000, 1, 0, false⟩
  have ends : (machine.execIf heard (.zero 32)
      [.addTimer .zero 1 7 (.fin false 1) 0 1 0 0, .go true 0, .work [] 0, .work [] 0, .work [] 0,
        .work [] 0, .work [t] 0, .work [] 0, .work [] 0]).map
        (fun s => s.worker == .size && s.timers.map Tm.id == [1] && s.queue.map Tm.id == [1]) =
          some true := by decide +kernel
  obtain ⟨s, run, holds⟩ := Machine.exists_reaches (M := machine) heard_sound ⟨32, rfl⟩ ends
  simp only [Bool.and_eq_true, beq_iff_eq] at holds
  exact ⟨s, ⟨holds.1.1, holds.1.2, holds.2⟩, none_lost s run⟩

/-- A timer is added and signalled between the walk and the end of the build; the worker
goes to sleep. -/
theorem not_always_noneLost : ¬ ∀ s, machine.Reachable s → s.NoneLost := by
  intro always
  have ends : (machine.exec (.zero 32)
      [.work [] 0, .work [] 0, .work [] 0, .work [] 0, .addTimer .zero 1 7 (.fin false 1) 0 1 0 0,
        .go true 0, .work [] 0, .work [] 0, .work [] 0, .work [] 0]).map
        (fun s => s.worker == .sleep && !s.stopTimer && !s.stopLoop && s.game == .idle &&
          s.timers.map Tm.executed == [false] && s.queue == []) = some true := by decide +kernel
  obtain ⟨s, run, holds⟩ := Machine.exists_reachable (M := machine) ⟨32, rfl⟩ ends
  simp only [Bool.and_eq_true, Bool.not_eq_true', beq_iff_eq] at holds
  obtain ⟨⟨⟨⟨⟨worker, runs⟩, quiet⟩, idle⟩, waits⟩, empty⟩ := holds
  obtain ⟨t, timers, isWaiting⟩ := List.map_eq_singleton_iff.1 waits
  obtain ⟨q, copy, -⟩ := always s run (by rw [worker]; rfl) runs quiet (by rw [idle]; rfl) t
    (by simp [timers]) isWaiting
  rw [empty] at copy
  cases copy

end Refsapi.Timers
