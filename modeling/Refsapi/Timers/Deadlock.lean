/-
# Timers.Deadlock -- the two orders in which `queue_mutex` and `timer_mutex` are taken

`build_queue` takes `queue_mutex` inside `timer_mutex`, for each timer it pushes; `stop_all`
takes `timer_mutex` inside `queue_mutex`.  Of all pairs of places only these two wait for
each other (`deadlock_iff`).  `stop_all` sets `stop_timer` first, but a walk that is under
way does not look at it again.
-/
import Refsapi.Timers.Moves

namespace Refsapi.Timers

set_option autoImplicit false

variable {s s' : State} {a : Action}

/-- Each thread waits for a mutex that the other holds. -/
def State.Deadlock (s : State) : Prop :=
  ∃ m n, s.worker.wants = some m ∧ s.game.holds m = true ∧
    s.game.wants = some n ∧ s.worker.holds n = true

theorem deadlock_iff :
    s.Deadlock ↔ (∃ id rest, s.worker = .push id rest) ∧ s.game = .stopTimer := by
  constructor
  · rintro ⟨m, n, wantsWorker, holdsGame, wantsGame, holdsWorker⟩
    cases worker : s.worker with
    | push id rest =>
        refine ⟨⟨id, rest, rfl⟩, ?_⟩
        cases game : s.game <;> rw [worker] at wantsWorker <;> rw [game] at holdsGame <;>
          cases wantsWorker <;> first | rfl | cases holdsGame
    | lookup t =>
        exfalso
        rw [worker] at wantsWorker holdsWorker
        cases wantsWorker
        cases game : s.game <;> rw [game] at holdsGame wantsGame <;> cases holdsGame
        cases wantsGame
        cases holdsWorker
    | scan rest | mark t => rw [worker] at wantsWorker; cases wantsWorker
    | _ => rw [worker] at holdsWorker; cases holdsWorker
  · rintro ⟨⟨id, rest, worker⟩, game⟩
    exact ⟨.queue, .timer, by rw [worker]; rfl, by rw [game]; rfl, by rw [game]; rfl,
      by rw [worker]; rfl⟩

/-- The worker has, inside `timer_mutex`, a timer to push. -/
def State.Pushing (s : State) : Prop :=
  match s.worker with
  | .push _ _ => True
  | .scan rest => ∃ id ∈ rest, s.pushes id = true
  | _ => False

/-- The step does not bring the two orders together: `stop_all` takes `queue_mutex` while the
walk has nothing to push, and no walk begins while `stop_all` holds it, unless all timers have
been executed. -/
def Ordered (s : State) : Action → Prop
  | .work _ _ => s.worker = .enter → s.game = .stopTimer → s.stopTimer = false →
      ∀ t ∈ s.timers, t.executed = true
  | .go _ _ => s.game = .stopQueue → ¬ s.Pushing
  | _ => True

/-- Outside its walk the worker has nothing to push. -/
theorem not_pushing (outside : s.worker.holds .timer = false) : ¬ s.Pushing := by
  unfold State.Pushing
  cases worker : s.worker with
  | scan rest | push id rest => rw [worker] at outside; cases outside
  | _ => exact id

theorem orderly_step (orderly : s.game = .stopTimer → ¬ s.Pushing) (ordered : Ordered s a)
    (move : Move s a s') : s'.game = .stopTimer → ¬ s'.Pushing := by
  intro stopping
  cases move with
  | stay => exact orderly stopping
  | enter pc free runs =>
      rintro ⟨id, -, pushes⟩
      obtain ⟨t, listed, -, waits⟩ := pushes_iff.1 pushes
      rw [ordered pc stopping runs t listed] at waits
      cases waits
  | finds pc pushes =>
      exfalso
      have pushing := orderly stopping
      simp only [State.Pushing, pc] at pushing
      exact pushing ⟨_, List.mem_cons_self, pushes⟩
  | skips pc skipped =>
      have pushing := orderly stopping
      simp only [State.Pushing, pc] at pushing
      rintro ⟨id, member, pushes⟩
      exact pushing ⟨id, List.mem_cons_of_mem _ member, pushes⟩
  | push pc free listed same pushed =>
      exfalso
      have pushing := orderly stopping
      simp only [State.Pushing, pc] at pushing
      exact pushing trivial
  | stopQueue pc =>
      exact ordered pc
  | erase idle erases free after =>
      rcases after with rfl | rfl <;> cases stopping
  | returns idle running =>
      unfold State.finished at stopping
      split at stopping <;> cases stopping
  | fail pc listed same =>
      unfold State.finished at stopping
      split at stopping <;> cases stopping
  | recheck pc next | recheckLoop pc next | compare pc next =>
      rcases next with rfl | rfl <;> exact not_pushing rfl
  | addTimer | changeTimerById | stopAll | startFrame | signal | change | stopFrame | stopTimer
  | restart | drop | execute | remove => cases stopping
  | _ => exact not_pushing rfl

/-- **Lock order.**  In every run whose steps keep `stop_all` and a walk that pushes apart no
state is a deadlock. -/
theorem no_deadlock (s : State) (run : machine.Reaches Ordered s) : ¬ s.Deadlock := by
  have orderly : s.game = .stopTimer → ¬ s.Pushing := by
    refine Machine.Reaches.invariant (I := fun s => s.game = .stopTimer → ¬ s.Pushing) ?_
      (fun s a s' _ orderly ordered moved => orderly_step orderly ordered (move_of_step moved)) run
    rintro _ ⟨maxClients, rfl⟩ stopping
    cases stopping
  intro deadlock
  obtain ⟨⟨id, rest, worker⟩, game⟩ := deadlock_iff.1 deadlock
  refine orderly game ?_
  simp only [State.Pushing, worker]

/-- `Ordered`, to be tested. -/
def ordered (s : State) : Action → Bool
  | .work _ _ => s.game != .stopTimer || s.timers.all Tm.executed
  | .go _ _ => s.game != .stopQueue || !s.worker.holds .timer
  | _ => true

theorem ordered_sound (s : State) (a : Action) (ok : ordered s a = true) : Ordered s a := by
  cases a with
  | work order now =>
      intro _ stopping _ t listed
      simp only [ordered, stopping, bne_self_eq_false, Bool.false_or, List.all_eq_true] at ok
      exact ok t listed
  | go allots now =>
      intro stopping
      simp only [ordered, stopping, bne_self_eq_false, Bool.false_or, Bool.not_eq_true'] at ok
      exact not_pushing ok
  | _ => trivial

/-- A timer is added and pushed; `stop_all` comes after the walk, and removes it. -/
theorem no_deadlock_afterWalk : ∃ s : State,
    (s.game = .restart ∧ s.nums = 1 ∧ s.timers = []) ∧ ¬ s.Deadlock := by
  let t : Tm := ⟨1, 1, 7, 0, .fin false 1, 1000000000, 1, 0, false⟩
  have ends : (machine.execIf ordered (.zero 32)
      [.addTimer .zero 1 7 (.fin false 1) 0 1 0 0, .go true 0, .work [] 0, .work [] 0, .work [] 0,
        .work [] 0, .work [t] 0, .work [] 0, .stopAll, .go true 0, .go true 0, .go true 0]).map
        (fun s => s.game == .restart && s.nums == 1 && s.timers == []) = some true := by
    decide +kernel
  obtain ⟨s, run, holds⟩ := Machine.exists_reaches (M := machine) ordered_sound ⟨32, rfl⟩ ends
  simp only [Bool.and_eq_true, beq_iff_eq] at holds
  exact ⟨s, ⟨holds.1.1, holds.1.2, holds.2⟩, no_deadlock s run⟩

/-- `stop_all` has cleared the two queues, and the walk comes to the next timer. -/
theorem not_always_free : ¬ ∀ s, machine.Reachable s → ¬ s.Deadlock := by
  intro always
  have ends : (machine.exec (.zero 32)
      [.addTimer .zero 1 7 (.fin false 1) 0 1 0 0, .go true 0, .work [] 0, .work [] 0, .work [] 0,
        .work [] 0, .stopAll, .go true 0, .go true 0]).map
        (fun s => s.worker == .push 1 [] && s.game == .stopTimer) = some true := by decide +kernel
  obtain ⟨s, run, holds⟩ := Machine.exists_reachable (M := machine) ⟨32, rfl⟩ ends
  simp only [Bool.and_eq_true, beq_iff_eq] at holds
  exact always s run (deadlock_iff.2 ⟨⟨1, [], holds.1⟩, holds.2⟩)

end Refsapi.Timers
