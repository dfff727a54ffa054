/-
# Timers.Lookup -- when the worker's reads are defined

The worker reads the top of `m_timer_queue`, looks at the stop flags, hands the timer over
and pops, and `stop_all` may empty the queue between any two of these.  `stop_all` raises
both flags first, so a worker that has still to look at them turns back (`State.Doomed`);
one that has looked, or that has only seen that the queue was not empty, does not.  Where
`stop_all` meets no such worker (`Settled`), it pops what it has read, and every group that
is looked for has its key.
-/
import Refsapi.Timers.Callback
import Refsapi.Timers.Queries

namespace Refsapi.Timers

set_option autoImplicit false

variable {s s' : State} {a : Action}

/-- The next reads are defined: of the top of the queue, which is the entry that is popped,
and of the group of a timer whose plugin has groups. -/
structure State.Defined (s : State) : Prop where
  top : s.worker = .top → s.queue ≠ []
  pop : ∀ t, s.worker = .pop t → s.queue.head? = some t
  lookup : ∀ t, s.worker = .lookup t ∨ s.game = .forward t →
    (∃ key ∈ s.groups, key.1 = t.amx) → (t.amx, t.groupId) ∈ s.groups

/-- The worker has a flag still to look at that will turn it back. -/
def State.Doomed (s : State) : Prop :=
  match s.worker with
  | .compare _ | .wait _ | .check _ => s.stopTimer = true ∨ s.stopLoop = true
  | .checkLoop _ => s.stopLoop = true
  | _ => False

/-- `stop_all` empties the queue of no worker that goes on with an entry of it. -/
def Settled (s : State) : Action → Prop
  | .go _ _ => s.game = .stopQueue → s.worker ≠ .top ∧
      ∀ t, s.worker.entry = some t ∨ s.worker.handed = some t → s.Doomed
  | _ => True

structure Guarded (s : State) : Prop where
  keys : ∀ q, q ∈ s.queue ∨ q ∈ s.frames ∨ q ∈ s.game.taken → (q.amx, q.groupId) ∈ s.groups
  top : s.worker = .top → s.queue ≠ []
  read : ∀ t, s.worker.entry = some t ∨ s.worker.handed = some t →
    s.queue.head? = some t ∨ s.Doomed
  apart : s.game.holds .frame = true → s.worker.holds .frame = false
  emptied : s.game = .stopTimer → s.queue = [] ∧ s.frames = []

theorem Guarded.defined (guarded : Guarded s) : s.Defined := by
  refine ⟨guarded.top, fun t pc => ?_, ?_⟩
  · refine (guarded.read t (.inr (by rw [pc]; rfl))).resolve_right fun doomed => ?_
    simp [State.Doomed, pc] at doomed
  · rintro t (pc | pc) -
    · refine guarded.keys t (.inl (List.mem_of_mem_head? ?_))
      refine (guarded.read t (.inl (by rw [pc]; rfl))).resolve_right fun doomed => ?_
      simp [State.Doomed, pc] at doomed
    · exact guarded.keys t (.inr (.inr (by simp [pc, GamePc.taken])))

/-- The worker is not at an entry. -/
theorem Guarded.of_outside (guarded : Guarded s) {queue : List Tm} {pc : WorkerPc}
    {stopLoop stopTimer : Bool} (outside : pc.entry = none ∧ pc.handed = none)
    (fewer : ∀ q ∈ queue, q ∈ s.queue) (frame : pc.holds .frame = false)
    (top : pc = .top → queue ≠ []) :
    Guarded { s with queue, worker := pc, stopLoop, stopTimer } := by
  refine ⟨fun q copy => guarded.keys q (copy.imp_left (fewer q)), top, fun t read => ?_,
    fun _ => frame, fun stopping => ⟨?_, (guarded.emptied stopping).2⟩⟩
  · simp only [outside.1, outside.2] at read
    rcases read with read | read <;> cases read
  · refine List.eq_nil_iff_forall_not_mem.2 fun q member => ?_
    have old := fewer q member
    rw [(guarded.emptied stopping).1] at old
    cases old

/-- The worker goes on with the entry that it has read. -/
theorem Guarded.of_entry (guarded : Guarded s) {pc : WorkerPc} {t : Tm}
    (here : pc.entry = some t ∨ pc.handed = some t) (other : pc ≠ .top)
    (frame : s.game.holds .frame = true → pc.holds .frame = false)
    (read : s.queue.head? = some t ∨ ({ s with worker := pc } : State).Doomed) :
    Guarded { s with worker := pc } := by
  refine ⟨guarded.keys, fun isTop => absurd isTop other, fun u isEntry => ?_, frame,
    guarded.emptied⟩
  have same : u = t := by
    cases pc <;> simp_all [WorkerPc.entry, WorkerPc.handed]
  exact same ▸ read

/-- The game thread has moved, and the queue is as it was. -/
theorem Guarded.of_game (guarded : Guarded s) (worker : s'.worker = s.worker)
    (queue : s'.queue = s.queue)
    (copies : ∀ q, q ∈ s'.frames ∨ q ∈ s'.game.taken → q ∈ s.frames ∨ q ∈ s.game.taken)
    (groups : ∀ key ∈ s.groups, key ∈ s'.groups) (loop : s.stopLoop = true → s'.stopLoop = true)
    (timer : s.stopTimer = true → s'.stopTimer = true ∨ s'.stopLoop = true)
    (frame : s'.game.holds .frame = true → s.worker.holds .frame = false)
    (stopping : s'.game ≠ .stopTimer) : Guarded s' := by
  refine ⟨fun q copy => groups _ (guarded.keys q ?_), fun isTop => ?_, fun t read => ?_,
    fun holds => worker ▸ frame holds, fun same => absurd same stopping⟩
  · rcases copy with copy | copy
    · exact .inl (queue ▸ copy)
    · exact .inr (copies q copy)
  · exact queue ▸ guarded.top (worker ▸ isTop)
  · rw [worker] at read
    rw [queue]
    refine (guarded.read t read).imp_right fun doomed => ?_
    have either (raised : s.stopTimer = true ∨ s.stopLoop = true) :
        s'.stopTimer = true ∨ s'.stopLoop = true :=
      raised.elim timer fun loops => .inr (loop loops)
    simp only [State.Doomed, worker] at doomed ⊢
    split at doomed
    · exact either doomed
    · exact either doomed
    · exact either doomed
    · exact loop doomed
    · exact doomed

theorem Guarded.step (keyed : s.Keyed) (guarded : Guarded s) (settled : Settled s a)
    (move : Move s a s') : Guarded s' := by
  have same (q : Tm) (member : q ∈ s.queue) : q ∈ s.queue := member
  -- Past the flags the entry is the top of the queue.
  have first {t : Tm} (read : s.worker.entry = some t ∨ s.worker.handed = some t)
      (sure : ¬ s.Doomed) : s.queue.head? = some t := (guarded.read t read).resolve_right sure
  cases move with
  | stay => exact guarded
  | start pc | refused pc stopped | enter pc free runs | scanned pc | finds pc pushes
  | skips pc skipped | reset pc | empty pc | breaks pc | wake pc =>
      exact guarded.of_outside ⟨rfl, rfl⟩ same rfl fun isTop => by cases isTop
  | clear pc free =>
      exact guarded.of_outside ⟨rfl, rfl⟩ (fun _ member => by cases member) rfl
        fun isTop => by cases isTop
  | recheck pc next | recheckLoop pc next =>
      rcases next with rfl | rfl <;>
        exact guarded.of_outside ⟨rfl, rfl⟩ same rfl fun isTop => by cases isTop
  | more pc nonempty => exact guarded.of_outside ⟨rfl, rfl⟩ same rfl fun _ => nonempty
  | pop pc isFirst =>
      refine guarded.of_outside ⟨rfl, rfl⟩ (fun q member => ?_) rfl fun isTop => by cases isTop
      rw [isFirst]
      exact List.mem_cons_of_mem _ member
  | push pc free listed isId pushed =>
      refine ⟨fun q copy => ?_, fun isTop => (by cases isTop), fun t read => ?_, fun _ => rfl,
        fun stopping => ?_⟩
      · rcases copy with copy | copy
        · rcases List.mem_cons.1 (pushed.1.mem_iff.1 copy) with rfl | old
          · exact keyed q listed
          · exact guarded.keys q (.inl old)
        · exact guarded.keys q (.inr copy)
      · rcases read with read | read <;> cases read
      · have holds : s.game.holds .queue = true := by
          rw [show s.game = .stopTimer from stopping]
          rfl
        rw [free] at holds
        cases holds
  | top pc isFirst =>
      exact guarded.of_entry (.inl rfl) (fun isTop => by cases isTop) (fun _ => rfl) (.inl isFirst)
  | @compare _ _ t _ pc next =>
      have read := guarded.read t (.inl (by rw [pc]; rfl))
      simp only [State.Doomed, pc] at read
      rcases next with rfl | rfl <;>
        exact guarded.of_entry (.inl rfl) (fun isTop => by cases isTop) (fun _ => rfl) read
  | @wait _ _ t pc =>
      have read := guarded.read t (.inl (by rw [pc]; rfl))
      simp only [State.Doomed, pc] at read
      exact guarded.of_entry (.inl rfl) (fun isTop => by cases isTop) (fun _ => rfl) read
  | @check _ _ t pc runs =>
      have read := guarded.read t (.inl (by rw [pc]; rfl))
      simp only [State.Doomed, pc, runs, Bool.false_eq_true, false_or] at read
      exact guarded.of_entry (.inl rfl) (fun isTop => by cases isTop) (fun _ => rfl) read
  | @checkLoop _ _ t pc quiet =>
      exact guarded.of_entry (.inl rfl) (fun isTop => by cases isTop) (fun _ => rfl)
        (.inl (first (.inl (by rw [pc]; rfl)) (by simp [State.Doomed, pc, quiet])))
  | @lockFrame _ _ t pc free =>
      refine guarded.of_entry (.inl rfl) (fun isTop => by cases isTop) (fun holds => ?_)
        (.inl (first (.inl (by rw [pc]; rfl)) (by simp [State.Doomed, pc])))
      rw [free] at holds
      cases holds
  | @found _ _ t pc =>
      refine guarded.of_entry (.inl rfl) (fun isTop => by cases isTop) (fun holds => ?_)
        (.inl (first (.inl (by rw [pc]; rfl)) (by simp [State.Doomed, pc])))
      have away := guarded.apart holds
      rw [pc] at away
      cases away
  | @gone _ _ t pc none =>
      exact guarded.of_entry (.inr rfl) (fun isTop => by cases isTop) (fun _ => rfl)
        (.inl (first (.inl (by rw [pc]; rfl)) (by simp [State.Doomed, pc])))
  | @mark order now t pc pushed =>
      have isFirst : s.queue.head? = some t :=
        first (.inl (by rw [pc]; rfl)) (by simp [State.Doomed, pc])
      refine ⟨fun q copy => ?_, fun isTop => (by cases isTop), fun u read => ?_, fun _ => rfl,
        fun stopping => ?_⟩
      · rcases copy with copy | copy | copy
        · exact guarded.keys q (.inl copy)
        · rcases List.mem_cons.1 (pushed.1.mem_iff.1 copy) with rfl | old
          · exact guarded.keys q (.inl (List.mem_of_mem_head? isFirst))
          · exact guarded.keys q (.inr (.inl old))
        · exact guarded.keys q (.inr (.inr copy))
      · rcases read with read | read
        · cases read
        · cases read
          exact .inl isFirst
      · have away := guarded.apart (by rw [show s.game = .stopTimer from stopping]; rfl)
        rw [pc] at away
        cases away
  | addTimer idle free accepted =>
      refine guarded.of_game rfl rfl (fun q copy => copy.imp_right (fun taken => by cases taken)) ?_
        id .inl (fun holds => by cases holds) fun same => by cases same
      intro key member
      simp only [State.insert]
      split
      · exact member
      · exact List.mem_append_left _ member
  | erase idle erases free after =>
      rcases after with rfl | rfl <;> exact guarded.of_game rfl rfl
        (fun q copy => copy.imp_right (fun taken => by cases taken)) (fun _ member => member)
        id .inl (fun holds => by cases holds) fun same => by cases same
  | stopAll idle =>
      exact guarded.of_game rfl rfl (fun q copy => copy.imp_right (fun taken => by cases taken))
        (fun _ member => member) (fun _ => rfl) (fun _ => .inl rfl) (fun holds => by cases holds)
        fun same => by cases same
  | signal pc | restart pc =>
      exact guarded.of_game rfl rfl (fun q copy => copy.imp_right (fun taken => by cases taken))
        (fun _ member => member) (fun _ => rfl) (fun _ => .inr rfl) (fun holds => by cases holds)
        fun same => by cases same
  | changeTimerById idle | change pc | drop pc | execute pc listed | remove pc free =>
      exact guarded.of_game rfl rfl (fun q copy => copy.imp_right (fun taken => by cases taken))
        (fun _ member => member) id .inl (fun holds => by cases holds) fun same => by cases same
  | stopFrame pc free =>
      exact guarded.of_game rfl rfl (fun q copy => copy.imp_right (fun taken => by cases taken))
        (fun _ member => member) id .inl (fun _ => free) fun same => by cases same
  | startFrame idle isFirst =>
      refine guarded.of_game rfl rfl (fun q copy => ?_) (fun _ member => member) id .inl
        (fun holds => by cases holds) fun same => by cases same
      rw [isFirst, List.mem_cons]
      rcases copy with copy | copy
      · exact .inl (.inr copy)
      · exact .inl (.inl (List.mem_singleton.1 copy))
  | stopQueue pc =>
      obtain ⟨notTop, doomed⟩ := settled pc
      refine ⟨fun q copy => ?_, fun isTop => absurd isTop notTop,
        fun t read => .inr (doomed t read),
        fun _ => guarded.apart (by rw [pc]; rfl), fun _ => ⟨rfl, rfl⟩⟩
      rcases copy with copy | copy | copy <;> cases copy
  | stopTimer pc free =>
      obtain ⟨noQueue, noFrames⟩ := guarded.emptied pc
      refine ⟨fun q copy => ?_, guarded.top, guarded.read, fun holds => (by cases holds),
        fun same => by cases same⟩
      rcases copy with copy | copy | copy
      · simp only [State.erase, noQueue] at copy
        cases copy
      · simp only [State.erase, noFrames] at copy
        cases copy
      · cases copy
  | returns idle running | fail pc listed isId =>
      unfold State.finished
      split <;> exact guarded.of_game rfl rfl
        (fun q copy => copy.imp_right (fun taken => by cases taken)) (fun _ member => member)
        id .inl (fun holds => by cases holds) fun same => by cases same

theorem guarded_of_reaches (run : machine.Reaches Settled s) : Guarded s := by
  refine Machine.Reaches.invariant (I := Guarded) ?_ (fun s a s' before guarded settled moved =>
    guarded.step (keyed_of_reachable before.reachable) settled (move_of_step moved)) run
  rintro _ ⟨maxClients, rfl⟩
  constructor <;> simp [State.zero, GamePc.taken, GamePc.holds, WorkerPc.entry, WorkerPc.handed]

/-- **Defined reads.**  In every run in which `stop_all` empties the queue of no worker that
goes on with an entry of it, every read of the worker is defined, it pops what it has read,
and every group that is looked for has its key. -/
theorem defined_of_settled (s : State) (run : machine.Reaches Settled s) : s.Defined :=
  (guarded_of_reaches run).defined

/-- `Settled`, to be tested. -/
def settled (s : State) : Action → Bool
  | .go _ _ => s.game != .stopQueue || s.worker == .sleep
  | _ => true

theorem settled_sound (s : State) (a : Action) (ok : settled s a = true) : Settled s a := by
  cases a with
  | go allots now =>
      intro stopping
      simp only [settled, stopping, bne_self_eq_false, Bool.false_or, beq_iff_eq] at ok
      rw [ok]
      refine ⟨fun isTop => (by cases isTop), fun t read => ?_⟩
      rcases read with read | read <;> cases read
  | _ => trivial

/-- `stop_all` comes while the worker sleeps, and a timer is added to another group, looked
for and about to be popped. -/
theorem defined_of_settled_again : ∃ s : State,
    ((∃ t, s.worker = .pop t) ∧ s.groups = [(1, 5)]) ∧ s.Defined := by
  let t : Tm := ⟨2, 1, 7, 5, .fin false 1, 1000000000, 1, 0, false⟩
  let again : List Action :=
    [.work [] 0, .work [] 0, .work [] 0, .work [] 0, .returns 1 0, .go true 0,
      .stopAll, .go true 0, .go true 0, .go true 0, .go true 0,
      .addTimer .zero 1 7 (.fin false 1) 5 1 0 0, .go true 0, .work [] 0, .work [] 0, .work [] 0,
      .work [] 0, .work [t] 0, .work [] 0, .work [] 0, .work [] 0, .work [] 0,
      .work [] 1000000000, .work [] 0, .work [] 0, .work [] 0, .work [] 0, .work [t] 0]
  have ends : (machine.execIf settled (.zero 32) (called ++ again)).map
      (fun s => s.worker == .pop t && s.groups == [(1, 5)]) = some true := by decide +kernel
  obtain ⟨s, run, holds⟩ := Machine.exists_reaches (M := machine) settled_sound ⟨32, rfl⟩ ends
  simp only [Bool.and_eq_true, beq_iff_eq] at holds
  exact ⟨s, ⟨⟨t, holds.1⟩, holds.2⟩, defined_of_settled s run⟩

/-- `stop_all` empties the queue while the worker is about to hand over its top. -/
theorem not_always_defined : ¬ ∀ s, machine.Reachable s → s.Defined := by
  intro always
  let t : Tm := ⟨1, 1, 7, 0, .fin false 1, 1000000000, 1, 0, false⟩
  have ends : (machine.exec (.zero 32)
      [.addTimer .zero 1 7 (.fin false 1) 0 1 0 0, .go true 0, .work [] 0, .work [] 0, .work [] 0,
        .work [] 0, .work [t] 0, .work [] 0, .work [] 0, .work [] 0, .work [] 0,
        .work [] 1000000000, .work [] 0, .work [] 0, .work [] 0, .work [] 0, .work [t] 0,
        .stopAll, .go true 0, .go true 0]).map
        (fun s => s.worker == .pop t && s.queue == []) = some true := by decide +kernel
  obtain ⟨s, run, holds⟩ := Machine.exists_reachable (M := machine) ⟨32, rfl⟩ ends
  simp only [Bool.and_eq_true, beq_iff_eq] at holds
  have first := (always s run).pop t holds.1
  rw [holds.2] at first
  cases first

end Refsapi.Timers
