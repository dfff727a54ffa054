/-
# Timers.Change -- when a change of a timer takes effect

`change_timer_by_id` writes to the timer in `m_timers`, and `frame_forward` decides by a
copy that the worker has handed over.  A copy that is ahead of the worker's checks is
dropped, as `change_timer_by_id` then raises the signal; one that is past them is not
(`State.past`).  So a change is heeded (`heeded_of_prompt`) where it finds no copy past the
checks, and its signal comes before the worker has passed them with an old copy, and
outside a build that has pushed one.
-/
import Refsapi.Timers.Signal
import Refsapi.Timers.Callback

namespace Refsapi.Timers

set_option autoImplicit false

/-! ## Copies ahead of the checks and past them -/

/-- The entry that the worker has still to check. -/
def WorkerPc.unchecked : WorkerPc → Option Tm
  | compare t | wait t | check t | checkLoop t => some t
  | _ => none

/-- The entry that the worker has checked and not yet handed over. -/
def WorkerPc.checked : WorkerPc → Option Tm
  | lockFrame t | lookup t | mark t => some t
  | _ => none

def State.ahead (s : State) : List Tm := s.queue ++ s.worker.unchecked.toList

def State.past (s : State) : List Tm :=
  s.worker.checked.toList ++ s.frames ++ s.game.taken ++ s.inside

variable {s s' : State} {a : Action}

theorem mem_ahead {q : Tm} : q ∈ s.ahead ↔ q ∈ s.queue ∨ s.worker.unchecked = some q := by
  simp [State.ahead]

theorem mem_past {q : Tm} : q ∈ s.past ↔
    s.worker.checked = some q ∨ q ∈ s.frames ∨ q ∈ s.game.taken ∨ q ∈ s.inside := by
  simp [State.past]

theorem past_of_finish {b : State} {t : Tm} {ret now : Int} {q : Tm}
    (worker : b.worker = s.worker) (frames : b.frames = s.frames)
    (inside : b.inside.Sublist s.inside) (copy : q ∈ (b.finished t ret now).past) :
    q ∈ s.past := by
  have parts : (b.finished t ret now).worker = b.worker ∧
      (b.finished t ret now).frames = b.frames ∧
      (b.finished t ret now).inside = b.inside := by
    unfold State.finished
    split <;> exact ⟨rfl, rfl, rfl⟩
  rw [mem_past, finish_taken, parts.1, parts.2.1, parts.2.2] at copy
  rcases copy with copy | copy | copy | copy
  · exact mem_past.2 (.inl (worker ▸ copy))
  · exact mem_past.2 (.inr (.inl (frames ▸ copy)))
  · cases copy
  · exact mem_past.2 (.inr (.inr (.inr (inside.subset copy))))

/-- **What passes the checks** is the entry that the worker is at. -/
theorem past_of_move (move : Move s a s') {q : Tm} (copy : q ∈ s'.past) :
    q ∈ s.past ∨ s.worker = .checkLoop q ∧ s.stopLoop = false ∧
      ∃ order now, a = .work order now := by
  -- The worker has moved, and is at no entry that it has checked.
  have work {queue : List Tm} {pc : WorkerPc} {stopLoop stopTimer : Bool}
      (copy : q ∈ ({ s with queue, worker := pc, stopLoop, stopTimer } : State).past)
      (none : pc.checked = none ∨ pc.checked = s.worker.checked) : q ∈ s.past := by
    rw [mem_past] at copy ⊢
    refine copy.imp_left fun isChecked => ?_
    rcases none with none | same
    · simp only [none] at isChecked
      cases isChecked
    · exact same ▸ isChecked
  have game {timers : List Tm} {groups : List (Nat × Nat)} {queue : List Tm} {nums : Nat}
      {stopLoop stopTimer : Bool} {pc : GamePc} {history : List Event}
      (copy : q ∈
        ({ s with timers, groups, queue, nums, stopLoop, stopTimer, game := pc, history } :
        State).past) (none : pc.taken = []) : q ∈ s.past := by
    rw [mem_past] at copy ⊢
    rcases copy with copy | copy | copy | copy
    · exact .inl copy
    · exact .inr (.inl copy)
    · simp only [none] at copy
      cases copy
    · exact .inr (.inr (.inr copy))
  cases move with
  | stay => exact .inl copy
  | checkLoop pc quiet =>
      rcases mem_past.1 copy with copy | rest
      · cases copy
        exact .inr ⟨pc, quiet, _, _, rfl⟩
      · exact .inl (mem_past.2 (.inr rest))
  | lockFrame pc | found pc =>
      exact .inl (work copy (.inr (by rw [pc]; rfl)))
  | recheck pc next | recheckLoop pc next | compare pc next =>
      rcases next with rfl | rfl <;> exact .inl (work copy (.inl rfl))
  | start | clear | refused | enter | scanned | finds | skips | push | reset | empty | more | top
  | wait | check | breaks | gone | pop | wake => exact .inl (work copy (.inl rfl))
  | @mark order now t pc pushed =>
      rcases mem_past.1 copy with copy | copy | rest
      · cases copy
      · rcases List.mem_cons.1 (pushed.1.mem_iff.1 copy) with rfl | older
        · exact .inl (mem_past.2 (.inl (by rw [pc]; rfl)))
        · exact .inl (mem_past.2 (.inr (.inl older)))
      · exact .inl (mem_past.2 (.inr (.inr rest)))
  | erase idle erases free after => rcases after with rfl | rfl <;> exact .inl (game copy rfl)
  | addTimer | changeTimerById | stopAll | signal | change | stopFrame | stopTimer | restart
  | drop | remove => exact .inl (game copy rfl)
  | startFrame idle first =>
      rw [mem_past] at copy
      simp only [GamePc.taken, List.mem_singleton] at copy
      rw [mem_past, first, List.mem_cons]
      rcases copy with copy | copy | rfl | copy
      · exact .inl (.inl copy)
      · exact .inl (.inr (.inl (.inr copy)))
      · exact .inl (.inr (.inl (.inl rfl)))
      · exact .inl (.inr (.inr (.inr copy)))
  | stopQueue pc =>
      rcases mem_past.1 copy with copy | copy | copy | copy
      · exact .inl (mem_past.2 (.inl copy))
      · cases copy
      · cases copy
      · exact .inl (mem_past.2 (.inr (.inr (.inr copy))))
  | @execute _ t tm pc listed same =>
      rcases mem_past.1 copy with copy | copy | copy | copy
      · exact .inl (mem_past.2 (.inl copy))
      · exact .inl (mem_past.2 (.inr (.inl copy)))
      · cases copy
      · rcases List.mem_cons.1 copy with rfl | older
        · exact .inl (mem_past.2 (.inr (.inr (.inl (by simp [pc, GamePc.taken])))))
        · exact .inl (mem_past.2 (.inr (.inr (.inr older))))
  | @returns ret now t rest idle running =>
      exact .inl (past_of_finish (b := { s with inside := rest }) rfl rfl
        (running ▸ List.sublist_cons_self _ _) copy)
  | @fail now t tm pc listed same =>
      exact .inl (past_of_finish
        (b := { s with game := .idle, history := .missed t :: s.history }) rfl rfl
        (List.Sublist.refl _) copy)

/-! ## A change and what follows it -/

/-- The arguments of `change_timer_by_id`. -/
structure Change where
  id : Nat
  delaySec : Fp
  flags : UInt32
  repeats : UInt32

/-- The game thread has found the timer of a change and comes to its writes. -/
def Change.pc (c : Change) : GamePc := .change c.id c.delaySec c.flags c.repeats

/-- `change_timer_by_id` returns true if it comes to its writes. -/
theorem changeTimerById_iff (idle : s.game = .idle) (amx : Nat) (c : Change) :
    (s.changeTimerById amx c.id c.delaySec c.flags c.repeats).2 = true ↔
      (s.changeTimerById amx c.id c.delaySec c.flags c.repeats).1.game = c.pc := by
  unfold State.changeTimerById
  split <;> simp [Change.pc, idle]

/-- A record has the values of a change: its delay, and the flags and the count that are not
zero. -/
def Change.In (c : Change) (t : Tm) : Prop :=
  t.delaySec = c.delaySec ∧ (c.flags ≠ timerFlagNone → t.flags = c.flags) ∧
    (c.repeats ≠ 0 → t.repeats = c.repeats)

theorem Change.in_changed (c : Change) (t : Tm) :
    c.In (State.changed c.delaySec c.flags c.repeats t) :=
  ⟨rfl, fun given => if_pos given, fun given => if_pos given⟩

/-- The step decides nothing about the timer of a change, and changes it no more. -/
def Undecided (c : Change) (s : State) (a : Action) : Prop :=
  (∀ q, Decides s a q → q.id ≠ c.id) ∧
    ((∃ allots now, a = .go allots now) →
      ∀ delaySec flags repeats, s.game ≠ .change c.id delaySec flags repeats)

/-- The signal of a change is in time: until it comes the worker checks no old copy, and it
comes in no build that has pushed one. -/
def Prompt (c : Change) (s : State) : Action → Prop
  | .work _ _ => s.game = .signal none → s.stopLoop = false →
      ∀ t, s.worker = .checkLoop t → t.id = c.id → c.In t
  | .go _ _ => s.game = .signal none → s.worker.building = true →
      ∀ q ∈ s.queue, q.id = c.id → c.In q
  | _ => True

/-- The worker will clear the queue before it checks an entry. -/
def State.Dropping (s : State) : Prop :=
  s.game = .signal none ∨ s.stopLoop = true ∧ s.worker.built = true ∨ s.worker = .start ∨
    s.worker = .clear

/-- The timer and its copies past the checks have the values of a change, and the worker will
drop the others. -/
structure Heeded (c : Change) (s : State) : Prop where
  known : c.id ≤ s.nums
  timers : ∀ t ∈ s.timers, t.id = c.id → c.In t
  past : ∀ q ∈ s.past, q.id = c.id → c.In q
  ahead : ∀ q ∈ s.ahead, q.id = c.id → c.In q ∨ s.Dropping

variable {c : Change}

theorem Heeded.timers_step (heeded : Heeded c s) (undecided : Undecided c s a)
    (move : Move s a s') {t : Tm} (listed : t ∈ s'.timers) (same : t.id = c.id) : c.In t := by
  cases written_of_move move listed with
  | kept old => exact heeded.timers t old same
  | marked old pc =>
      have isIn : c.In _ := heeded.timers _ old same
      exact isIn
  | @changed u _ _ _ old pc action =>
      have isId : u.id = c.id := same
      rw [isId] at pc
      exact absurd pc (undecided.2 action _ _ _)
  | @rearmed u q _ _ old isQ decides isAgain =>
      have isId : u.id = c.id := same
      exact absurd (isQ.symm.trans isId) (undecided.1 q decides)
  | added call accepted =>
      have new : s.nums + 1 = c.id := same
      have := heeded.known
      omega

theorem Heeded.past_step (heeded : Heeded c s) (prompt : Prompt c s a) (move : Move s a s') {q : Tm}
    (copy : q ∈ s'.past) (same : q.id = c.id) : c.In q := by
  rcases past_of_move move copy with old | ⟨pc, quiet, order, now, rfl⟩
  · exact heeded.past q old same
  · rcases heeded.ahead q (mem_ahead.2 (.inr (by rw [pc]; rfl))) same with isIn | dropping
    · exact isIn
    · rcases dropping with signal | ⟨loops, -⟩ | isStart | isClear
      · exact prompt signal quiet q pc same
      · rw [quiet] at loops
        cases loops
      · rw [pc] at isStart
        cases isStart
      · rw [pc] at isClear
        cases isClear

/-- The worker has moved on. -/
theorem Heeded.ahead_of_work (heeded : Heeded c s) {q : Tm} (same : q.id = c.id)
    (old : q ∈ s.ahead) (game : s'.game = s.game)
    (early : s.worker ≠ .start ∧ s.worker ≠ .clear)
    (loop : s.worker.built = true →
      s'.stopLoop = s.stopLoop ∧ s'.worker.built = true ∨ s'.worker = .clear) :
    c.In q ∨ s'.Dropping := by
  rcases heeded.ahead q old same with isIn | signal | ⟨loops, built⟩ | isStart | isClear
  · exact .inl isIn
  · exact .inr (.inl (game.trans signal))
  · rcases loop built with ⟨kept, built⟩ | isClear
    · exact .inr (.inr (.inl ⟨kept.trans loops, built⟩))
    · exact .inr (.inr (.inr (.inr isClear)))
  · exact absurd isStart early.1
  · exact absurd isClear early.2

/-- The game thread has moved, and this was no signal. -/
theorem Heeded.ahead_of_game (heeded : Heeded c s) {q : Tm} (same : q.id = c.id)
    (old : q ∈ s.ahead) (worker : s'.worker = s.worker)
    (loop : s.stopLoop = true → s'.stopLoop = true) (other : s.game ≠ .signal none) :
    c.In q ∨ s'.Dropping := by
  rcases heeded.ahead q old same with isIn | signal | ⟨loops, built⟩ | isStart | isClear
  · exact .inl isIn
  · exact absurd signal other
  · exact .inr (.inr (.inl ⟨loop loops, worker ▸ built⟩))
  · exact .inr (.inr (.inr (.inl (worker.trans isStart))))
  · exact .inr (.inr (.inr (.inr (worker.trans isClear))))

theorem Heeded.ahead_step (walked : Walked s) (heeded : Heeded c s) (prompt : Prompt c s a)
    (move : Move s a s') {q : Tm} (copy : q ∈ s'.ahead) (same : q.id = c.id) :
    c.In q ∨ s'.Dropping := by
  have queued (member : q ∈ s.queue) : q ∈ s.ahead := mem_ahead.2 (.inl member)
  cases move with
  | stay => exact heeded.ahead q copy same
  | start pc => exact .inr (.inr (.inr (.inr rfl)))
  | clear pc free =>
      rcases mem_ahead.1 copy with copy | copy <;> cases copy
  | refused pc stopped | enter pc free runs =>
      rcases mem_ahead.1 copy with copy | copy
      · simp only [walked.cleared pc] at copy
        cases copy
      · cases copy
  | scanned pc | finds pc pushes | skips pc skipped | reset pc =>
      rcases mem_ahead.1 copy with copy | copy
      · exact heeded.ahead_of_work same (queued copy) rfl (by simp [pc]) fun built => by
          simp [pc, WorkerPc.built, WorkerPc.beforeWalk, WorkerPc.building] at built
      · cases copy
  | push pc free listed isId pushed =>
      rcases mem_ahead.1 copy with copy | copy
      · rcases List.mem_cons.1 (pushed.1.mem_iff.1 copy) with rfl | old
        · exact .inl (heeded.timers q listed same)
        · exact heeded.ahead_of_work same (queued old) rfl (by simp [pc]) fun built => by
            simp [pc, WorkerPc.built, WorkerPc.beforeWalk, WorkerPc.building] at built
      · cases copy
  | empty pc | more pc nonempty | lockFrame pc free | found pc | gone pc none | mark pc pushed =>
      rcases mem_ahead.1 copy with copy | copy
      · exact heeded.ahead_of_work same (queued copy) rfl (by simp [pc]) fun _ => .inl ⟨rfl, rfl⟩
      · cases copy
  | checkLoop pc quiet =>
      rcases mem_ahead.1 copy with copy | copy
      · exact heeded.ahead_of_work same (queued copy) rfl (by simp [pc]) fun _ => .inl ⟨rfl, rfl⟩
      · cases copy
  | breaks pc =>
      rcases mem_ahead.1 copy with copy | copy
      · refine heeded.ahead_of_work same (queued copy) rfl ?_ fun _ => .inl ⟨rfl, rfl⟩
        rcases pc with ⟨pc, -⟩ | ⟨pc, -⟩ <;> simp [pc]
      · cases copy
  | top pc first =>
      refine heeded.ahead_of_work same ?_ rfl (by simp [pc]) fun _ => .inl ⟨rfl, rfl⟩
      rcases mem_ahead.1 copy with copy | copy
      · exact queued copy
      · cases copy
        exact queued (List.mem_of_mem_head? first)
  | @compare _ _ t _ pc next =>
      have unchecked : s.worker.unchecked = some t := by rw [pc]; rfl
      rcases next with rfl | rfl
      all_goals
        refine heeded.ahead_of_work same ?_ rfl (by simp [pc]) fun _ => .inl ⟨rfl, rfl⟩
        exact mem_ahead.2 ((mem_ahead.1 copy).imp_right unchecked.trans)
  | @wait _ _ t pc | @check _ _ t pc =>
      have unchecked : s.worker.unchecked = some t := by rw [pc]; rfl
      refine heeded.ahead_of_work same ?_ rfl (by simp [pc]) fun _ => .inl ⟨rfl, rfl⟩
      exact mem_ahead.2 ((mem_ahead.1 copy).imp_right unchecked.trans)
  | pop pc first =>
      rcases mem_ahead.1 copy with copy | copy
      · have old : q ∈ s.queue := first ▸ List.mem_cons_of_mem _ copy
        exact heeded.ahead_of_work same (queued old) rfl (by simp [pc]) fun _ => .inl ⟨rfl, rfl⟩
      · cases copy
  | recheck pc next =>
      rcases next with rfl | rfl
      all_goals
        rcases mem_ahead.1 copy with copy | copy
        · exact heeded.ahead_of_work same (queued copy) rfl (by simp [pc]) fun _ => .inl ⟨rfl, rfl⟩
        · cases copy
  | recheckLoop pc next =>
      rcases next with rfl | rfl
      · rcases mem_ahead.1 copy with copy | copy
        · exact heeded.ahead_of_work same (queued copy) rfl (by simp [pc]) fun _ => .inl ⟨rfl, rfl⟩
        · cases copy
      · exact .inr (.inr (.inr (.inr rfl)))
  | wake pc => exact .inr (.inr (.inr (.inr rfl)))
  | signal pc =>
      rcases heeded.ahead q copy same with isIn | signal | ⟨-, built⟩ | isStart | isClear
      · exact .inl isIn
      · by_cases walk : s.worker.beforeWalk = true
        · cases pc : s.worker with
          | start => exact .inr (.inr (.inr (.inl rfl)))
          | clear => exact .inr (.inr (.inr (.inr rfl)))
          | enter =>
              rcases mem_ahead.1 copy with copy | copy
              · simp only [walked.cleared pc] at copy
                cases copy
              · simp only [pc] at copy
                cases copy
          | _ =>
              rw [pc] at walk
              cases walk
        by_cases building : s.worker.building = true
        · rcases mem_ahead.1 copy with copy | copy
          · exact .inl (prompt signal building q copy same)
          · cases pc : s.worker <;>
              simp [pc, WorkerPc.building, WorkerPc.unchecked] at building copy
        · exact .inr (.inr (.inl ⟨rfl, by simp [WorkerPc.built, walk, building]⟩))
      · exact .inr (.inr (.inl ⟨rfl, built⟩))
      · exact .inr (.inr (.inr (.inl isStart)))
      · exact .inr (.inr (.inr (.inr isClear)))
  | stopQueue pc =>
      refine heeded.ahead_of_game same (mem_ahead.2 (.inr ?_)) rfl id (by simp [pc])
      exact (mem_ahead.1 copy).resolve_left (fun member => by cases member)
  | addTimer idle | erase idle | changeTimerById idle | startFrame idle =>
      exact heeded.ahead_of_game same copy rfl id (by simp [idle])
  | stopAll idle => exact heeded.ahead_of_game same copy rfl (fun _ => rfl) (by simp [idle])
  | change pc | stopFrame pc | stopTimer pc | drop pc | execute pc | remove pc =>
      exact heeded.ahead_of_game same copy rfl id (by simp [pc])
  | restart pc => exact heeded.ahead_of_game same copy rfl (fun _ => rfl) (by simp [pc])
  | @returns ret now t rest idle running =>
      obtain ⟨worker, queue⟩ := finish_worker (s := { s with inside := rest }) t ret now
      refine heeded.ahead_of_game same ?_ worker (fun loops => ?_) (by simp [idle])
      · rw [mem_ahead, worker, queue] at copy
        exact mem_ahead.2 copy
      · unfold State.finished
        split <;> exact loops
  | @fail now t tm pc listed isId =>
      obtain ⟨worker, queue⟩ := finish_worker
        (s := { s with game := .idle, history := .missed t :: s.history }) t 0 now
      refine heeded.ahead_of_game same ?_ worker (fun loops => ?_) (by simp [pc])
      · rw [mem_ahead, worker, queue] at copy
        exact mem_ahead.2 copy
      · unfold State.finished
        split <;> exact loops

theorem Heeded.step (walked : Walked s) (heeded : Heeded c s) (prompt : Prompt c s a)
    (undecided : Undecided c s a) (move : Move s a s') : Heeded c s' where
  known := heeded.known.trans (nums_le_of_move move)
  timers _ listed same := heeded.timers_step undecided move listed same
  past _ copy same := heeded.past_step prompt move copy same
  ahead _ copy same := heeded.ahead_step walked prompt move copy same

/-- The timer of a change to come has been added. -/
theorem change_known (run : machine.Reachable s) (pc : s.game = c.pc) : c.id ≤ s.nums := by
  have known : ∀ id delaySec flags repeats, s.game = .change id delaySec flags repeats →
      id ≤ s.nums := by
    refine Machine.Reaches.invariant (I := fun s => ∀ id delaySec flags repeats,
      s.game = .change id delaySec flags repeats → id ≤ s.nums) ?_
      (fun s a s' before known _ moved id delaySec flags repeats pc => ?_) run
    · rintro _ ⟨maxClients, rfl⟩ id delaySec flags repeats pc
      cases pc
    · have move := move_of_step moved
      refine le_trans ?_ (nums_le_of_move move)
      rcases change_of_move move pc with pending | ⟨amx, -, t, listed, -, rfl⟩
      · exact known id delaySec flags repeats pending
      · exact (dispatched_of_reachable before.reachable).1.known t listed
  exact known _ _ _ _ pc

theorem heeded_of_write (run : machine.Reachable s) (pc : s.game = c.pc)
    (early : ∀ q ∈ s.past, q.id = c.id → c.In q) {allots : Bool} {now : Int}
    (moved : step s (.go allots now) = some s') : Heeded c s' := by
  have known := change_known run pc
  have writes : s' = { s.written c.id (State.changed c.delaySec c.flags c.repeats) with
      game := .signal none } := by
    simp only [step, State.go, pc, Change.pc, GamePc.wants] at moved
    obtain ⟨mid, write, rfl⟩ := Option.map_eq_some_iff.1 moved
    rw [(write_eq_some_iff.1 write).2]
  subst writes
  refine ⟨known, fun t listed same => ?_, fun q copy same => ?_, fun _ _ _ => .inr (.inl rfl)⟩
  · obtain ⟨u, old, ⟨-, rfl⟩ | ⟨other, rfl⟩⟩ := mem_writeTo listed
    · exact c.in_changed u
    · exact absurd same other
  · refine early q ?_ same
    rw [mem_past] at copy ⊢
    rcases copy with copy | copy | copy | copy
    · exact .inl copy
    · exact .inr (.inl copy)
    · cases copy
    · exact .inr (.inr (.inr copy))

theorem Heeded.leads (run : machine.Reachable s) (heeded : Heeded c s)
    (later : machine.Leads (fun s a => Undecided c s a ∧ Prompt c s a) s s') : Heeded c s' :=
  later.invariant run heeded fun _ _ _ reached heeded ok moved =>
    heeded.step (dispatched_of_reachable reached).2 ok.2 ok.1 (move_of_step moved)

/-- **A change is heeded** the next time `frame_forward` decides about its timer, if its writes
find no old copy past the worker's checks, and its signal is in time. -/
theorem heeded_of_prompt (s written s' : State) (c : Change) (allots : Bool) (now : Int) (t : Tm)
    (run : machine.Reachable s) (pc : s.game = c.pc)
    (early : ∀ q ∈ s.past, q.id = c.id → c.In q)
    (writes : machine.step s (.go allots now) = some written)
    (later : machine.Leads (fun s a => Undecided c s a ∧ Prompt c s a) written s')
    (decides : s'.Deciding t) (same : t.id = c.id) : c.In t := by
  have heeded : Heeded c s' :=
    (heeded_of_write run pc early writes).leads (run.step trivial writes) later
  refine heeded.past t ?_ same
  rcases decides with forward | ⟨-, rest, running⟩
  · exact mem_past.2 (.inr (.inr (.inl (by simp [forward, GamePc.taken]))))
  · exact mem_past.2 (.inr (.inr (.inr (by simp [running]))))

/-- `Undecided` and `Prompt`, to be tested. -/
def inTime (s : State) : Action → Bool
  | .work _ _ => s.game != .signal none
  | .go allots _ => allots &&
    match s.game with
    | .change _ _ _ _ => false
    | .signal none => !s.worker.building
    | _ => true
  | .returns _ _ => false
  | _ => true

theorem inTime_sound (c : Change) (s : State) (a : Action) (ok : inTime s a = true) :
    Undecided c s a ∧ Prompt c s a := by
  refine ⟨⟨fun q decides => ?_, fun action delaySec flags repeats pc => ?_⟩, ?_⟩
  · cases decides <;> cases ok
  · obtain ⟨allots, now, rfl⟩ := action
    simp [inTime, pc] at ok
  · cases a with
    | work order now =>
        intro signal
        simp [inTime, signal] at ok
    | go allots now =>
        intro signal building
        simp [inTime, signal, building] at ok
    | _ => trivial

/-- The change of the examples: a delay of five seconds. -/
def toFive : Change := ⟨1, .fin false 5, 0, 0⟩

/-- The states of a replayed run before the writes of a change, after them, and at its end. -/
theorem exists_change {before after : List Action} {p : State → State → Bool}
    (ends : ((machine.exec (.zero 32) before).bind fun s =>
      (machine.step s (.go true 0)).bind fun written =>
        (machine.execIf inTime written after).map fun s' => p s s') = some true) :
    ∃ s written s', machine.Reachable s ∧ machine.step s (.go true 0) = some written ∧
      (∀ c, machine.Leads (fun s a => Undecided c s a ∧ Prompt c s a) written s') ∧
        p s s' = true := by
  obtain ⟨s, runs, ends⟩ := Option.bind_eq_some_iff.1 ends
  obtain ⟨written, writes, ends⟩ := Option.bind_eq_some_iff.1 ends
  obtain ⟨s', later, holds⟩ := Option.map_eq_some_iff.1 ends
  exact ⟨s, written, s', .of_exec (.init ⟨32, rfl⟩) runs, writes,
    fun c => .of_execIf (inTime_sound c) later, holds⟩

/-- The timer of the example is changed while the worker waits for it, pushed again and called. -/
theorem heeded_of_prompt_waiting : ∃ (s : State) (t : Tm), s.inside = [t] ∧ toFive.In t := by
  let pushed : Tm := { looping with delaySec := .fin false 5 }
  have ends : ((machine.exec (.zero 32)
      (called.take 11 ++ [.work [] 0, .changeTimerById 1 1 (.fin false 5) 0 0])).bind fun s =>
      (machine.step s (.go true 0)).bind fun written => (machine.execIf inTime written
        [.go true 0, .work [] 0, .work [] 0, .work [] 0, .work [] 0, .work [] 0, .work [] 0,
          .work [] 0, .work [] 0, .work [pushed] 0, .work [] 0, .work [] 0, .work [] 0, .work [] 0,
          .work [] 1000000000, .work [] 0, .work [] 0, .work [] 0, .work [] 0, .work [pushed] 0,
          .startFrame, .go true 0]).map
        fun s' => s.game == toFive.pc && s.past == [] && s'.game == .idle && s'.inside == [pushed])
      = some true := by decide +kernel
  obtain ⟨s, written, s', run, writes, later, holds⟩ := exists_change ends
  simp only [Bool.and_eq_true, beq_iff_eq] at holds
  obtain ⟨⟨⟨pc, none⟩, idle⟩, running⟩ := holds
  refine ⟨s', pushed, running, ?_⟩
  refine heeded_of_prompt s written s' toFive true 0 pushed run pc (fun q copy => ?_) writes
    (later toFive) (.inr ⟨idle, [], running⟩) rfl
  rw [none] at copy
  cases copy

/-- The callback changes the delay of its own timer. -/
theorem not_always_heeded : ¬ ∀ s written s' c t, machine.Reachable s → s.game = c.pc →
    machine.step s (.go true 0) = some written → machine.Leads (Undecided c) written s' →
    s'.Deciding t → t.id = c.id → c.In t := by
  intro always
  have ends : ((machine.exec (.zero 32) (called ++ [.changeTimerById 1 1 (.fin false 5) 0 0])).bind
      fun s => (machine.step s (.go true 0)).bind fun written =>
        (machine.execIf inTime written [.go true 0]).map
        fun s' => s.game == toFive.pc && s'.game == .idle && s'.inside == [looping])
      = some true := by decide +kernel
  obtain ⟨s, written, s', run, writes, later, holds⟩ := exists_change ends
  simp only [Bool.and_eq_true, beq_iff_eq] at holds
  have undecided : machine.Leads (Undecided toFive) written s' :=
    Relation.ReflTransGen.mono (fun _ _ ⟨a, ok, moved⟩ => ⟨a, ok.1, moved⟩) _ _ (later toFive)
  have isIn := always s written s' toFive looping run holds.1.1 writes undecided
    (.inr ⟨holds.1.2, [], holds.2⟩) rfl
  have delay : looping.delaySec = toFive.delaySec := isIn.1
  exact absurd delay (by decide +kernel)

end Refsapi.Timers
