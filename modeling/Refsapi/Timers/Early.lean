/-
# Timers.Early -- no callback runs before its time

Beside a run of the timer manager goes a clock that is never set back (`Watch`).  A step is
taken at a time; a reading of the clock that it uses may be older; and `wait_for` of the worker
ends when it is signalled or `delay_ms` are over, counted from the reading that `delay_ms` was
computed with.  `due` is when the plugin has asked for a callback: a delay after the native, and
at a repetition a delay after the decision about it where the timer is `RELATIVE` and after its
last `due` where it is not.

`delay_ms` is cut down to whole milliseconds, and so a callback can run up to one of them early;
it is never as much as one early (`never_early`).
-/
import Refsapi.Timers.Writes

namespace Refsapi.Timers

set_option autoImplicit false

/-! ## Runs with a clock -/

/-- The reading of the clock that a step uses. -/
def Action.reading : Action → Option Int
  | .work _ now | .addTimer _ _ _ _ _ _ _ now | .returns _ now | .go _ now => some now
  | _ => none

def millisecond : Int := 1000000

/-- `delay_ms` of `main`, in nanoseconds. -/
def waitTime (t : Tm) (start : Int) : Int := (t.time - start).tdiv millisecond * millisecond

/-- A step that ends a `wait_for` of the worker ends it in time. -/
def State.wakes (s : State) (start time : Int) : Action → Bool
  | .work _ _ =>
      match s.worker with
      | .wait t => s.stopTimer || s.stopLoop || decide (start + waitTime t start ≤ time)
      | _ => true
  | _ => true

/-- A step, the reading for `delay_ms` where it ends a wait, and the time of the step. -/
structure Tick where
  action : Action
  start : Int
  time : Int

/-- A callback that was run, or was not for want of room: the copy that `frame_forward` had,
when it was due, and when its turn came. -/
structure Call where
  copy : Tm
  due : Int
  time : Int

structure Watch where
  state : State
  clock : Int
  due : Nat → Int
  calls : List Call

namespace Watch

/-- When a timer is due again. -/
def again (x : Watch) (t : Tm) (now : Int) : Nat → Int :=
  Function.update x.due t.id
    (later (if t.flags &&& timerFlagRelative != 0 then now else x.due t.id) t.delaySec)

/-- A step makes timers due that the signal after it is for. -/
def dueAfter (x : Watch) (s' : State) : Action → Nat → Int
  | .addTimer _ _ _ delaySec _ _ _ now =>
      match x.state.game, s'.game with
      | .idle, .signal (some id) =>
          Function.update x.due id (later now (delaySec.clamp minDelay maxDelay))
      | _, _ => x.due
  | .returns _ now =>
      match x.state.game, x.state.inside, s'.game with
      | .idle, t :: _, .signal (some _) => x.again t now
      | _, _, _ => x.due
  | .go _ now =>
      match x.state.game, s'.game with
      | .forward t, .signal (some _) => x.again t now
      | _, _ => x.due
  | _ => x.due

def callsAfter (x : Watch) (s' : State) (time : Int) : Action → List Call
  | .go _ _ =>
      match x.state.game with
      | .forward t =>
          if s'.history.length = x.state.history.length then x.calls
          else ⟨t, x.due t.id, time⟩ :: x.calls
      | _ => x.calls
  | _ => x.calls

/-- The clock is not set back, and what has been read of it lies in the past. -/
def timely (x : Watch) (tick : Tick) : Bool :=
  x.clock ≤ tick.time && tick.start ≤ tick.time &&
    tick.action.reading.all (fun now => now ≤ tick.time) &&
    x.state.wakes tick.start tick.time tick.action

def step (x : Watch) (tick : Tick) : Option Watch :=
  if x.timely tick then
    (Timers.step x.state tick.action).map fun s' =>
      ⟨s', tick.time, x.dueAfter s' tick.action, x.callsAfter s' tick.time tick.action⟩
  else none

end Watch

def watched : Machine Watch Tick where
  init x := machine.init x.state ∧ x.calls = []
  step := Watch.step

variable {x x' : Watch} {s s' : State} {a : Action}

/-- What a step with a clock is. -/
theorem Watch.step_eq {tick : Tick} (moved : x.step tick = some x') :
    Timers.step x.state tick.action = some x'.state ∧ x'.clock = tick.time ∧
      x'.due = x.dueAfter x'.state tick.action ∧
      x'.calls = x.callsAfter x'.state tick.time tick.action ∧
      x.clock ≤ tick.time ∧ tick.start ≤ tick.time ∧
      (∀ now, tick.action.reading = some now → now ≤ tick.time) ∧
      x.state.wakes tick.start tick.time tick.action = true := by
  unfold Watch.step at moved
  split at moved
  · next timely =>
      obtain ⟨s', step, rfl⟩ := Option.map_eq_some_iff.1 moved
      simp only [Watch.timely, Bool.and_eq_true, decide_eq_true_eq] at timely
      obtain ⟨⟨⟨clock, start⟩, reading⟩, wakes⟩ := timely
      refine ⟨step, rfl, rfl, rfl, clock, start, fun now isReading => ?_, wakes⟩
      rw [isReading] at reading
      exact of_decide_eq_true reading
  · cases moved

/-- A run with a clock is a run. -/
theorem reachable_of_watched (reached : watched.Reachable x) : machine.Reachable x.state := by
  refine Machine.Reaches.invariant (I := fun x => machine.Reachable x.state)
    (fun x start => ?_) (fun x tick x' _ run _ moved => ?_) reached
  · exact .init start.1
  · exact .step run trivial (Watch.step_eq moved).1

/-! ## The worker does not hand over too early -/

/-- The time of a timer has come, or all but. -/
def Ripe (clock : Int) (t : Tm) : Prop := t.time < clock + millisecond

theorem Ripe.mono {clock time : Int} (le : clock ≤ time) {t : Tm} (ripe : Ripe clock t) :
    Ripe time t := by
  unfold Ripe at ripe ⊢
  omega

/-- Where the worker is behind its look at the clock, the time of its timer has come, or the
signal that woke it is still to be found. -/
def State.Waited (s : State) (clock : Int) : Prop :=
  match s.worker with
  | .check t => s.stopTimer = true ∨ s.stopLoop = true ∨ Ripe clock t
  | .checkLoop t => s.stopLoop = true ∨ Ripe clock t
  | .lockFrame t | .lookup t | .mark t => Ripe clock t
  | _ => True

theorem State.Waited.mono {clock time : Int} (le : clock ≤ time) (waited : s.Waited clock) :
    s.Waited time := by
  unfold State.Waited at waited ⊢
  split
  · next pc =>
      rw [pc] at waited
      exact waited.imp_right (.imp_right (.mono le))
  · next pc =>
      rw [pc] at waited
      exact waited.imp_right (.mono le)
  · next pc =>
      rw [pc] at waited
      exact waited.mono le
  · next pc =>
      rw [pc] at waited
      exact waited.mono le
  · next pc =>
      rw [pc] at waited
      exact waited.mono le
  · trivial

theorem ripe_of_waited {t : Tm} {start time : Int} (past : start ≤ time)
    (elapsed : start + waitTime t start ≤ time) : Ripe time t := by
  unfold waitTime millisecond at elapsed
  unfold Ripe millisecond
  have cut := Int.mul_tdiv_add_tmod (t.time - start) 1000000
  by_cases ahead : start ≤ t.time
  · have rest := Int.tmod_lt_of_pos (t.time - start) (show (0 : Int) < 1000000 by decide)
    omega
  · omega

theorem waited_work {order : List Tm} {now clock start time : Int}
    (moved : s.work order now = some s') (waited : s.Waited clock) (le : clock ≤ time)
    (past : start ≤ time) (read : now ≤ time)
    (wakes : s.wakes start time (.work order now) = true) : s'.Waited time := by
  have move := move_of_work moved
  have waited := waited.mono le
  unfold State.Waited at waited
  cases move with
  | @compare _ _ t pc' pc next =>
      rcases next with rfl | rfl
      · trivial
      · refine .inr (.inr ?_)
        simp only [State.work, pc] at moved
        split at moved
        · cases moved
        · by_cases ahead : t.time > now
          · simp only [ahead, if_true, Option.some.injEq, State.mk.injEq] at moved
            simp at moved
          · unfold Ripe millisecond
            omega
  | @wait _ _ t pc =>
      simp only [State.wakes, pc, Bool.or_eq_true, decide_eq_true_eq] at wakes
      rcases wakes with (stopTimer | stopLoop) | elapsed
      · exact .inl stopTimer
      · exact .inr (.inl stopLoop)
      · exact .inr (.inr (ripe_of_waited past elapsed))
  | check pc runs =>
      rw [pc] at waited
      rcases waited with stopped | stopLoop | ripe
      · rw [runs] at stopped
        cases stopped
      · exact .inl stopLoop
      · exact .inr ripe
  | checkLoop pc quiet =>
      rw [pc] at waited
      rcases waited with stopLoop | ripe
      · rw [quiet] at stopLoop
        cases stopLoop
      · exact ripe
  | lockFrame pc free =>
      rw [pc] at waited
      exact waited
  | found pc =>
      rw [pc] at waited
      exact waited
  | recheck pc next | recheckLoop pc next => rcases next with rfl | rfl <;> trivial
  | stay => exact waited
  | erase idle erases => cases erases
  | _ => trivial

theorem waited_of_move {clock : Int} (move : Move s a s') (waited : s.Waited clock)
    (notWork : ∀ order now, a ≠ .work order now) : s'.Waited clock := by
  -- The worker is where it was, and a stop is at most signalled.
  have game {s' : State} (worker : s'.worker = s.worker)
      (loop : s.stopLoop = true → s'.stopLoop = true)
      (timer : s.stopTimer = true → s'.stopTimer = true ∨ s'.stopLoop = true) :
      s'.Waited clock := by
    unfold State.Waited at waited ⊢
    rw [worker]
    cases pc : s.worker with
    | check t =>
        rw [pc] at waited
        rcases waited with stopTimer | stopLoop | ripe
        · rcases timer stopTimer with stopTimer | stopLoop
          · exact .inl stopTimer
          · exact .inr (.inl stopLoop)
        · exact .inr (.inl (loop stopLoop))
        · exact .inr (.inr ripe)
    | checkLoop t =>
        rw [pc] at waited
        exact waited.imp_left loop
    | lockFrame t | lookup t | mark t =>
        rw [pc] at waited
        exact waited
    | _ => trivial
  have finish {b : State} (worker : b.worker = s.worker) (loop : b.stopLoop = s.stopLoop)
      (timer : b.stopTimer = s.stopTimer) (t : Tm) (ret now : Int) :
      (b.finished t ret now).Waited clock := by
    have same : (b.finished t ret now).stopLoop = b.stopLoop ∧
        (b.finished t ret now).stopTimer = b.stopTimer := by
      unfold State.finished
      split <;> exact ⟨rfl, rfl⟩
    refine game ((finish_worker t ret now).1.trans worker) ?_ ?_
    · rw [same.1, loop]
      exact id
    · rw [same.2, timer]
      exact .inl
  cases move with
  | erase idle erases free after =>
      exact game rfl id .inl
  | signal pc | stopAll idle | restart pc => exact game rfl (fun _ => rfl) fun _ => .inr rfl
  | stay | addTimer | changeTimerById | startFrame | change | stopFrame | stopQueue | stopTimer
  | drop | execute | remove => exact game rfl id .inl
  | @returns ret now t rest idle running =>
      exact finish (b := { s with inside := rest }) rfl rfl rfl t ret now
  | @fail now t tm pc listed same =>
      exact finish (b := { s with game := .idle, history := .missed t :: s.history }) rfl rfl rfl
        t 0 now
  | _ => exact absurd rfl (notWork _ _)

/-- Where what `frame_forward` is handed comes from. -/
theorem handed_of_move (move : Move s a s') {q : Tm} (member : q ∈ s'.frames ++ s'.game.taken) :
    q ∈ s.frames ++ s.game.taken ∨ s.worker = .mark q := by
  have fewer {frames : List Tm} {pc : GamePc} (frames' : s'.frames = frames)
      (game : s'.game = pc) (kept : ∀ q ∈ frames, q ∈ s.frames)
      (none : pc.taken = [] ∨ pc.taken = s.game.taken) : q ∈ s.frames ++ s.game.taken := by
    rw [frames', game, List.mem_append] at member
    rw [List.mem_append]
    rcases member with inFrames | isTaken
    · exact .inl (kept q inFrames)
    · rcases none with none | same
      · rw [none] at isTaken
        cases isTaken
      · exact .inr (same ▸ isTaken)
  have finish {b : State} {t : Tm} {ret now : Int} (frames : b.frames = s.frames)
      (isFinish : s' = b.finished t ret now) : q ∈ s.frames ++ s.game.taken := by
    have same : (b.finished t ret now).frames = b.frames := by
      unfold State.finished
      split <;> rfl
    rw [isFinish, finish_taken, same, List.append_nil, frames] at member
    exact List.mem_append_left _ member
  cases move with
  | mark pc pushed =>
      rcases List.mem_append.1 member with inFrames | isTaken
      · rcases List.mem_cons.1 (pushed.1.mem_iff.1 inFrames) with rfl | old
        · exact .inr pc
        · exact .inl (List.mem_append_left _ old)
      · exact .inl (List.mem_append_right _ isTaken)
  | startFrame idle first =>
      left
      rw [first]
      rcases List.mem_append.1 member with inFrames | isTaken
      · exact List.mem_append_left _ (List.mem_cons_of_mem _ inFrames)
      · rw [List.mem_singleton.1 isTaken]
        exact List.mem_append_left _ List.mem_cons_self
  | erase idle erases free after =>
      rcases after with rfl | rfl <;> exact .inl (fewer rfl rfl (fun _ old => old) (.inl rfl))
  | addTimer | changeTimerById | stopAll | signal | change | stopFrame | stopTimer | restart
  | drop | execute | remove => exact .inl (fewer rfl rfl (fun _ old => old) (.inl rfl))
  | stopQueue pc => exact .inl (fewer rfl rfl (fun _ old => by cases old) (.inl rfl))
  | @returns ret now t rest idle running =>
      exact .inl (finish (b := { s with inside := rest }) rfl rfl)
  | @fail now t tm pc listed same =>
      exact .inl (finish (b := { s with game := .idle, history := .missed t :: s.history }) rfl rfl)
  | _ => exact .inl (fewer rfl rfl (fun _ old => old) (.inr rfl))

/-! ## Every copy has the time that was asked for -/

/-- Whoever decides has its copy from those of `frame_forward`, and leaves the queue. -/
theorem waiting_of_decides (move : Move s a s') {q : Tm} (decides : Decides s a q) :
    s'.waiting = s.waiting ∧ q ∈ s.core.taken ++ s.core.inside := by
  have finish (b : State) (worker : b.worker = s.worker) (queue : b.queue = s.queue) (t : Tm)
      (ret now : Int) : (b.finished t ret now).waiting = s.waiting :=
    waiting_congr ((finish_worker t ret now).1.trans worker)
      ((finish_worker t ret now).2.trans queue)
  cases decides with
  | returns idle running =>
      refine ⟨?_, List.mem_append_right _ (by simp [State.core, running])⟩
      cases move with
      | stay => rfl
      | erase idle erases => cases erases
      | @returns ret now t rest idle running =>
          exact finish { s with inside := rest } rfl rfl t _ _
  | fails pc =>
      refine ⟨?_, List.mem_append_left _ (by simp [State.core, pc, GamePc.taken])⟩
      cases move with
      | stay => rfl
      | erase idle erases => cases erases
      | drop => rfl
      | @fail now t tm pc listed same =>
          exact finish { s with game := .idle, history := .missed t :: s.history } rfl rfl t 0 _
      | signal other => rcases other with ⟨_, other⟩ | other <;> rw [pc] at other <;> cases other
      | change other | stopFrame other | stopQueue other | stopTimer other | restart other
      | remove other =>
          rw [pc] at other
          cases other

/-- The copies of a timer have its time. -/
def State.Agrees (s : State) : Prop :=
  ∀ q ∈ s.core.copies, ∀ t ∈ s.timers, t.id = q.id → q.time = t.time

theorem agrees_of_move (ok : Dispatched s.core) (ok' : Dispatched s'.core)
    (effects : Effects s.core s'.core) (move : Move s a s') (agrees : s.Agrees) : s'.Agrees := by
  intro q copy t listed same
  -- A timer that was there before, and what the copy was.
  have kept {u : Tm} (old : u ∈ s.timers) (isId : u.id = q.id) : q.time = u.time := by
    rcases effects.copies copy with older | ⟨isTimer, -⟩
    · exact agrees q older u old isId
    · rw [ok.unique isTimer old isId.symm]
  cases written_of_move move listed with
  | kept old => exact kept old same
  | @marked u old pc => exact (kept old same : q.time = u.time)
  | @changed u delaySec flags repeats old pc action => exact (kept old same : q.time = u.time)
  | @rearmed u p ret now old isP decides isAgain =>
      -- The one copy that it had was the one that has been decided about.
      exfalso
      obtain ⟨waiting, isHanded⟩ := waiting_of_decides move decides
      have handed : p ∈ s.core.frames ++ s.core.taken ++ s.core.inside := by
        rw [List.append_assoc]
        exact List.mem_append_right _ isHanded
      have executed := ok.marked p handed u old isP
      simp only [Core.copies, List.append_assoc, List.mem_append] at copy
      rcases copy with inQueue | inFrames | isTaken | isInside
      · have inQueue : q ∈ s'.waiting := inQueue
        rw [waiting] at inQueue
        have waits := ok.waits q inQueue u old same
        rw [executed] at waits
        cases waits
      all_goals
        have marked := ok'.marked q (by simp only [List.mem_append]; tauto) _ listed same
        cases marked
  | added call accepted =>
      exfalso
      have known : q.id ≤ s.nums := by
        rcases effects.copies copy with older | ⟨isTimer, -⟩
        · exact ok.old q older
        · exact ok.known q isTimer
      have isNew : s.nums + 1 = q.id := same
      omega

/-! ## Timers are due when they were asked for -/

theorem dueAfter_quiet (x : Watch) (quiet : ∀ id, s'.game ≠ .signal (some id)) (a : Action) :
    x.dueAfter s' a = x.due := by
  unfold Watch.dueAfter
  split
  · split
    · next other => exact absurd other (quiet _)
    · rfl
  · split
    · next other => exact absurd other (quiet _)
    · rfl
  · split
    · next other => exact absurd other (quiet _)
    · rfl
  · rfl

theorem dueAfter_stay (x : Watch) (a : Action) : x.dueAfter x.state a = x.due := by
  unfold Watch.dueAfter
  split
  · split
    · next idle signal =>
        rw [idle] at signal
        cases signal
    · rfl
  · split
    · next idle _ signal =>
        rw [idle] at signal
        cases signal
    · rfl
  · split
    · next pc signal =>
        rw [pc] at signal
        cases signal
    · rfl
  · rfl

def Watch.OnTime (x : Watch) : Prop := ∀ t ∈ x.state.timers, t.time = x.due t.id

theorem onTime_finish (onTime : x.OnTime) {b : State} {t : Tm} {ret now : Int}
    (timers : b.timers = x.state.timers)
    (due : ∀ (s' : State) id, s'.game = .signal (some id) → x.dueAfter s' a = x.again t now) :
    ∀ u ∈ (b.finished t ret now).timers, u.time = x.dueAfter (b.finished t ret now) a u.id := by
  intro u listed
  by_cases again : State.again t ret = true
  · have isFinish : (b.finished t ret now).timers = writeTo t.id (State.rearmed t now) b.timers ∧
        (b.finished t ret now).game = .signal (some t.id) := by
      unfold State.finished
      rw [if_pos again]
      exact ⟨rfl, rfl⟩
    rw [due _ t.id isFinish.2, Watch.again]
    rw [isFinish.1, timers] at listed
    obtain ⟨v, old, ⟨same, rfl⟩ | ⟨other, rfl⟩⟩ := mem_writeTo listed
    · have isId : (State.rearmed t now v).id = t.id := same
      rw [isId, Function.update_self, ← same, ← onTime v old]
      rfl
    · rw [Function.update_of_ne other]
      exact onTime u old
  · have isFinish : (b.finished t ret now).timers = b.timers ∧
        (b.finished t ret now).game = .remove t := by
      unfold State.finished
      rw [if_neg again]
      exact ⟨rfl, rfl⟩
    rw [dueAfter_quiet x (fun id signal => by rw [isFinish.2] at signal; cases signal)]
    exact onTime u (timers ▸ isFinish.1 ▸ listed)

theorem onTime_of_move (ok : Dispatched x.state.core) (onTime : x.OnTime)
    (move : Move x.state a s') : ∀ u ∈ s'.timers, u.time = x.dueAfter s' a u.id := by
  intro u listed
  cases move with
  | stay =>
      rw [dueAfter_stay]
      exact onTime u listed
  | @addTimer memory amx fwdId delaySec groupId flags repeats now idle free accepted =>
      have isDue : x.dueAfter (x.state.insert (x.state.newTimer memory amx fwdId delaySec groupId
          flags repeats now)) (.addTimer memory amx fwdId delaySec groupId flags repeats now) =
          Function.update x.due (x.state.nums + 1)
            (later now (delaySec.clamp minDelay maxDelay)) := by
        simp only [Watch.dueAfter, idle]
        rfl
      rw [isDue]
      rcases List.mem_cons.1 ((insert_perm _ _ _).mem_iff.1 listed) with rfl | old
      · exact (Function.update_self (x.state.nums + 1) _ x.due).symm
      · have known : u.id ≤ x.state.nums := ok.known u old
        rw [Function.update_of_ne (by omega)]
        exact onTime u old
  | @returns ret now t rest idle running =>
      refine onTime_finish (b := { x.state with inside := rest }) onTime rfl
        (fun s' id signal => ?_) u listed
      simp only [Watch.dueAfter, idle, running, signal]
  | @fail now t tm pc present same =>
      refine onTime_finish
        (b := { x.state with game := .idle, history := .missed t :: x.state.history }) onTime rfl
        (fun s' id signal => ?_) u listed
      simp only [Watch.dueAfter, pc, signal]
  | mark pc pushed =>
      obtain ⟨v, old, ⟨-, same⟩ | ⟨-, same⟩⟩ := mem_writeTo listed
      all_goals
        rw [same]
        exact onTime v old
  | change pc =>
      rw [dueAfter_quiet x fun id signal => by cases signal]
      obtain ⟨v, old, ⟨-, same⟩ | ⟨-, same⟩⟩ := mem_writeTo listed
      all_goals
        rw [same]
        exact onTime v old
  | erase idle erases free after =>
      rw [dueAfter_quiet x fun id signal => by rcases after with rfl | rfl <;> cases signal]
      exact onTime u (List.mem_filter.1 listed).1
  | stopTimer | remove =>
      rw [dueAfter_quiet x fun id signal => by cases signal]
      exact onTime u (List.mem_filter.1 listed).1
  | changeTimerById | stopAll | startFrame | signal | stopFrame | stopQueue | restart | drop
  | execute =>
      rw [dueAfter_quiet x fun id signal => by cases signal]
      exact onTime u listed
  | _ => exact onTime u listed

/-! ## Along every run -/

/-- A call whose turn has come with its time, or less than a millisecond before. -/
def Call.Fits (call : Call) : Prop :=
  call.due < call.time + millisecond ∧ call.copy.time = call.due

structure Watch.Sound (x : Watch) : Prop where
  waited : x.state.Waited x.clock
  handed : ∀ q ∈ x.state.frames ++ x.state.game.taken, Ripe x.clock q
  agrees : x.state.Agrees
  onTime : x.OnTime
  calls : ∀ call ∈ x.calls, call.Fits

/-- Whom `frame_forward` calls has a timer. -/
theorem called_of_move (move : Move s a s') {t : Tm} (pc : s.game = .forward t)
    (isGo : ∃ allots now, a = .go allots now) (told : s'.history.length ≠ s.history.length) :
    ∃ tm ∈ s.timers, tm.id = t.id := by
  obtain ⟨allots, now, rfl⟩ := isGo
  cases move with
  | execute other listed same | fail other listed same =>
      rw [pc] at other
      cases other
      exact ⟨_, listed, same⟩
  | stay | drop => exact absurd rfl told
  | erase idle erases => cases erases
  | signal other => rcases other with ⟨_, other⟩ | other <;> rw [pc] at other <;> cases other
  | change other | stopFrame other | stopQueue other | stopTimer other | restart other
  | remove other =>
      rw [pc] at other
      cases other

theorem Watch.Sound.calls_step (sound : x.Sound) (move : Move x.state a s') {time : Int}
    (le : x.clock ≤ time) : ∀ call ∈ x.callsAfter s' time a, call.Fits := by
  intro call member
  cases a with
  | go allots now =>
      cases pc : x.state.game with
      | forward t =>
          simp only [Watch.callsAfter, pc] at member
          split at member
          · exact sound.calls call member
          · next told =>
              rcases List.mem_cons.1 member with rfl | old
              · obtain ⟨tm, listed, same⟩ := called_of_move move pc ⟨_, _, rfl⟩ told
                have isTaken : t ∈ x.state.game.taken := by simp [pc, GamePc.taken]
                have ripe := (sound.handed t (List.mem_append_right _ isTaken)).mono le
                have isCopy : t ∈ x.state.core.copies := by
                  simp only [Core.copies, State.core, List.append_assoc, List.mem_append]
                  exact .inr (.inr (.inl isTaken))
                have isDue : t.time = x.due t.id := by
                  rw [sound.agrees t isCopy tm listed same, sound.onTime tm listed, same]
                exact ⟨isDue ▸ ripe, isDue⟩
              · exact sound.calls call old
      | _ =>
          simp only [Watch.callsAfter, pc] at member
          exact sound.calls call member
  | _ => exact sound.calls call member

theorem Watch.Sound.step (run : machine.Reachable x.state) (sound : x.Sound) {tick : Tick}
    (moved : x.step tick = some x') : x'.Sound := by
  obtain ⟨step, clock, due, calls, le, past, read, wakes⟩ := Watch.step_eq moved
  obtain ⟨ok, walked⟩ := dispatched_of_reachable run
  have ok' := (dispatched_of_reachable (run.step trivial step)).1
  have move := move_of_step step
  refine ⟨?_, fun q member => ?_, ?_, fun t listed => ?_, fun call member => ?_⟩
  · rw [clock]
    cases isAction : tick.action with
    | work order now =>
        rw [isAction] at step read wakes
        exact waited_work step sound.waited le past (read now rfl) wakes
    | _ =>
        refine (waited_of_move move sound.waited fun order now other => ?_).mono le
        rw [isAction] at other
        cases other
  · rw [clock]
    rcases handed_of_move move member with old | marks
    · exact (sound.handed q old).mono le
    · have waited := sound.waited
      unfold State.Waited at waited
      rw [marks] at waited
      exact Ripe.mono le waited
  · exact agrees_of_move ok ok' (effects_of_move walked move) move sound.agrees
  · rw [due]
    exact onTime_of_move ok sound.onTime move t listed
  · rw [calls] at member
    exact sound.calls_step move le call member

theorem sound_of_watched (reached : watched.Reachable x) : x.Sound := by
  refine (Machine.Reaches.invariant (I := fun x => machine.Reachable x.state ∧ x.Sound)
    (fun x start => ?_) (fun x tick x' _ holds _ moved => ?_) reached).2
  · obtain ⟨⟨maxClients, same⟩, none⟩ := start
    refine ⟨.init ⟨maxClients, same⟩, ?_⟩
    constructor <;> simp [same, none, State.zero, State.Waited, State.Agrees, State.core,
      State.waiting, Core.copies, WorkerPc.entry, WorkerPc.handed, GamePc.taken, Watch.OnTime]
  · exact ⟨holds.1.step trivial (Watch.step_eq moved).1, holds.2.step holds.1 moved⟩

/-- **No callback is early.**  In every run of the worker and the game thread beside a clock
that is not set back, each callback gets its turn after it was due or less than a millisecond
before, and the copy of its timer has the time that was asked for last, whatever is added,
changed, removed and stopped meanwhile. -/
theorem never_early (reached : watched.Reachable x) :
    ∀ call ∈ x.calls, call.due < call.time + millisecond ∧ call.copy.time = call.due :=
  (sound_of_watched reached).calls

/-- A timer of one second, for which the worker begins to wait after a nanosecond, is handed
over and called as soon as it can be. -/
def hastily : List Tick :=
  let t : Tm := ⟨1, 1, 7, 0, .fin false 1, 1000000000, 1, 0, false⟩
  let start : List Action := [.addTimer .zero 1 7 (.fin false 1) 0 1 0 0, .go true 0, .work [] 0,
    .work [] 0, .work [] 0, .work [] 0, .work [t] 0, .work [] 0, .work [] 0, .work [] 0,
    .work [] 0]
  let rest : List Action := [.work [] 0, .work [] 0, .work [] 0, .work [] 0, .work [] 0,
    .work [t] 0, .startFrame, .go true 0]
  start.map (fun a => ⟨a, 0, 0⟩) ++ ⟨.work [] 1, 0, 1⟩ ::
    rest.map fun a => ⟨a, 1, 999000001⟩

theorem never_early_hastily : ∃ x : Watch,
    (x.calls.map fun call => (call.due, call.time)) = [(1000000000, 999000001)] ∧
      ∀ call ∈ x.calls, call.due < call.time + millisecond ∧ call.copy.time = call.due := by
  have ends : (watched.exec ⟨.zero 32, 0, fun _ => 0, []⟩ hastily).map (fun x =>
      (x.calls.map fun call => (call.due, call.time)) == [(1000000000, 999000001)]) =
        some true := by decide +kernel
  obtain ⟨x, run, holds⟩ := Machine.exists_reachable (M := watched) ⟨⟨32, rfl⟩, rfl⟩ ends
  exact ⟨x, beq_iff_eq.1 holds, never_early run⟩

end Refsapi.Timers
