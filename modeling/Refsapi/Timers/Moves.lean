/-
# Timers.Moves -- what each step of the timer manager does

`Move s a s'` lists the steps once, with what each of them finds; `move_of_step` is the
only proof that takes `step` apart.
-/
import Refsapi.Timers.Model

namespace Refsapi.Timers

set_option autoImplicit false

/-- The natives that remove timers, and the timers they remove. -/
inductive Erases (s : State) : Action → (Tm → Bool) → Prop where
  | group {amx groupId : Nat} :
      Erases s (.removeTimers amx groupId) fun t => t.amx == amx && t.groupId == groupId
  | id {amx id : Nat} : Erases s (.removeTimerById amx id) fun t => t.amx == amx && t.id == id
  | client {index : Nat} (valid : isValidIndex s.maxClients index = true) :
      Erases s (.onClientDisconnected index) fun t => State.ofClient index t.groupId

/-- The timer that `frame_forward` removes. -/
def isTimer (t tm : Tm) : Bool := tm.amx == t.amx && tm.groupId == t.groupId && tm.id == t.id

/-- What `finish` comes to. -/
def State.finished (s : State) (t : Tm) (ret now : Int) : State :=
  if State.again t ret then
    { s.written t.id (State.rearmed t now) with
      game := .signal (some t.id)
      history := .armed t.id :: s.history }
  else { s with game := .remove t }

/-- A step, with what it finds. -/
inductive Move (s : State) : Action → State → Prop where
  | start {order : List Tm} {now : Int} (pc : s.worker = .start) :
      Move s (.work order now) { s with stopTimer := false, stopLoop := true, worker := .clear }
  | clear {order : List Tm} {now : Int} (pc : s.worker = .clear)
      (free : s.game.holds .queue = false) :
      Move s (.work order now) { s with queue := [], worker := .enter }
  | refused {order : List Tm} {now : Int} (pc : s.worker = .enter) (stopped : s.stopTimer = true) :
      Move s (.work order now) { s with worker := .size }
  | enter {order : List Tm} {now : Int} (pc : s.worker = .enter)
      (free : s.game.holds .timer = false) (runs : s.stopTimer = false) :
      Move s (.work order now) { s with worker := .scan (s.timers.map Tm.id) }
  | scanned {order : List Tm} {now : Int} (pc : s.worker = .scan []) :
      Move s (.work order now) { s with worker := .reset }
  | finds {order : List Tm} {now : Int} {id : Nat} {rest : List Nat}
      (pc : s.worker = .scan (id :: rest)) (pushes : s.pushes id = true) :
      Move s (.work order now) { s with worker := .push id rest }
  | skips {order : List Tm} {now : Int} {id : Nat} {rest : List Nat}
      (pc : s.worker = .scan (id :: rest)) (skipped : s.pushes id = false) :
      Move s (.work order now) { s with worker := .scan rest }
  | push {order : List Tm} {now : Int} {id : Nat} {rest : List Nat} {t : Tm}
      (pc : s.worker = .push id rest) (free : s.game.holds .queue = false) (listed : t ∈ s.timers)
      (same : t.id = id) (pushed : Pushed t s.queue order) :
      Move s (.work order now) { s with queue := order, worker := .scan rest }
  | reset {order : List Tm} {now : Int} (pc : s.worker = .reset) :
      Move s (.work order now) { s with stopLoop := false, worker := .size }
  | empty {order : List Tm} {now : Int} (pc : s.worker = .size) :
      Move s (.work order now) { s with worker := .recheck }
  | more {order : List Tm} {now : Int} (pc : s.worker = .size) (nonempty : s.queue ≠ []) :
      Move s (.work order now) { s with worker := .top }
  | top {order : List Tm} {now : Int} {t : Tm} (pc : s.worker = .top)
      (first : s.queue.head? = some t) : Move s (.work order now) { s with worker := .compare t }
  | compare {order : List Tm} {now : Int} {t : Tm} {pc' : WorkerPc} (pc : s.worker = .compare t)
      (next : pc' = .wait t ∨ pc' = .check t) : Move s (.work order now) { s with worker := pc' }
  | wait {order : List Tm} {now : Int} {t : Tm} (pc : s.worker = .wait t) :
      Move s (.work order now) { s with worker := .check t }
  | check {order : List Tm} {now : Int} {t : Tm} (pc : s.worker = .check t)
      (runs : s.stopTimer = false) :
      Move s (.work order now) { s with worker := .checkLoop t }
  | checkLoop {order : List Tm} {now : Int} {t : Tm} (pc : s.worker = .checkLoop t)
      (quiet : s.stopLoop = false) :
      Move s (.work order now) { s with worker := .lockFrame t }
  | breaks {order : List Tm} {now : Int} {t : Tm}
      (pc : s.worker = .check t ∧ s.stopTimer = true ∨
        s.worker = .checkLoop t ∧ s.stopLoop = true) :
      Move s (.work order now) { s with worker := .recheck }
  | lockFrame {order : List Tm} {now : Int} {t : Tm} (pc : s.worker = .lockFrame t)
      (free : s.game.holds .frame = false) :
      Move s (.work order now) { s with worker := .lookup t }
  | found {order : List Tm} {now : Int} {t : Tm} (pc : s.worker = .lookup t)
      (listed : ∃ tm ∈ s.timers, tm.id = t.id) :
      Move s (.work order now) { s with worker := .mark t }
  | gone {order : List Tm} {now : Int} {t : Tm} (pc : s.worker = .lookup t)
      (none : ∀ tm ∈ s.timers, ¬ (tm.amx = t.amx ∧ tm.groupId = t.groupId ∧ tm.id = t.id)) :
      Move s (.work order now) { s with worker := .pop t }
  | mark {order : List Tm} {now : Int} {t : Tm} (pc : s.worker = .mark t)
      (pushed : Pushed t s.frames order) (left : ∃ tm ∈ s.timers, tm.id = t.id) :
      Move s (.work order now) { s.written t.id fun tm => { tm with executed := true } with
        frames := order
        worker := .pop t }
  | pop {order : List Tm} {now : Int} {t u : Tm} {rest : List Tm} (pc : s.worker = .pop t)
      (first : s.queue = u :: rest) :
      Move s (.work order now) { s with queue := rest, worker := .size }
  | recheck {order : List Tm} {now : Int} {pc' : WorkerPc} (pc : s.worker = .recheck)
      (next : pc' = .sleep ∨ pc' = .recheckLoop) : Move s (.work order now) { s with worker := pc' }
  | recheckLoop {order : List Tm} {now : Int} {pc' : WorkerPc} (pc : s.worker = .recheckLoop)
      (next : pc' = .sleep ∨ pc' = .clear) : Move s (.work order now) { s with worker := pc' }
  | wake {order : List Tm} {now : Int} (pc : s.worker = .sleep) :
      Move s (.work order now) { s with worker := .clear }
  | addTimer {memory : Tm} {amx : Nat} {fwdId : Int} {delaySec : Fp} {groupId : Nat}
      {flags repeats : UInt32} {now : Int} (idle : s.game = .idle)
      (free : s.worker.holds .timer = false) (accepted : fwdId ≠ -1) :
      Move s (.addTimer memory amx fwdId delaySec groupId flags repeats now)
        (s.insert (s.newTimer memory amx fwdId delaySec groupId flags repeats now))
  | stay {a : Action} : Move s a s
  | erase {a : Action} {p : Tm → Bool} {game : GamePc} (idle : s.game = .idle)
      (erases : Erases s a p) (free : s.worker.holds .timer = false)
      (after : game = .signal none ∨ game = .removing) :
      Move s a { s.erase p with game := game }
  | changeTimerById {amx id : Nat} {delaySec : Fp} {flags repeats : UInt32} {t : Tm}
      (idle : s.game = .idle) (listed : t ∈ s.timers) (same : t.amx = amx ∧ t.id = id) :
      Move s (.changeTimerById amx id delaySec flags repeats)
        { s with game := .change id delaySec flags repeats }
  | stopAll (idle : s.game = .idle) :
      Move s .stopAll { s with stopLoop := true, stopTimer := true, game := .stopFrame }
  | startFrame {t : Tm} {rest : List Tm} (idle : s.game = .idle) (first : s.frames = t :: rest) :
      Move s .startFrame { s with frames := rest, game := .forward t }
  | returns {ret now : Int} {t : Tm} {rest : List Tm} (idle : s.game = .idle)
      (running : s.inside = t :: rest)
      (left : State.again t ret = true → ∃ tm ∈ s.timers, tm.id = t.id) :
      Move s (.returns ret now) (({ s with inside := rest } : State).finished t ret now)
  | signal {allots : Bool} {now : Int}
      (pc : (∃ armed, s.game = .signal armed) ∨ s.game = .removing) :
      Move s (.go allots now) { s with stopLoop := true, game := .idle }
  | change {allots : Bool} {now : Int} {id : Nat} {delaySec : Fp} {flags repeats : UInt32}
      (pc : s.game = .change id delaySec flags repeats) (left : ∃ tm ∈ s.timers, tm.id = id) :
      Move s (.go allots now)
        { s.written id (State.changed delaySec flags repeats) with game := .signal none }
  | stopFrame {allots : Bool} {now : Int} (pc : s.game = .stopFrame)
      (free : s.worker.holds .frame = false) :
      Move s (.go allots now) { s with game := .stopQueue }
  | stopQueue {allots : Bool} {now : Int} (pc : s.game = .stopQueue) :
      Move s (.go allots now) { s with frames := [], queue := [], game := .stopTimer }
  | stopTimer {allots : Bool} {now : Int} (pc : s.game = .stopTimer)
      (free : s.worker.holds .timer = false) :
      Move s (.go allots now) { s.erase fun _ => true with groups := [], game := .restart }
  | restart {allots : Bool} {now : Int} (pc : s.game = .restart) :
      Move s (.go allots now) { s with stopTimer := false, stopLoop := true, game := .idle }
  | drop {allots : Bool} {now : Int} {t : Tm} (pc : s.game = .forward t) :
      Move s (.go allots now) { s with game := .idle }
  | execute {now : Int} {t tm : Tm} (pc : s.game = .forward t)
      (listed : tm ∈ s.timers) (same : tm.id = t.id) :
      Move s (.go true now)
        { s with game := .idle, inside := t :: s.inside, history := .executed t :: s.history }
  | remove {allots : Bool} {now : Int} {t : Tm} (pc : s.game = .remove t)
      (free : s.worker.holds .timer = false) :
      Move s (.go allots now) { s.erase (isTimer t) with game := .idle }
  | fail {now : Int} {t tm : Tm} (pc : s.game = .forward t)
      (listed : tm ∈ s.timers) (same : tm.id = t.id) :
      Move s (.go false now)
        (({ s with game := .idle, history := .missed t :: s.history } : State).finished t 0 now)

variable {s s' : State} {a : Action}

theorem pushes_iff {id : Nat} :
    s.pushes id = true ↔ ∃ t ∈ s.timers, t.id = id ∧ t.executed = false := by
  simp [State.pushes]

theorem getTimerById_some {amx groupId id : Nat} {tm : Option Tm}
    (found : s.getTimerById amx groupId id = some tm) :
    tm = s.timers.find? fun t => t.amx == amx && t.groupId == groupId && t.id == id := by
  unfold State.getTimerById at found
  split at found
  · cases found
  · exact (Option.some.inj found).symm

/-- A write leads to a timer that is listed. -/
theorem write_eq_some_iff {id : Nat} {f : Tm → Tm} {next : State} :
    s.write id f = some next ↔ (∃ tm ∈ s.timers, tm.id = id) ∧ s.written id f = next := by
  unfold State.write
  split
  · next listed => simpa using fun _ => by simpa using listed
  · next none => simpa using fun tm listed same _ => none (by simpa using ⟨tm, listed, same⟩)

theorem finish_eq_some_iff {t : Tm} {ret now : Int} {next : State} :
    s.finish t ret now = some next ↔
      (State.again t ret = true → ∃ tm ∈ s.timers, tm.id = t.id) ∧
        s.finished t ret now = next := by
  unfold State.finish State.finished
  split
  · next again =>
      simp only [Option.map_eq_some_iff, write_eq_some_iff, again]
      constructor
      · rintro ⟨mid, ⟨listed, rfl⟩, rfl⟩
        exact ⟨fun _ => listed, rfl⟩
      · rintro ⟨listed, rfl⟩
        exact ⟨_, ⟨listed trivial, rfl⟩, rfl⟩
  · next last => simp [last]

theorem move_of_work {order : List Tm} {now : Int} (moved : s.work order now = some s') :
    Move s (.work order now) s' := by
  unfold State.work at moved
  split at moved
  · cases moved
  next unblocked =>
  have free {m : Mutex} (wants : s.worker.wants = some m) : s.game.holds m = false := by
    simpa [wants] using unblocked
  split at moved
  next pc => cases moved; exact .start pc
  next pc => cases moved; exact .clear pc (free (by rw [pc]; rfl))
  next pc =>
      cases moved
      by_cases stopped : s.stopTimer = true
      · simpa [stopped] using Move.refused pc stopped
      · simpa [stopped] using Move.enter pc (free (by rw [pc]; rfl)) (by simpa using stopped)
  next pc => cases moved; exact .scanned pc
  next id rest pc =>
      cases moved
      split
      · next pushes => exact .finds pc pushes
      · next skipped => exact .skips pc (by simpa using skipped)
  next id rest pc =>
      split at moved
      · next t found =>
          split at moved
          · next pushed =>
              cases moved
              exact .push pc (free (by rw [pc]; rfl)) (List.mem_of_find?_eq_some found)
                (by simpa using List.find?_some found) pushed
          · cases moved
      · cases moved
  next pc => cases moved; exact .reset pc
  next pc =>
      cases moved
      split
      · exact .empty pc
      · next nonempty => exact .more pc (by simpa using nonempty)
  next pc =>
      obtain ⟨t, first, rfl⟩ := Option.map_eq_some_iff.1 moved
      exact .top pc first
  next t pc => cases moved; exact .compare pc (by split <;> simp)
  next t pc => cases moved; exact .wait pc
  next t pc =>
      cases moved
      split
      · next stopped => exact .breaks (.inl ⟨pc, stopped⟩)
      · next runs => exact .check pc (by simpa using runs)
  next t pc =>
      cases moved
      split
      · next stopped => exact .breaks (.inr ⟨pc, stopped⟩)
      · next quiet => exact .checkLoop pc (by simpa using quiet)
  next t pc => cases moved; exact .lockFrame pc (free (by rw [pc]; rfl))
  next t pc =>
      obtain ⟨tm, found, rfl⟩ := Option.map_eq_some_iff.1 moved
      cases tm with
      | some tm =>
          have isFound := (getTimerById_some found).symm
          have same := List.find?_some isFound
          simp only [Bool.and_eq_true, beq_iff_eq] at same
          exact .found pc ⟨tm, List.mem_of_find?_eq_some isFound, same.2⟩
      | none =>
          refine .gone pc fun tm listed same => ?_
          have := List.find?_eq_none.1 (getTimerById_some found).symm tm listed
          simp [same] at this
  next t pc =>
      split at moved
      · next pushed =>
          obtain ⟨mid, writes, rfl⟩ := Option.map_eq_some_iff.1 moved
          obtain ⟨left, rfl⟩ := write_eq_some_iff.1 writes
          exact .mark pc pushed left
      · cases moved
  next t pc =>
      split at moved
      · cases moved
      · next u rest first =>
          cases moved
          exact .pop pc first
  next pc => cases moved; exact .recheck pc (by split <;> simp)
  next pc => cases moved; exact .recheckLoop pc (by split <;> simp)
  next pc =>
      split at moved
      · cases moved
        exact .wake pc
      · cases moved

theorem move_of_go {allots : Bool} {now : Int} (moved : s.go allots now = some s') :
    Move s (.go allots now) s' := by
  unfold State.go at moved
  split at moved
  · cases moved
  next unblocked =>
  have free {m : Mutex} (wants : s.game.wants = some m) : s.worker.holds m = false := by
    simpa [wants] using unblocked
  split at moved
  next => cases moved
  next armed pc => cases moved; exact .signal (.inl ⟨armed, pc⟩)
  next pc => cases moved; exact .signal (.inr pc)
  next pc =>
      obtain ⟨mid, writes, rfl⟩ := Option.map_eq_some_iff.1 moved
      obtain ⟨left, rfl⟩ := write_eq_some_iff.1 writes
      exact .change pc left
  next pc => cases moved; exact .stopFrame pc (free (by rw [pc]; rfl))
  next pc => cases moved; exact .stopQueue pc
  next pc => cases moved; exact .stopTimer pc (free (by rw [pc]; rfl))
  next pc => cases moved; exact .restart pc
  next t pc =>
      split at moved
      · cases moved
        exact .drop pc
      · obtain ⟨tm, found, goes⟩ := Option.bind_eq_some_iff.1 moved
        cases tm with
        | none =>
            cases goes
            exact .drop pc
        | some tm =>
            have isFound := (getTimerById_some found).symm
            have listed := List.mem_of_find?_eq_some isFound
            have same := List.find?_some isFound
            simp only [Bool.and_eq_true, beq_iff_eq] at same
            cases allots with
            | false =>
                obtain ⟨-, rfl⟩ := finish_eq_some_iff.1 goes
                exact .fail pc listed same.2
            | true =>
                cases goes
                exact .execute pc listed same.2
  next t pc =>
      cases moved
      exact .remove pc (free (by rw [pc]; rfl))

/-- **What a step does.** -/
theorem move_of_step (moved : step s a = some s') : Move s a s' := by
  have allowed {b : Bool} {next : State}
      (moved : (if s.game ≠ .idle ∨ b = true then none else some next) = some s') :
      s.game = .idle ∧ b = false ∧ s' = next := by
    split at moved
    · cases moved
    · next free =>
        rw [not_or, not_not, Bool.not_eq_true] at free
        exact ⟨free.1, free.2, (Option.some.inj moved).symm⟩
  cases a with
  | work order now => exact move_of_work moved
  | go allots now => exact move_of_go moved
  | addTimer memory amx fwdId delaySec groupId flags repeats now =>
      simp only [step] at moved
      split at moved
      · cases moved
      next idle =>
      split at moved
      · cases moved
        exact .stay
      next accepted =>
      split at moved
      · cases moved
      next free =>
      cases moved
      exact .addTimer (not_not.1 idle) (by simpa using free) accepted
  | removeTimers amx groupId =>
      obtain ⟨idle, free, rfl⟩ := allowed moved
      unfold State.removeTimers
      split
      · exact .erase idle .group free (.inl rfl)
      · exact .stay
  | removeTimerById amx id =>
      obtain ⟨idle, free, rfl⟩ := allowed moved
      unfold State.removeTimerById
      split
      · exact .erase idle .id free (.inr rfl)
      · exact .stay
  | onClientDisconnected index =>
      obtain ⟨idle, free, rfl⟩ := allowed moved
      unfold State.onClientDisconnected
      split
      · next found =>
          exact .erase idle (.client (Bool.and_eq_true_iff.1 found).1) free (.inr rfl)
      · exact .stay
  | changeTimerById amx id delaySec flags repeats =>
      obtain ⟨idle, -, rfl⟩ := allowed moved
      unfold State.changeTimerById
      split
      · next found =>
          obtain ⟨t, listed, same⟩ := List.any_eq_true.1 found
          exact .changeTimerById idle listed (by simpa using same)
      · exact .stay
  | stopAll =>
      simp only [step] at moved
      split at moved
      · cases moved
      next idle =>
      cases moved
      exact .stopAll (not_not.1 idle)
  | startFrame =>
      obtain ⟨idle, -, rfl⟩ := allowed moved
      unfold State.startFrame
      split
      · next first => exact .startFrame idle first
      · exact .stay
  | returns ret now =>
      simp only [step] at moved
      split at moved
      · next t rest idle running =>
          obtain ⟨left, rfl⟩ := finish_eq_some_iff.1 moved
          exact .returns idle running left
      · cases moved

end Refsapi.Timers
