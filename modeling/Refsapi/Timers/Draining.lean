/-
# Timers.Draining -- the worker forgets no timer

While the game thread is outside the manager, the worker comes to its sleep in a number of steps
that can be told beforehand (`State.left`): a pass pushes every timer once, every entry of the
queue takes ten steps, and a raised flag leads to one more pass.  Then it has handed every timer
over, and has changed nothing else (`hands_all_over`).
-/
import Refsapi.Lib.Settling
import Refsapi.Timers.Lookup
import Refsapi.Timers.Signal

namespace Refsapi.Timers

set_option autoImplicit false

variable {s s' : State} {a : Action} {order : List Tm} {now : Int}

/-! ## What holds in every run -/

/-- `stop_timer` is raised by `stop_all` only, what is pushed is there, and the worker turns
away from a queue only when it is empty or a flag is raised. -/
structure Ready (s : State) : Prop where
  stopped : s.stopTimer = true → s.game.stopping = true
  listed : ∀ id rest, s.worker = .push id rest → ∃ t ∈ s.timers, t.id = id
  drained : s.worker = .recheck ∨ s.worker = .recheckLoop ∨ s.worker = .sleep →
    s.queue = [] ∨ s.stopLoop = true ∨ s.stopTimer = true

/-- The worker has moved, and is neither about to push nor about to sleep. -/
theorem Ready.of_work (ready : Ready s) {queue frames timers : List Tm} {pc : WorkerPc}
    {stopLoop : Bool} (other : pc.toScan = [] ∧ pc ≠ .recheck ∧ pc ≠ .recheckLoop ∧ pc ≠ .sleep) :
    Ready { s with timers, queue, frames, stopLoop, worker := pc } := by
  refine ⟨ready.stopped, fun id rest push => ?_, fun turned => ?_⟩
  · rw [show pc = .push id rest from push] at other
    cases other.1
  · exact absurd turned (by simpa using other.2)

/-- The game thread has moved. -/
theorem Ready.of_game (ready : Ready s) (worker : s'.worker = s.worker)
    (queue : s'.queue = s.queue ∨ s'.queue = [])
    (timers : s.worker.holds .timer = true → ∀ t ∈ s.timers, ∃ t' ∈ s'.timers, t'.id = t.id)
    (stopped : s'.stopTimer = true → s'.game.stopping = true)
    (loop : s.stopLoop = true → s'.stopLoop = true)
    (timer : s.stopTimer = true → s'.stopTimer = true ∨ s'.stopLoop = true) : Ready s' := by
  refine ⟨stopped, fun id rest push => ?_, fun turned => ?_⟩
  · rw [worker] at push
    obtain ⟨t, listed, rfl⟩ := ready.listed id rest push
    exact timers (by rw [push]; rfl) t listed
  · rw [worker] at turned
    rcases ready.drained turned with empty | loops | stops
    · exact .inl (queue.elim (fun same => same.trans empty) id)
    · exact .inr (.inl (loop loops))
    · exact .inr ((timer stops).symm)

theorem Ready.step (ready : Ready s) (moved : step s a = some s') : Ready s' := by
  have listed (_ : s.worker.holds .timer = true) (t : Tm) (member : t ∈ s.timers) :
      ∃ t' ∈ s.timers, t'.id = t.id := ⟨t, member, rfl⟩
  have apart {timers : List Tm} (free : s.worker.holds .timer = false)
      (holds : s.worker.holds .timer = true) (t : Tm) (_ : t ∈ s.timers) :
      ∃ t' ∈ timers, t'.id = t.id := by
    rw [free] at holds
    cases holds
  have quiet {game : GamePc} (pc : s.game = game) (outside : game.stopping = false)
      (stop : s.stopTimer = true) {p : Prop} : p := by
    have stopping := ready.stopped stop
    rw [pc, outside] at stopping
    cases stopping
  have written (f : Tm → Tm) (keeps : ∀ t, (f t).id = t.id) (id : Nat)
      (_ : s.worker.holds .timer = true) (t : Tm) (member : t ∈ s.timers) :
      ∃ t' ∈ (s.written id f).timers, t'.id = t.id := by
    refine ⟨_, List.mem_map.2 ⟨t, member, rfl⟩, ?_⟩
    split
    · exact keeps t
    · rfl
  cases move_of_step moved with
  | stay => exact ready
  | start pc =>
      exact ⟨fun stop => (by cases stop), fun _ _ push => (by cases push),
        fun turned => absurd turned (by simp)⟩
  | clear | refused | reset | more | top | wait | check | checkLoop | lockFrame | found
  | gone | mark | pop | wake => exact ready.of_work ⟨rfl, by simp⟩
  | compare pc next =>
      rcases next with rfl | rfl <;> exact ready.of_work ⟨rfl, by simp⟩
  | enter | scanned | skips | push =>
      exact ⟨ready.stopped, fun _ _ push => (by cases push), fun turned => absurd turned (by simp)⟩
  | finds pc pushes =>
      obtain ⟨t, member, isId, -⟩ := pushes_iff.1 pushes
      refine ⟨ready.stopped, fun id rest push => ?_, fun turned => absurd turned (by simp)⟩
      obtain ⟨rfl, rfl⟩ := WorkerPc.push.inj push
      exact ⟨t, member, isId⟩
  | empty pc =>
      refine ⟨ready.stopped, fun _ _ push => (by cases push), fun _ => .inl ?_⟩
      simp only [step, State.work, pc] at moved
      split at moved
      · cases moved
      · by_contra nonempty
        simp [nonempty] at moved
  | breaks pc =>
      refine ⟨ready.stopped, fun _ _ push => (by cases push), fun _ => ?_⟩
      rcases pc with ⟨-, stop⟩ | ⟨-, loops⟩
      · exact .inr (.inr stop)
      · exact .inr (.inl loops)
  | recheck pc next =>
      refine ⟨ready.stopped, fun id rest push => ?_, fun _ => ready.drained (.inl pc)⟩
      rcases next with rfl | rfl <;> cases push
  | recheckLoop pc next =>
      refine ⟨ready.stopped, fun id rest push => ?_, fun _ => ready.drained (.inr (.inl pc))⟩
      rcases next with rfl | rfl <;> cases push
  | addTimer idle free accepted =>
      exact ready.of_game rfl (.inl rfl) (apart free) (fun stop => quiet idle rfl stop) id .inl
  | erase idle erases free after =>
      exact ready.of_game rfl (.inl rfl) (apart free) (fun stop => quiet idle rfl stop) id .inl
  | changeTimerById idle =>
      exact ready.of_game rfl (.inl rfl) listed (fun stop => quiet idle rfl stop) id .inl
  | stopAll idle =>
      exact ready.of_game rfl (.inl rfl) listed (fun _ => rfl) (fun _ => rfl) fun _ => .inl rfl
  | startFrame idle first =>
      exact ready.of_game rfl (.inl rfl) listed (fun stop => quiet idle rfl stop) id .inl
  | signal pc =>
      refine ready.of_game rfl (.inl rfl) listed (fun stop => ?_) (fun _ => rfl) .inl
      rcases pc with ⟨armed, pc⟩ | pc
      · exact quiet pc rfl stop
      · exact quiet pc rfl stop
  | @change _ _ id delaySec flags repeats pc =>
      exact ready.of_game rfl (.inl rfl)
        (written (State.changed delaySec flags repeats) (fun _ => rfl) id)
        (fun stop => quiet pc rfl stop)
        (fun loops => loops) .inl
  | stopFrame pc free => exact ready.of_game rfl (.inl rfl) listed (fun _ => rfl) id .inl
  | stopQueue pc => exact ready.of_game rfl (.inr rfl) listed (fun _ => rfl) id .inl
  | stopTimer pc free => exact ready.of_game rfl (.inl rfl) (apart free) (fun _ => rfl) id .inl
  | restart pc =>
      exact ready.of_game rfl (.inl rfl) listed (fun stop => by cases stop) (fun _ => rfl)
        fun _ => .inr rfl
  | drop pc | execute pc =>
      exact ready.of_game rfl (.inl rfl) listed (fun stop => quiet pc rfl stop) id .inl
  | remove pc free =>
      exact ready.of_game rfl (.inl rfl) (apart free) (fun stop => quiet pc rfl stop) id .inl
  | @returns ret now t rest idle running =>
      unfold State.finished
      split
      · exact ready.of_game rfl (.inl rfl) (written (State.rearmed t now) (fun _ => rfl) t.id)
          (fun stop => quiet idle rfl stop) id .inl
      · exact ready.of_game rfl (.inl rfl) listed (fun stop => quiet idle rfl stop) id .inl
  | @fail now t tm pc listed' same =>
      unfold State.finished
      split
      · exact ready.of_game rfl (.inl rfl) (written (State.rearmed t now) (fun _ => rfl) t.id)
          (fun stop => quiet pc rfl stop) id .inl
      · exact ready.of_game rfl (.inl rfl) listed (fun stop => quiet pc rfl stop) id .inl

theorem ready_of_reachable (run : machine.Reachable s) : Ready s := by
  refine Machine.Reaches.invariant ?_ (fun _ _ _ _ ready _ moved => ready.step moved) run
  rintro _ ⟨maxClients, rfl⟩
  exact ⟨fun stop => (by cases stop), fun _ _ push => (by cases push),
    fun turned => absurd turned (by simp [State.zero])⟩

theorem Ready.runs (ready : Ready s) (idle : s.game = .idle) : s.stopTimer = false := by
  rw [← Bool.not_eq_true]
  intro stop
  have stopping := ready.stopped stop
  rw [idle] at stopping
  cases stopping

/-! ## What is left of a pass -/

def WorkerPc.rank : WorkerPc → Nat
  | start => 18
  | clear => 17
  | enter => 16
  | scan rest => 12 * rest.length + 15
  | push _ rest => 12 * rest.length + 26
  | reset => 14
  | size => 13
  | top => 12
  | compare _ => 11
  | wait _ => 10
  | check _ => 9
  | checkLoop _ => 8
  | lockFrame _ => 7
  | lookup _ => 6
  | mark _ => 5
  | pop _ => 4
  | recheck => 3
  | recheckLoop => 2
  | sleep => 1

/-- The walk that is still to come. -/
def State.walks (s : State) : Nat :=
  if s.worker.beforeWalk then 12 * s.timers.length
  else if s.worker.built && s.stopLoop then 12 * s.timers.length + 20
  else 0

/-- The steps that are left to the worker, at most. -/
def State.left (s : State) : Nat := s.worker.rank + 10 * s.queue.length + s.walks

/-- A step of the worker. -/
def Works (_ : State) : Action → Prop
  | .work _ _ => True
  | _ => False

theorem worker_ne (moved : s.work order now = some s') : s'.worker ≠ s.worker := by
  intro same
  unfold State.work at moved
  split at moved
  · cases moved
  split at moved
  all_goals
    next pc =>
      rw [pc] at same
      grind [Option.map_eq_some_iff, List.ne_cons_self]

/-- A step that stays behind the build, and leaves the queue and the flags alone. -/
theorem built_lt {pc : WorkerPc} (here : s.worker.built = true) (there : pc.built = true)
    (less : pc.rank < s.worker.rank) : ({ s with worker := pc } : State).left < s.left := by
  have walked {pc : WorkerPc} (built : pc.built = true) : pc.beforeWalk = false := by
    cases before : pc.beforeWalk with
    | false => rfl
    | true => simp [WorkerPc.built, before] at built
  simp only [State.left, State.walks, walked here, walked there, here, there]
  omega

/-- **A step of the worker is one step less**, where `stop_all` is not under way. -/
theorem left_lt (ready : Ready s) (idle : s.game = .idle) (moved : s.work order now = some s') :
    s'.left < s.left := by
  have runs := ready.runs idle
  -- a worker that goes to the walk again has found the flag
  have loops (again : s.worker = .recheckLoop ∨ s.worker = .sleep)
      (clears : s'.worker = .clear) : s.stopLoop = true := by
    rw [← Bool.not_eq_false]
    intro quiet
    rcases again with pc | pc <;> simp [State.work, pc, quiet] at moved
    rw [← moved.2] at clears
    cases clears
  cases move_of_work moved with
  | stay => exact absurd rfl (worker_ne moved)
  | erase _ erases => cases erases
  | start pc =>
      simp [State.left, State.walks, pc, WorkerPc.rank, WorkerPc.beforeWalk]
  | clear pc =>
      simp only [State.left, State.walks, pc, WorkerPc.rank, WorkerPc.beforeWalk, if_true,
        List.length_nil]
      omega
  | refused pc stopped =>
      rw [runs] at stopped
      cases stopped
  | enter pc =>
      simp [State.left, State.walks, pc, WorkerPc.rank, WorkerPc.beforeWalk, WorkerPc.built,
        WorkerPc.building]
      omega
  | push pc free listed same pushed =>
      have length := pushed.1.length_eq
      simp [State.left, State.walks, pc, WorkerPc.rank, WorkerPc.beforeWalk, WorkerPc.built,
        WorkerPc.building, length]
      omega
  | scanned pc | finds pc | skips pc =>
      simp [State.left, State.walks, pc, WorkerPc.rank, WorkerPc.beforeWalk, WorkerPc.built,
        WorkerPc.building] <;> omega
  | reset pc =>
      simp [State.left, State.walks, pc, WorkerPc.rank, WorkerPc.beforeWalk, WorkerPc.built,
        WorkerPc.building]
  | empty pc | more pc | top pc | wait pc | check pc | checkLoop pc | lockFrame pc | found pc
  | gone pc => exact built_lt (by rw [pc]; rfl) rfl (by simp [pc, WorkerPc.rank])
  | compare pc next =>
      rcases next with rfl | rfl <;>
        exact built_lt (by rw [pc]; rfl) rfl (by simp [pc, WorkerPc.rank])
  | breaks pc =>
      rcases pc with ⟨pc, -⟩ | ⟨pc, -⟩ <;>
        exact built_lt (by rw [pc]; rfl) rfl (by simp [pc, WorkerPc.rank])
  | mark pc pushed =>
      simp [State.left, State.walks, pc, WorkerPc.rank, WorkerPc.beforeWalk, WorkerPc.built,
        WorkerPc.building, State.written]
  | pop pc first =>
      simp [State.left, State.walks, pc, WorkerPc.rank, WorkerPc.beforeWalk, WorkerPc.built,
        WorkerPc.building, first]
      omega
  | recheck pc next =>
      rcases next with rfl | rfl <;>
        exact built_lt (by rw [pc]; rfl) rfl (by simp [pc, WorkerPc.rank])
  | recheckLoop pc next =>
      rcases next with rfl | rfl
      · exact built_lt (by rw [pc]; rfl) rfl (by simp [pc, WorkerPc.rank])
      · simp [State.left, State.walks, pc, WorkerPc.rank, WorkerPc.beforeWalk, WorkerPc.built,
          WorkerPc.building, loops (.inl pc) rfl]
        omega
  | wake pc =>
      simp [State.left, State.walks, pc, WorkerPc.rank, WorkerPc.beforeWalk, WorkerPc.built,
        WorkerPc.building, loops (.inr pc) rfl]
      omega

/-! ## Where the worker stops -/

theorem exists_pushed (t : Tm) (entries : List Tm) : ∃ order, Pushed t entries order := by
  have trans (a b c : Tm) : decide (a.time ≤ b.time) = true → decide (b.time ≤ c.time) = true →
      decide (a.time ≤ c.time) = true := by
    simp only [decide_eq_true_eq]
    exact Int.le_trans
  have total (a b : Tm) : (decide (a.time ≤ b.time) || decide (b.time ≤ a.time)) = true := by
    simp only [Bool.or_eq_true, decide_eq_true_eq]
    exact Int.le_total _ _
  refine ⟨(t :: entries).mergeSort fun a b => decide (a.time ≤ b.time), List.mergeSort_perm _ _, ?_⟩
  exact (List.pairwise_mergeSort trans total _).imp fun le => by simpa using le

/-- The timer that the worker is about to mark has not been removed since it was looked up. -/
def State.Marks (s : State) : Prop := ∀ t, s.worker = .mark t → ∃ tm ∈ s.timers, tm.id = t.id

/-- **The worker stops only at its sleep**, and with no flag raised. -/
theorem sleeps_of_stuck (ready : Ready s) (defined : s.Defined) (marks : s.Marks)
    (idle : s.game = .idle)
    (stuck : ∀ order now, s.work order now = none) :
    s.worker = .sleep ∧ s.stopLoop = false ∧ s.stopTimer = false := by
  have runs := ready.runs idle
  have free (m : Mutex) : s.game.holds m = false := by rw [idle]; rfl
  have none (order : List Tm) := stuck order 0
  cases pc : s.worker with
  | push id rest =>
      obtain ⟨t, listed, isId⟩ := ready.listed id rest pc
      cases found : s.timers.find? fun t => t.id == id with
      | none => simpa [isId] using List.find?_eq_none.1 found t listed
      | some u =>
          obtain ⟨order, pushed⟩ := exists_pushed u s.queue
          simpa [State.work, pc, WorkerPc.wants, free, found, pushed] using none order
  | top =>
      obtain ⟨q, rest, queue⟩ := List.exists_cons_of_ne_nil (defined.top pc)
      simpa [State.work, pc, WorkerPc.wants, queue] using none []
  | lookup t =>
      have key := defined.lookup t (.inl pc)
      have isSome : (s.getTimerById t.amx t.groupId t.id).isSome = true := by
        unfold State.getTimerById
        split
        · next missing =>
            simp only [Bool.and_eq_true, List.any_eq_true, beq_iff_eq, Bool.not_eq_true',
              List.contains_eq_mem, decide_eq_false_iff_not] at missing
            exact absurd (key missing.1) missing.2
        · rfl
      obtain ⟨tm, found⟩ := Option.isSome_iff_exists.1 isSome
      simpa [State.work, pc, WorkerPc.wants, free, found] using none []
  | mark t =>
      obtain ⟨order, pushed⟩ := exists_pushed t s.frames
      have writes := write_eq_some_iff (f := fun tm => { tm with executed := true }).2
        ⟨marks t pc, rfl⟩
      simpa [State.work, pc, WorkerPc.wants, pushed, writes] using none order
  | pop t =>
      obtain ⟨rest, queue⟩ := List.head?_eq_some_iff.1 (defined.pop t pc)
      simpa [State.work, pc, WorkerPc.wants, queue] using none []
  | sleep =>
      refine ⟨rfl, ?_, runs⟩
      simpa [State.work, pc, WorkerPc.wants, free, runs] using none []
  | scan rest =>
      cases rest <;> simpa [State.work, pc, WorkerPc.wants] using none []
  | _ => simpa [State.work, pc, WorkerPc.wants, free] using none []

/-! ## What the worker leaves behind -/

def Tm.marked (t : Tm) : Tm := { t with executed := true }

theorem marked_eq {t : Tm} (executed : t.executed = true) : t.marked = t := by
  cases t
  cases executed
  rfl

/-- What the worker has done since, while the game thread was outside the manager. -/
structure Handing (s x : State) : Prop where
  idle : x.game = .idle
  marks : x.Marks
  timers : x.timers.map Tm.marked = s.timers.map Tm.marked
  frames : s.frames ⊆ x.frames
  copies : ∀ t ∈ x.timers, t.executed = true → t ∈ s.timers ∨ ∃ q ∈ x.frames, q.id = t.id

theorem Handing.work {x x' : State} (handing : Handing s x) (moved : x.work order now = some x') :
    Handing s x' := by
  obtain ⟨idle, marks, timers, frames, copies⟩ := handing
  have apart {x : State} (other : ∀ t, x.worker ≠ .mark t) : x.Marks :=
    fun t pc => absurd pc (other t)
  cases move_of_work moved with
  | stay => exact ⟨idle, marks, timers, frames, copies⟩
  | erase _ erases => cases erases
  | @found _ _ t pc listed =>
      refine ⟨idle, fun u here => ?_, timers, frames, copies⟩
      obtain rfl := WorkerPc.mark.inj here
      exact listed
  | compare pc next | recheck pc next | recheckLoop pc next =>
      rcases next with rfl | rfl <;> exact ⟨idle, apart (by simp), timers, frames, copies⟩
  | @mark _ _ t pc pushed =>
      have more {q : Tm} (member : q ∈ x.frames) : q ∈ order :=
        pushed.1.mem_iff.2 (List.mem_cons_of_mem _ member)
      refine ⟨idle, apart (by simp), ?_, fun q member => more (frames member),
        fun u member executed => ?_⟩
      · rw [← timers]
        simp only [State.written, List.map_map]
        refine List.map_congr_left fun u _ => ?_
        simp only [Function.comp_apply]
        split <;> rfl
      · obtain ⟨u', listed, rfl⟩ := List.mem_map.1 member
        by_cases here : u'.id = t.id
        · refine .inr ⟨t, pushed.1.mem_iff.2 List.mem_cons_self, ?_⟩
          rw [if_pos here]
          exact here.symm
        · rw [if_neg here] at executed ⊢
          rcases copies u' listed executed with old | ⟨q, member, same⟩
          · exact .inl old
          · exact .inr ⟨q, more member, same⟩
  | _ => exact ⟨idle, apart (by simp), timers, frames, copies⟩

/-- The worker sleeps, every timer that waited has a copy in `m_frames`, and nothing else has
changed. -/
structure HandsOver (s t : State) : Prop where
  worker : t.worker = .sleep
  flags : t.stopLoop = false ∧ t.stopTimer = false
  queue : t.queue = []
  timers : t.timers = s.timers.map Tm.marked
  frames : s.frames ⊆ t.frames
  handed : ∀ tm ∈ s.timers, tm.executed = false → ∃ q ∈ t.frames, tm.Same q

theorem handsOver_of_stuck {t : State} (ids : (s.timers.map Tm.id).Nodup) (handing : Handing s t)
    (dispatched : Dispatched t.core) (ready : Ready t) (defined : t.Defined) (sure : t.NoneLost)
    (stuck : machine.Stuck Works t) : HandsOver s t := by
  obtain ⟨sleeps, quiet, runs⟩ := sleeps_of_stuck ready defined handing.marks handing.idle
    fun order now => stuck (.work order now) trivial
  have queue : t.queue = [] := by
    rcases ready.drained (.inr (.inr sleeps)) with empty | loops | stops
    · exact empty
    · rw [quiet] at loops
      cases loops
    · rw [runs] at stops
      cases stops
  have executed : ∀ tm ∈ t.timers, tm.executed = true := by
    intro tm listed
    by_contra waits
    obtain ⟨q, member, -⟩ := sure (by rw [sleeps]; rfl) runs quiet (by rw [handing.idle]; rfl) tm
      listed (Bool.not_eq_true _ ▸ waits)
    rw [queue] at member
    cases member
  have timers : t.timers = s.timers.map Tm.marked := by
    rw [← handing.timers]
    exact (List.map_id _).symm.trans
      (List.map_congr_left fun tm listed => (marked_eq (executed tm listed)).symm)
  refine ⟨sleeps, ⟨quiet, runs⟩, queue, timers, handing.frames, fun tm listed waits => ?_⟩
  have here : tm.marked ∈ t.timers := timers ▸ List.mem_map_of_mem listed
  rcases handing.copies tm.marked here rfl with old | ⟨q, member, same⟩
  · have one := List.inj_on_of_nodup_map ids old listed rfl
    rw [← one] at waits
    cases waits
  · have agree := dispatched.agree q (by simp [State.core, Core.copies, member]) tm.marked here
      same.symm
    exact ⟨q, member, agree.id, agree.amx, agree.groupId, agree.fwdId⟩

/-- **No timer is forgotten.**  In every run in which no signal for a timer comes too late and
`stop_all` meets no worker at an entry: while the game thread is outside the manager, and has
not removed the timer that the worker is about to mark, the worker comes to its sleep, after not
more than `left` steps, and then every timer that waited has its copy in `m_frames`; no timer,
and nothing that was in `m_frames`, is lost. -/
theorem hands_all_over (run : machine.Reaches (fun s a => Heard s a ∧ Settled s a) s)
    (idle : s.game = .idle) (marks : s.Marks) :
    (∀ n t, machine.Runs Works n s t → n ≤ s.left ∧
      (machine.Stuck Works t → HandsOver s t)) ∧
    ∃ n t, machine.Runs Works n s t ∧ HandsOver s t := by
  let good (x : State) : Prop :=
    machine.Reaches (fun s a => Heard s a ∧ Settled s a) x ∧ Handing s x
  have start : good s := ⟨run, idle, marks, rfl, fun _ member => member,
    fun _ member _ => .inl member⟩
  have keep : ∀ x a x', good x → Works x a → machine.step x a = some x' → good x' := by
    intro x a x' holds works moved
    cases a with
    | work order now =>
        exact ⟨holds.1.step (a := .work order now) ⟨trivial, trivial⟩ moved, holds.2.work moved⟩
    | _ => exact works.elim
  have less : ∀ x a x', good x → Works x a → machine.step x a = some x' → x'.left < x.left := by
    intro x a x' holds works moved
    cases a with
    | work order now =>
        exact left_lt (ready_of_reachable holds.1.reachable) holds.2.idle moved
    | _ => exact works.elim
  have rests {n : Nat} {t : State} (runs : machine.Runs Works n s t)
      (stuck : machine.Stuck Works t) : HandsOver s t := by
    obtain ⟨reached, handing⟩ := runs.keeps keep start
    have heard := reached.weaken fun _ _ both => both.1
    have settled := reached.weaken fun _ _ both => both.2
    obtain ⟨dispatched, walked⟩ := dispatched_of_reachable reached.reachable
    exact handsOver_of_stuck (dispatched_of_reachable run.reachable).1.ids handing dispatched
      (ready_of_reachable reached.reachable) (guarded_of_reaches settled).defined
      ((sure_of_reaches heard).noneLost walked) stuck
  refine ⟨fun n t runs => ⟨?_, rests runs⟩, ?_⟩
  · have bound := runs.length_le keep less start
    omega
  · obtain ⟨n, t, runs, stuck⟩ := Machine.exists_stuck keep less start
    exact ⟨n, t, runs, rests runs stuck⟩

/-- Two timers are added; the worker has not begun yet. -/
def twoAdded : List Action :=
  [.addTimer .zero 1 7 (.fin false 1) 0 1 0 0, .go true 0,
    .addTimer .zero 1 7 (.fin false 1) 5 1 0 0, .go true 0]

theorem hands_all_over_two : ∃ s : State, s.timers.map Tm.id = [1, 2] ∧
    (∀ n t, machine.Runs Works n s t → n ≤ 42) ∧
    ∃ n t, machine.Runs Works n s t ∧ HandsOver s t := by
  have ends : (machine.execIf (fun s a => heard s a && settled s a) (.zero 32) twoAdded).map
      (fun s => s.timers.map Tm.id == [1, 2] && s.game == .idle && s.left == 42 &&
        s.worker == .start) = some true := by
    decide +kernel
  obtain ⟨s, run, holds⟩ := Machine.exists_reaches (M := machine)
    (fun s a (ok : (heard s a && settled s a) = true) =>
      have both := Bool.and_eq_true_iff.1 ok
      And.intro (heard_sound s a both.1) (settled_sound s a both.2)) ⟨32, rfl⟩ ends
  simp only [Bool.and_eq_true, beq_iff_eq] at holds
  obtain ⟨⟨⟨ids, idle⟩, left⟩, start⟩ := holds
  obtain ⟨bound, rests⟩ := hands_all_over run idle fun t pc => by rw [start] at pc; cases pc
  exact ⟨s, ids, fun n t runs => left ▸ (bound n t runs).1, rests⟩

end Refsapi.Timers
