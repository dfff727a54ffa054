/-
# Timers.Writes -- where the timers and their copies after a step come from

Every timer of `m_timers` after a step was there before it, or has been added, and
`Written` lists who writes to one.  Every copy was a copy before, or has been pushed by
the walk (`held_of_move`).
-/
import Refsapi.Timers.Dispatch

namespace Refsapi.Timers

set_option autoImplicit false

/-! ## Timers -/

/-- `frame_forward` comes to decide whether the timer of a copy is armed again: its callback
is about to return, or may not be run for want of room. -/
def State.Deciding (s : State) (t : Tm) : Prop :=
  s.game = .forward t ∨ s.game = .idle ∧ ∃ rest, s.inside = t :: rest

/-- The step decides whether the timer of a copy is armed again. -/
inductive Decides (s : State) : Action → Tm → Prop where
  | returns {ret now : Int} {t : Tm} {rest : List Tm} (idle : s.game = .idle)
      (running : s.inside = t :: rest) : Decides s (.returns ret now) t
  | fails {now : Int} {t : Tm} (pc : s.game = .forward t) : Decides s (.go false now) t

/-- A timer after a step. -/
inductive Written (s : State) (a : Action) : Tm → Prop where
  | kept {t : Tm} (listed : t ∈ s.timers) : Written s a t
  | marked {t : Tm} (listed : t ∈ s.timers) (pc : ∃ q, s.worker = .mark q ∧ q.id = t.id) :
      Written s a { t with executed := true }
  | changed {t : Tm} {delaySec : Fp} {flags repeats : UInt32} (listed : t ∈ s.timers)
      (pc : s.game = .change t.id delaySec flags repeats)
      (action : ∃ allots now, a = .go allots now) :
      Written s a (State.changed delaySec flags repeats t)
  | rearmed {t q : Tm} {ret now : Int} (listed : t ∈ s.timers) (same : t.id = q.id)
      (decides : Decides s a q) (isAgain : State.again q ret = true) :
      Written s a (State.rearmed q now t)
  | added {memory : Tm} {amx : Nat} {fwdId : Int} {delaySec : Fp} {groupId : Nat}
      {flags repeats : UInt32} {now : Int}
      (call : a = .addTimer memory amx fwdId delaySec groupId flags repeats now)
      (accepted : fwdId ≠ -1) :
      Written s a (s.newTimer memory amx fwdId delaySec groupId flags repeats now)

variable {s s' : State} {a : Action}

theorem written_of_finish {b : State} {q : Tm} {ret now : Int} (timers : b.timers = s.timers)
    (decides : Decides s a q) {t : Tm} (listed : t ∈ (b.finished q ret now).timers) :
    Written s a t := by
  unfold State.finished at listed
  split at listed
  · next isAgain =>
      obtain ⟨u, old, ⟨same, rfl⟩ | ⟨-, rfl⟩⟩ := mem_writeTo listed
      · exact .rearmed (timers ▸ old) same decides isAgain
      · exact .kept (timers ▸ old)
  · exact .kept (timers ▸ listed)

/-- **Who writes to a timer.** -/
theorem written_of_move (move : Move s a s') {t : Tm} (listed : t ∈ s'.timers) :
    Written s a t := by
  cases move with
  | mark pc pushed =>
      obtain ⟨u, old, ⟨same, rfl⟩ | ⟨-, rfl⟩⟩ := mem_writeTo listed
      · exact .marked old ⟨_, pc, same.symm⟩
      · exact .kept old
  | change pc =>
      obtain ⟨u, old, ⟨rfl, rfl⟩ | ⟨-, rfl⟩⟩ := mem_writeTo listed
      · exact .changed old pc ⟨_, _, rfl⟩
      · exact .kept old
  | addTimer idle free accepted =>
      rcases List.mem_cons.1 ((insert_perm _ _ _).mem_iff.1 listed) with rfl | old
      · exact .added rfl accepted
      · exact .kept old
  | erase idle erases free after => exact .kept (List.mem_filter.1 listed).1
  | stopTimer pc free => exact .kept (List.mem_filter.1 listed).1
  | remove pc free => exact .kept (List.mem_filter.1 listed).1
  | @returns ret now u rest idle running =>
      exact written_of_finish (s := s) (b := { s with inside := rest }) rfl
        (.returns idle running) listed
  | @fail now u tm pc present same =>
      exact written_of_finish (s := s)
        (b := { s with game := .idle, history := .missed u :: s.history }) rfl (.fails pc) listed
  | _ => exact .kept listed

/-- A timer after a step that adds none was there before it. -/
theorem Written.origin {t : Tm} (written : Written s a t) :
    (∃ u ∈ s.timers, t.Same u) ∨
      ∃ memory amx fwdId delaySec groupId flags repeats now,
        a = .addTimer memory amx fwdId delaySec groupId flags repeats now ∧
          t = s.newTimer memory amx fwdId delaySec groupId flags repeats now := by
  cases written with
  | kept listed => exact .inl ⟨t, listed, .refl t⟩
  | marked listed pc | changed listed pc action | rearmed listed same decides isAgain =>
      exact .inl ⟨_, listed, rfl, rfl, rfl, rfl⟩
  | added call accepted => exact .inr ⟨_, _, _, _, _, _, _, _, call, rfl⟩

theorem same_of_writeTo {id : Nat} {f : Tm → Tm} (keeps : ∀ t, (f t).Same t) {timers : List Tm}
    {t : Tm} (listed : t ∈ timers) : ∃ u ∈ writeTo id f timers, u.Same t := by
  refine ⟨_, List.mem_map_of_mem listed, ?_⟩
  split
  · exact keeps t
  · exact .refl t

theorem same_of_finish {q : Tm} {ret now : Int} {t : Tm} (listed : t ∈ s.timers) :
    ∃ u ∈ (s.finished q ret now).timers, u.Same t := by
  unfold State.finished
  split
  · exact same_of_writeTo (f := State.rearmed q now) (fun _ => ⟨rfl, rfl, rfl, rfl⟩) listed
  · exact ⟨t, listed, .refl t⟩

/-- Only `change_timer_by_id` leads to its writes. -/
theorem change_of_move (move : Move s a s') {id : Nat} {delaySec : Fp} {flags repeats : UInt32}
    (game : s'.game = .change id delaySec flags repeats) :
    s.game = .change id delaySec flags repeats ∨
      ∃ amx, a = .changeTimerById amx id delaySec flags repeats ∧
        ∃ t ∈ s.timers, t.amx = amx ∧ t.id = id := by
  cases move with
  | changeTimerById idle listed same =>
      cases game
      exact .inr ⟨_, rfl, _, listed, same⟩
  | erase idle erases free after => rcases after with rfl | rfl <;> cases game
  | returns idle running | fail pc listed same =>
      unfold State.finished at game
      split at game <;> cases game
  | addTimer | stopAll | startFrame | signal | change | stopFrame | stopQueue | stopTimer
  | restart | drop | execute | remove => cases game
  | _ => exact .inl game

theorem nums_le_of_move (move : Move s a s') : s.nums ≤ s'.nums := by
  cases move with
  | addTimer => exact Nat.le_succ _
  | returns | fail =>
      unfold State.finished
      split <;> exact Nat.le_refl _
  | _ => exact Nat.le_refl _

/-! ## Copies -/

/-- The copies of timers, one that the worker is at with the one in the queue. -/
def State.held (s : State) : List Tm :=
  s.queue ++ s.worker.entry.toList ++ s.frames ++ s.game.taken ++ s.inside

theorem mem_held {q : Tm} : q ∈ s.held ↔
    q ∈ s.queue ∨ s.worker.entry = some q ∨ q ∈ s.frames ∨ q ∈ s.game.taken ∨ q ∈ s.inside := by
  simp [State.held]

theorem finish_taken (t : Tm) (ret now : Int) : (s.finished t ret now).game.taken = [] := by
  unfold State.finished
  split <;> rfl

theorem held_of_finish {b : State} {t : Tm} {ret now : Int} {q : Tm}
    (queue : b.queue = s.queue) (worker : b.worker = s.worker)
    (frames : b.frames = s.frames) (inside : b.inside.Sublist s.inside)
    (copy : q ∈ (b.finished t ret now).held) : q ∈ s.held := by
  have parts : (b.finished t ret now).queue = b.queue ∧
      (b.finished t ret now).worker = b.worker ∧
      (b.finished t ret now).frames = b.frames ∧
      (b.finished t ret now).inside = b.inside := by
    unfold State.finished
    split <;> exact ⟨rfl, rfl, rfl, rfl⟩
  rw [mem_held, finish_taken, parts.1, parts.2.1, parts.2.2.1, parts.2.2.2] at copy
  rcases copy with copy | copy | copy | copy | copy
  · exact mem_held.2 (.inl (queue ▸ copy))
  · exact mem_held.2 (.inr (.inl (worker ▸ copy)))
  · exact mem_held.2 (.inr (.inr (.inl (frames ▸ copy))))
  · cases copy
  · exact mem_held.2 (.inr (.inr (.inr (.inr (inside.subset copy)))))

/-- **Where a copy comes from.** -/
theorem held_of_move (move : Move s a s') {q : Tm} (copy : q ∈ s'.held) :
    q ∈ s.held ∨ q ∈ s.timers := by
  -- Nothing but the queue, the worker and the flags has changed.
  have work {queue : List Tm} {worker : WorkerPc} {stopLoop stopTimer : Bool}
      (copy : q ∈ ({ s with queue, worker, stopLoop, stopTimer } : State).held)
      (fewer : ∀ q ∈ queue, q ∈ s.queue) (entry : worker.entry = none ∨
        ∃ t, worker.entry = some t ∧ (s.worker.entry = some t ∨ t ∈ s.queue)) : q ∈ s.held := by
    rw [mem_held] at copy ⊢
    rcases copy with copy | copy | rest
    · exact .inl (fewer q copy)
    · rcases entry with none | ⟨t, isEntry, old⟩
      · simp only [none] at copy
        cases copy
      · simp only [isEntry, Option.some.injEq] at copy
        subst copy
        exact old.elim (fun old => .inr (.inl old)) .inl
    · exact .inr (.inr rest)
  -- Nothing but what `frame_forward` has and the timers have changed.
  have game {timers : List Tm} {groups : List (Nat × Nat)} {nums : Nat} {stopLoop stopTimer : Bool}
      {pc : GamePc} {history : List Event}
      (copy : q ∈ ({ s with timers, groups, nums, stopLoop, stopTimer, game := pc, history } :
        State).held) (none : pc.taken = []) : q ∈ s.held := by
    rw [mem_held] at copy ⊢
    rcases copy with copy | copy | copy | copy | copy
    · exact .inl copy
    · exact .inr (.inl copy)
    · exact .inr (.inr (.inl copy))
    · simp only [none] at copy
      cases copy
    · exact .inr (.inr (.inr (.inr copy)))
  cases move with
  | stay => exact .inl copy
  | push pc free listed same pushed =>
      rcases mem_held.1 copy with copy | copy | rest
      · rcases List.mem_cons.1 (pushed.1.mem_iff.1 copy) with rfl | old
        · exact .inr listed
        · exact .inl (mem_held.2 (.inl old))
      · cases copy
      · exact .inl (mem_held.2 (.inr (.inr rest)))
  | clear pc free => exact .inl (work copy (fun _ member => nomatch member) (.inl rfl))
  | start pc | refused pc stopped | enter pc free runs | scanned pc | finds pc pushes
  | skips pc skipped | reset pc | wake pc | empty pc | more pc nonempty | breaks pc
  | gone pc none =>
      exact .inl (work copy (fun _ member => member) (.inl rfl))
  | recheck pc next | recheckLoop pc next =>
      rcases next with rfl | rfl <;> exact .inl (work copy (fun _ member => member) (.inl rfl))
  | top pc first =>
      exact .inl (work copy (fun _ member => member)
        (.inr ⟨_, rfl, .inr (List.mem_of_mem_head? first)⟩))
  | @compare _ _ t _ pc next =>
      have old : s.worker.entry = some t := by rw [pc]; rfl
      rcases next with rfl | rfl <;>
        exact .inl (work copy (fun _ member => member) (.inr ⟨_, rfl, .inl old⟩))
  | @wait _ _ t pc | @check _ _ t pc | @checkLoop _ _ t pc | @lockFrame _ _ t pc
  | @found _ _ t pc =>
      have old : s.worker.entry = some t := by rw [pc]; rfl
      exact .inl (work copy (fun _ member => member) (.inr ⟨_, rfl, .inl old⟩))
  | @mark order now t pc pushed =>
      have old : s.worker.entry = some t := by rw [pc]; rfl
      rcases mem_held.1 copy with copy | copy | copy | rest
      · exact .inl (mem_held.2 (.inl copy))
      · cases copy
      · rcases List.mem_cons.1 (pushed.1.mem_iff.1 copy) with rfl | older
        · exact .inl (mem_held.2 (.inr (.inl old)))
        · exact .inl (mem_held.2 (.inr (.inr (.inl older))))
      · exact .inl (mem_held.2 (.inr (.inr (.inr rest))))
  | pop pc first =>
      refine .inl (work copy (fun _ member => ?_) (.inl rfl))
      rw [first]
      exact List.mem_cons_of_mem _ member
  | erase idle erases free after => rcases after with rfl | rfl <;> exact .inl (game copy rfl)
  | addTimer | changeTimerById | stopAll | signal | change | stopFrame | stopTimer | restart
  | drop | remove => exact .inl (game copy rfl)
  | startFrame idle first =>
      rw [mem_held] at copy ⊢
      simp only [GamePc.taken, List.mem_singleton] at copy
      rw [first, List.mem_cons]
      rcases copy with copy | copy | copy | rfl | copy
      · exact .inl (.inl copy)
      · exact .inl (.inr (.inl copy))
      · exact .inl (.inr (.inr (.inl (.inr copy))))
      · exact .inl (.inr (.inr (.inl (.inl rfl))))
      · exact .inl (.inr (.inr (.inr (.inr copy))))
  | stopQueue pc =>
      rcases mem_held.1 copy with copy | copy | copy | copy | copy
      · cases copy
      · exact .inl (mem_held.2 (.inr (.inl copy)))
      · cases copy
      · cases copy
      · exact .inl (mem_held.2 (.inr (.inr (.inr (.inr copy)))))
  | @execute _ t tm pc listed same =>
      rcases mem_held.1 copy with copy | copy | copy | copy | copy
      · exact .inl (mem_held.2 (.inl copy))
      · exact .inl (mem_held.2 (.inr (.inl copy)))
      · exact .inl (mem_held.2 (.inr (.inr (.inl copy))))
      · cases copy
      · rcases List.mem_cons.1 copy with rfl | older
        · exact .inl (mem_held.2 (.inr (.inr (.inr (.inl (by simp [pc, GamePc.taken]))))))
        · exact .inl (mem_held.2 (.inr (.inr (.inr (.inr older)))))
  | @returns ret now t rest idle running =>
      exact .inl (held_of_finish (b := { s with inside := rest }) rfl rfl rfl
        (running ▸ List.sublist_cons_self _ _) copy)
  | @fail now t tm pc present same =>
      exact .inl (held_of_finish
        (b := { s with game := .idle, history := .missed t :: s.history }) rfl rfl rfl
        (List.Sublist.refl _) copy)

end Refsapi.Timers
