/-
# Timers.Callback -- whether a timer outlives its own callback

`frame_forward` writes to the timer whose callback has returned, through a pointer that it
obtained before the call.  The timer is still there if and only if nothing has removed it
since (`listed_iff`): `remove_timers`, `remove_timer_by_id` and `stop_all` do not look at
what is running.  Ids are not used again, so that to be removed is the last that is told
of a timer (`Ended`).
-/
import Refsapi.Timers.Writes

namespace Refsapi.Timers

set_option autoImplicit false

variable {s s' : State} {a : Action}

/-- What of the history is settled. -/
structure Ended (s : State) : Prop where
  last : s.history.Pairwise fun later earlier => earlier ≠ .removed later.id
  listed : ∀ t ∈ s.timers, .removed t.id ∉ s.history
  known : ∀ e ∈ s.history, e.id ≤ s.nums
  called : ∀ q ∈ s.inside, .executed q ∈ s.history
  left : ∀ q ∈ s.inside, (∃ t ∈ s.timers, t.id = q.id) ∨ .removed q.id ∈ s.history

/-- A step that tells nothing. -/
theorem Ended.of_quiet (ended : Ended s) (history : s'.history = s.history)
    (nums : s'.nums = s.nums)
    (old : ∀ u ∈ s'.timers, ∃ t ∈ s.timers, t.id = u.id)
    (kept : ∀ t ∈ s.timers, ∃ u ∈ s'.timers, u.id = t.id) (inside : s'.inside ⊆ s.inside) :
    Ended s' := by
  refine ⟨history ▸ ended.last, fun u listed => ?_, ?_, fun q running => ?_, fun q running => ?_⟩
  · obtain ⟨t, listed', same⟩ := old u listed
    rw [history, ← same]
    exact ended.listed t listed'
  · rw [history, nums]
    exact ended.known
  · rw [history]
    exact ended.called q (inside running)
  · rw [history]
    refine (ended.left q (inside running)).imp_left ?_
    rintro ⟨t, listed, isId⟩
    obtain ⟨u, listed', same⟩ := kept t listed
    exact ⟨u, listed', same.trans isId⟩

/-- A timer that is listed is told of. -/
theorem Ended.tell (ended : Ended s) {e : Event} {t : Tm} (listed : t ∈ s.timers)
    (same : t.id = e.id) (kind : ∀ u ∈ s.timers, e ≠ .removed u.id) (bound : t.id ≤ s.nums) :
    Ended { s with history := e :: s.history } := by
  refine ⟨List.pairwise_cons.2 ⟨fun earlier member removed => ?_, ended.last⟩,
    fun u listed' member => ?_, fun earlier member => ?_,
    fun q running => List.mem_cons_of_mem _ (ended.called q running),
    fun q running => (ended.left q running).imp_right (List.mem_cons_of_mem _)⟩
  · exact ended.listed t listed (same ▸ removed ▸ member)
  · rcases List.mem_cons.1 member with isE | old
    · exact kind u listed' isE.symm
    · exact ended.listed u listed' old
  · rcases List.mem_cons.1 member with rfl | old
    · exact same ▸ bound
    · exact ended.known earlier old

theorem Ended.erase (ended : Ended s) (ids : (s.timers.map Tm.id).Nodup)
    (bound : ∀ t ∈ s.timers, t.id ≤ s.nums) (p : Tm → Bool) : Ended (s.erase p) := by
  have gone {e : Event} (member : e ∈ (s.timers.filter p).map fun t => Event.removed t.id) :
      ∃ t ∈ s.timers, p t = true ∧ e = .removed t.id := by
    obtain ⟨t, listed, rfl⟩ := List.mem_map.1 member
    exact ⟨t, (List.mem_filter.1 listed).1, (List.mem_filter.1 listed).2, rfl⟩
  refine ⟨List.pairwise_append.2 ⟨?_, ended.last, fun later member earlier old removed => ?_⟩,
    fun u listed member => ?_, fun e member => ?_,
    fun q running => List.mem_append_right _ (ended.called q running), fun q running => ?_⟩
  · rw [List.pairwise_map]
    refine (List.pairwise_map.1 (ids.sublist (List.Sublist.map _ List.filter_sublist))).imp ?_
    intro t u other same
    exact other (Event.removed.inj same).symm
  · obtain ⟨t, listed, -, rfl⟩ := gone member
    exact ended.listed t listed (removed ▸ old)
  · obtain ⟨listed', stays⟩ := List.mem_filter.1 listed
    rcases List.mem_append.1 member with new | old
    · obtain ⟨t, listed, isGone, same⟩ := gone new
      have equal := List.inj_on_of_nodup_map ids listed' listed (Event.removed.inj same)
      rw [equal, isGone] at stays
      cases stays
    · exact ended.listed u listed' old
  · rcases List.mem_append.1 member with new | old
    · obtain ⟨t, listed, -, rfl⟩ := gone new
      exact bound t listed
    · exact ended.known e old
  · rcases ended.left q running with ⟨t, listed, isId⟩ | removed
    · by_cases isGone : p t = true
      · exact .inr (List.mem_append_left _ (isId ▸
          List.mem_map_of_mem (f := fun t => Event.removed t.id)
            (List.mem_filter.2 ⟨listed, isGone⟩)))
      · exact .inl ⟨t, List.mem_filter.2 ⟨listed, by simpa using isGone⟩, isId⟩
    · exact .inr (List.mem_append_right _ removed)

theorem Ended.finish (ended : Ended s) (bound : ∀ t ∈ s.timers, t.id ≤ s.nums) (t : Tm)
    (ret now : Int) (left : State.again t ret = true → ∃ tm ∈ s.timers, tm.id = t.id) :
    Ended (s.finished t ret now) := by
  unfold State.finished
  split
  · next isAgain =>
    obtain ⟨tm, listed, same⟩ := left isAgain
    have told := ended.tell (e := .armed t.id) listed same (fun _ _ same => nomatch same)
      (bound tm listed)
    refine told.of_quiet rfl rfl (fun u listed => ?_) (fun u listed => ?_) fun _ running => running
    · obtain ⟨v, old, ⟨-, rfl⟩ | ⟨-, rfl⟩⟩ := mem_writeTo listed
      · exact ⟨v, old, rfl⟩
      · exact ⟨u, old, rfl⟩
    · obtain ⟨v, old, same⟩ := same_of_writeTo (f := State.rearmed t now)
        (fun _ => ⟨rfl, rfl, rfl, rfl⟩) listed
      exact ⟨v, old, same.id⟩
  · exact ended.of_quiet rfl rfl (fun u listed => ⟨u, listed, rfl⟩)
      (fun u listed => ⟨u, listed, rfl⟩) fun _ running => running

theorem Ended.step (ids : (s.timers.map Tm.id).Nodup) (bound : ∀ t ∈ s.timers, t.id ≤ s.nums)
    (ended : Ended s) (move : Move s a s') : Ended s' := by
  -- The timers are those that there were, perhaps with other values.
  have same {s' : State} (timers : s'.timers = s.timers) (history : s'.history = s.history)
      (nums : s'.nums = s.nums) (inside : s'.inside = s.inside) : Ended s' :=
    ended.of_quiet history nums (fun u listed => ⟨u, timers ▸ listed, rfl⟩)
      (fun t listed => ⟨t, timers.symm ▸ listed, rfl⟩) fun _ running => inside ▸ running
  have written {s' : State} {id : Nat} {f : Tm → Tm} (keeps : ∀ t, (f t).Same t)
      (timers : s'.timers = writeTo id f s.timers) (history : s'.history = s.history)
      (nums : s'.nums = s.nums) (inside : s'.inside = s.inside) : Ended s' := by
    refine ended.of_quiet history nums (fun u listed => ?_) (fun u listed => ?_)
      fun _ running => inside ▸ running
    · rw [timers] at listed
      obtain ⟨v, old, ⟨-, rfl⟩ | ⟨-, rfl⟩⟩ := mem_writeTo listed
      · exact ⟨v, old, (keeps v).id.symm⟩
      · exact ⟨u, old, rfl⟩
    · obtain ⟨v, old, same⟩ := same_of_writeTo keeps listed
      exact ⟨v, timers ▸ old, same.id⟩
  cases move with
  | mark pc pushed =>
      exact written (f := fun tm => { tm with executed := true }) (fun _ => ⟨rfl, rfl, rfl, rfl⟩)
        rfl rfl rfl rfl
  | @change _ _ id delaySec flags repeats pc =>
      exact written (f := State.changed delaySec flags repeats) (fun _ => ⟨rfl, rfl, rfl, rfl⟩)
        rfl rfl rfl rfl
  | addTimer idle free =>
      have old {e : Event} (member : e ∈ s.history) : e.id ≠ s.nums + 1 :=
        Nat.ne_of_lt (Nat.lt_succ_of_le (ended.known e member))
      refine ⟨List.pairwise_cons.2 ⟨fun earlier member removed => ?_, ended.last⟩,
        fun u listed member => ?_, fun e member => ?_,
        fun q running => List.mem_cons_of_mem _ (ended.called q running), fun q running => ?_⟩
      · exact old member (congrArg Event.id removed)
      · rcases List.mem_cons.1 member with isArmed | removed
        · cases isArmed
        rcases List.mem_cons.1 ((insert_perm _ _ _).mem_iff.1 listed) with rfl | listed'
        · exact old removed rfl
        · exact ended.listed u listed' removed
      · rcases List.mem_cons.1 member with rfl | told
        · exact Nat.le_refl _
        · exact Nat.le_succ_of_le (ended.known e told)
      · refine (ended.left q running).imp ?_ (List.mem_cons_of_mem _)
        rintro ⟨t, listed, isId⟩
        exact ⟨t, (insert_perm _ _ _).mem_iff.2 (List.mem_cons_of_mem _ listed), isId⟩
  | erase idle erases free after =>
      rcases after with rfl | rfl <;> exact (ended.erase ids bound _).of_quiet rfl rfl
        (fun u listed => ⟨u, listed, rfl⟩) (fun u listed => ⟨u, listed, rfl⟩)
        fun _ running => running
  | remove pc free | stopTimer pc free =>
      exact (ended.erase ids bound _).of_quiet rfl rfl
        (fun u listed => ⟨u, listed, rfl⟩) (fun u listed => ⟨u, listed, rfl⟩)
        fun _ running => running
  | @execute _ t tm pc listed isId =>
      have told := ended.tell (e := .executed t) listed isId (fun _ _ same => nomatch same)
        (bound tm listed)
      refine ⟨told.last, told.listed, told.known, fun q running => ?_, fun q running => ?_⟩
      · rcases List.mem_cons.1 running with rfl | outer
        · exact List.mem_cons_self
        · exact told.called q outer
      · rcases List.mem_cons.1 running with rfl | outer
        · exact .inl ⟨tm, listed, isId⟩
        · exact told.left q outer
  | @returns ret now t rest idle running left =>
      have popped : Ended { s with inside := rest } :=
        ended.of_quiet rfl rfl (fun u listed => ⟨u, listed, rfl⟩) (fun u listed => ⟨u, listed, rfl⟩)
          fun _ member => running ▸ List.mem_cons_of_mem _ member
      exact popped.finish bound t ret now left
  | @fail now t tm pc listed isId =>
      have told := ended.tell (e := .missed t) listed isId (fun _ _ same => nomatch same)
        (bound tm listed)
      have idle : Ended { s with game := .idle, history := .missed t :: s.history } :=
        told.of_quiet rfl rfl (fun u listed => ⟨u, listed, rfl⟩) (fun u listed => ⟨u, listed, rfl⟩)
          fun _ running => running
      exact idle.finish bound t 0 now fun _ => ⟨tm, listed, isId⟩
  | _ => exact same rfl rfl rfl rfl

theorem ended_of_reachable (run : machine.Reachable s) : Ended s := by
  refine Machine.Reaches.invariant (I := Ended) ?_ (fun s a s' before ended _ moved => ?_) run
  · rintro _ ⟨maxClients, rfl⟩
    constructor <;> simp [State.zero]
  · have ok := (dispatched_of_reachable before.reachable).1
    exact ended.step ok.ids ok.known (move_of_step moved)

/-- **A timer in its callback.**  The callback of a running copy was called once since, and the
timer is still in `m_timers` if and only if nothing has removed it since that call. -/
theorem listed_iff (s : State) (run : machine.Reachable s) (t : Tm) (inside : t ∈ s.inside) :
    ∃ since before, s.history = since ++ .executed t :: before ∧ .executed t ∉ since ∧
      ((∃ tm ∈ s.timers, tm.id = t.id) ↔ .removed t.id ∉ since) := by
  have ended := ended_of_reachable run
  obtain ⟨since, before, history, latest⟩ := List.eq_append_cons_of_mem (ended.called t inside)
  refine ⟨since, before, history, latest, ?_, fun stays => ?_⟩
  · rintro ⟨tm, listed, same⟩ removed
    refine ended.listed tm listed ?_
    rw [same, history]
    exact List.mem_append_left _ removed
  · refine (ended.left t inside).resolve_right fun removed => ?_
    have last := ended.last
    rw [history] at last removed
    rcases List.mem_append.1 removed with later | earlier
    · exact stays later
    · rcases List.mem_cons.1 earlier with isExecuted | earlier
      · cases isExecuted
      · exact (List.pairwise_cons.1 (List.pairwise_append.1 last).2.1).1 _ earlier rfl

/-- The timer of the example: a loop, with its callback due. -/
def looping : Tm := ⟨1, 1, 7, 0, .fin false 1, 1000000000, timerFlagLoop, 0, false⟩

/-- A timer is added and its callback called. -/
def called : List Action :=
  [.addTimer .zero 1 7 (.fin false 1) 0 timerFlagLoop 0 0, .go true 0, .work [] 0, .work [] 0,
    .work [] 0, .work [] 0, .work [looping] 0, .work [] 0, .work [] 0, .work [] 0, .work [] 0,
    .work [] 1000000000, .work [] 0, .work [] 0, .work [] 0, .work [] 0, .work [looping] 0,
    .startFrame, .go true 0]

/-- The callback is about to return, and the timer is there. -/
theorem listed_iff_called : ∃ (s : State) (t : Tm), (s.inside = [t] ∧ s.timers.map Tm.id = [t.id]) ∧
    ∃ since before, s.history = since ++ .executed t :: before ∧ .executed t ∉ since ∧
      ((∃ tm ∈ s.timers, tm.id = t.id) ↔ .removed t.id ∉ since) := by
  have ends : (machine.exec (.zero 32) called).map
      (fun s => s.inside == [looping] && s.timers.map Tm.id == [1]) = some true := by
    decide +kernel
  obtain ⟨s, run, holds⟩ := Machine.exists_reachable (M := machine) ⟨32, rfl⟩ ends
  simp only [Bool.and_eq_true, beq_iff_eq] at holds
  exact ⟨s, looping, holds, listed_iff s run looping (by simp [holds.1])⟩

/-- The callback removes its own group, and the timer was to be armed again. -/
theorem not_always_listed : ¬ ∀ s, machine.Reachable s → s.game = .idle →
    ∀ t rest, s.inside = t :: rest → State.again t 0 = true → ∃ tm ∈ s.timers, tm.id = t.id := by
  intro always
  have ends : (machine.exec (.zero 32) (called ++ [.removeTimers 1 0, .go true 0])).map
      (fun s => s.game == .idle && s.inside == [looping] && s.timers == []) = some true := by
    decide +kernel
  obtain ⟨s, run, holds⟩ := Machine.exists_reachable (M := machine) ⟨32, rfl⟩ ends
  simp only [Bool.and_eq_true, beq_iff_eq] at holds
  obtain ⟨tm, listed, -⟩ := always s run holds.1.1 looping [] holds.1.2 (by decide)
  rw [holds.2] at listed
  cases listed

end Refsapi.Timers
