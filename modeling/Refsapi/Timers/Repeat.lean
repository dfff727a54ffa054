/-
# Timers.Repeat -- a timer that is to be run `n` times

`frame_forward` counts in `m_timers`, and decides by the copy that the worker made.  For a
timer that nothing else changes or removes the two agree wherever the copy is, as there is
no second copy and the timer is not written to while there is one (`Counted`).  So its
`k`-th dispatch has `n - k + 1` left and, where the timer is not `RELATIVE`, a deadline of
`k - 1` delays after the first; and the timer is removed after the `n`-th.  A dispatch
that finds no room for its callback counts with the others.
-/
import Refsapi.Timers.Armed
import Refsapi.Timers.Callback
import Refsapi.Timers.Queries
import Refsapi.Timers.Signal

namespace Refsapi.Timers

set_option autoImplicit false

/-! ## Dispatches -/

/-- The copy that an event dispatched, if it is one of a timer. -/
def Event.dispatch (id : Nat) : Event → Option Tm
  | .executed t => if t.id = id then some t else none
  | .missed t => if t.id = id then some t else none
  | _ => none

/-- The copies of a timer that were dispatched, latest first. -/
def dispatches (id : Nat) (history : List Event) : List Tm := history.filterMap (Event.dispatch id)

/-- What a record says but for its mark. -/
def Tm.unmarked (t : Tm) : Tm := { t with executed := false }

/-- A record is on its count: this many dispatches of a timer are done. -/
structure OnCount (first : Tm) (done : Nat) (t : Tm) : Prop where
  flags : t.flags = first.flags
  delaySec : t.delaySec = first.delaySec
  left : t.repeats.toNat + done = first.repeats.toNat
  some : 0 < t.repeats.toNat
  time : first.flags &&& timerFlagRelative = 0 →
    t.time = first.time + done * (delayMs first.delaySec * 1000000)

variable {s s' : State} {a : Action} {first : Tm}

theorem dispatches_removed (id : Nat) (removed : List Tm) (history : List Event) :
    dispatches id (removed.map (fun t => Event.removed t.id) ++ history) =
      dispatches id history := by
  induction removed with
  | nil => rfl
  | cons t rest ih => exact ih

theorem fields_of_unmarked {t u : Tm} (same : t.unmarked = u.unmarked) :
    t.flags = u.flags ∧ t.delaySec = u.delaySec ∧ t.repeats = u.repeats ∧ t.time = u.time := by
  simp only [Tm.unmarked, Tm.mk.injEq] at same
  obtain ⟨-, -, -, -, delaySec, time, flags, repeats, -⟩ := same
  exact ⟨flags, delaySec, repeats, time⟩

theorem OnCount.of_unmarked {done : Nat} {t u : Tm} (count : OnCount first done t)
    (same : t.unmarked = u.unmarked) : OnCount first done u := by
  obtain ⟨flags, delaySec, left, some, time⟩ := count
  obtain ⟨sameFlags, sameDelay, sameRepeats, sameTime⟩ := fields_of_unmarked same
  rw [sameFlags] at flags
  rw [sameDelay] at delaySec
  rw [sameRepeats] at left some
  rw [sameTime] at time
  exact ⟨flags, delaySec, left, some, time⟩

/-- To arm a timer again counts one. -/
theorem OnCount.rearmed {done : Nat} {t q : Tm} (repeats : first.flags &&& timerFlagRepeat ≠ 0)
    (count : OnCount first done t) (same : q.unmarked = t.unmarked) (more : 1 < q.repeats)
    (now : Int) :
    OnCount first (done + 1) (State.rearmed q now t) := by
  obtain ⟨sameFlags, sameDelay, sameRepeats, -⟩ := fields_of_unmarked same
  have isRepeat : (q.flags &&& timerFlagRepeat != 0) = true := by
    rw [sameFlags, count.flags]
    exact bne_iff_ne.2 repeats
  have more' : 1 < t.repeats.toNat := by
    rw [sameRepeats] at more
    exact more
  have left : (t.repeats - 1).toNat = t.repeats.toNat - 1 :=
    UInt32.toNat_sub_of_le _ _ (UInt32.le_iff_toNat_le.2 more'.le)
  have total := count.left
  refine ⟨count.flags, count.delaySec, ?_, ?_, fun absolute => ?_⟩
  · simp only [State.rearmed, isRepeat, if_true, left]
    omega
  · simp only [State.rearmed, isRepeat, if_true, left]
    omega
  · have isAbsolute : (q.flags &&& timerFlagRelative != 0) = false := by
      rw [sameFlags, count.flags, absolute]
      rfl
    simp only [State.rearmed, isAbsolute, Bool.false_eq_true, if_false, later]
    rw [count.time absolute, sameDelay, count.delaySec]
    push_cast
    ring

/-! ## The count along a run -/

/-- The step removes no timer with an id, changes none and stops none, and a callback of such
a timer returns 0. -/
def Undisturbed (id : Nat) (s : State) : Action → Prop
  | .returns ret _ => ∀ t rest, s.inside = t :: rest → t.id = id → ret = 0
  | .changeTimerById amx other _ _ _ => ∀ t ∈ s.timers, t.id = id → t.amx = amx → other ≠ id
  | .stopAll => False
  | a => ∀ p, Erases s a p → ∀ t ∈ s.timers, t.id = id → p t = false

/-- How far a timer has come. -/
structure Counted (first : Tm) (s : State) : Prop where
  known : first.id ≤ s.nums
  calm : s.game.stopping = false
  unchanged : ∀ delaySec flags repeats, s.game ≠ .change first.id delaySec flags repeats
  told : ∀ later t before, dispatches first.id s.history = later ++ t :: before →
    OnCount first before.length t
  agree : ∀ q ∈ s.core.copies, q.id = first.id → ∀ u ∈ s.timers, u.id = first.id →
    q.unmarked = u.unmarked
  resting : (∀ q ∈ s.inside, q.id ≠ first.id) → (∀ t, s.game = .remove t → t.id ≠ first.id) →
    ∀ u ∈ s.timers, u.id = first.id → OnCount first (dispatches first.id s.history).length u
  running : ∀ q ∈ s.inside, q.id = first.id → ∀ u ∈ s.timers, u.id = first.id →
    ∃ done, (dispatches first.id s.history).length = done + 1 ∧ OnCount first done u
  ending : ∀ t, s.game = .remove t → t.id = first.id →
    (dispatches first.id s.history).length = first.repeats.toNat ∧
      (∀ q ∈ s.core.copies, q.id ≠ first.id) ∧
        ∀ u ∈ s.timers, u.id = first.id → u.executed = true ∧ u.amx = t.amx ∧ u.groupId = t.groupId
  gone : (∀ u ∈ s.timers, u.id ≠ first.id) →
    (dispatches first.id s.history).length = first.repeats.toNat ∧
      ∀ q ∈ s.inside, q.id ≠ first.id

/-- A step that neither dispatches the timer nor decides about it. -/
theorem Counted.quiet (ok : Dispatched s.core) (counted : Counted first s)
    (effects : Effects s.core s'.core) (nums : s.nums ≤ s'.nums)
    (calm : s'.game.stopping = false)
    (unchanged : ∀ delaySec flags repeats, s'.game ≠ .change first.id delaySec flags repeats)
    (told : dispatches first.id s'.history = dispatches first.id s.history)
    (inside : ∀ q, q.id = first.id → (q ∈ s'.inside ↔ q ∈ s.inside))
    (remove : ∀ t, t.id = first.id → (s'.game = .remove t ↔ s.game = .remove t))
    (old : ∀ u ∈ s'.timers, u.id = first.id → ∃ v ∈ s.timers, v.Same u ∧
      v.unmarked = u.unmarked ∧ (v.executed = true → u.executed = true))
    (kept : ∀ v ∈ s.timers, v.id = first.id → ∃ u ∈ s'.timers, u.id = first.id) :
    Counted first s' := by
  refine ⟨counted.known.trans nums, calm, unchanged, told ▸ counted.told,
    fun q copy isId u listed same => ?_, fun away notEnding u listed same => ?_,
    fun q member isId u listed same => ?_, fun t pc isId => ?_, fun none => ?_⟩
  · obtain ⟨v, listed', isV, values, -⟩ := old u listed same
    rcases effects.copies copy with older | ⟨listed'', -⟩
    · exact (counted.agree q older isId v listed' (isV.id.trans same)).trans values
    · have equal := ok.unique listed'' listed' (isId.trans (isV.id.trans same).symm)
      exact (congrArg Tm.unmarked equal).trans values
  · obtain ⟨v, listed', isV, values, -⟩ := old u listed same
    rw [told]
    refine (counted.resting (fun q member isId => ?_) (fun t pc isId => ?_) v listed'
      (isV.id.trans same)).of_unmarked values
    · exact away q ((inside q isId).2 member) isId
    · exact notEnding t ((remove t isId).2 pc) isId
  · obtain ⟨v, listed', isV, values, -⟩ := old u listed same
    rw [told]
    obtain ⟨done, length, count⟩ := counted.running q ((inside q isId).1 member) isId v listed'
      (isV.id.trans same)
    exact ⟨done, length, count.of_unmarked values⟩
  · obtain ⟨length, none, marked⟩ := counted.ending t ((remove t isId).1 pc) isId
    refine ⟨told ▸ length, fun q copy same => ?_, fun u listed same => ?_⟩
    · rcases effects.copies copy with older | ⟨listed, waits⟩
      · exact none q older same
      · have marked := (marked q listed same).1
        rw [waits] at marked
        cases marked
    · obtain ⟨v, listed', isV, -, executed⟩ := old u listed same
      obtain ⟨isMarked, isAmx, isGroup⟩ := marked v listed' (isV.id.trans same)
      exact ⟨executed isMarked, isV.amx.symm.trans isAmx, isV.groupId.symm.trans isGroup⟩
  · obtain ⟨length, away⟩ := counted.gone fun v listed same => by
      obtain ⟨u, listed', isId⟩ := kept v listed same
      exact none u listed' isId
    exact ⟨told ▸ length, fun q member isId => away q ((inside q isId).1 member) isId⟩

/-- The timer is dispatched. -/
theorem Counted.call (ok : Dispatched s.core) (counted : Counted first s) {t tm : Tm} {e : Event}
    (pc : s.game = .forward t) (isId : t.id = first.id) (listed : tm ∈ s.timers)
    (same : tm.id = t.id) (kind : e.dispatch first.id = some t) :
    Counted first { s with game := .idle, inside := t :: s.inside, history := e :: s.history } := by
  have taken : s.core.taken = [t] := by simp [State.core, pc, GamePc.taken]
  have apart (q : Tm) (member : q ∈ s.inside) : q.id ≠ first.id := by
    have once := ok.once
    rw [Core.copies, taken, List.append_assoc, List.map_append, List.nodup_append] at once
    have nodup := once.2.1
    rw [List.singleton_append, List.map_cons, List.nodup_cons] at nodup
    exact fun isQ => nodup.1 (List.mem_map.2 ⟨q, member, isQ.trans isId.symm⟩)
  have resting := counted.resting apart fun u isRemove => by
    rw [pc] at isRemove
    cases isRemove
  have length : dispatches first.id (e :: s.history) = t :: dispatches first.id s.history := by
    simp [dispatches, kind]
  have copy : t ∈ s.core.copies := by simp [Core.copies, taken]
  have count : OnCount first (dispatches first.id s.history).length t :=
    (resting tm listed (same.trans isId)).of_unmarked
      (counted.agree t copy isId tm listed (same.trans isId)).symm
  refine ⟨counted.known, rfl, fun _ _ _ pc => (by cases pc), fun later u before split => ?_,
    fun q member isQ => counted.agree q ?_ isQ, fun away => absurd isId (away t List.mem_cons_self),
    fun q _ _ u listed' isU => ⟨_, congrArg List.length length, resting u listed' isU⟩,
    fun u isRemove => (by cases isRemove), fun none => absurd (same.trans isId) (none tm listed)⟩
  · simp only [length] at split
    rcases List.cons_eq_append_iff.1 split with ⟨-, here⟩ | ⟨rest, -, there⟩
    · cases here
      exact count
    · exact counted.told rest u before there
  · simp only [Core.copies, State.core, GamePc.taken, pc, List.append_assoc, List.mem_append,
      List.mem_cons, List.not_mem_nil, false_or, or_false] at member ⊢
    exact member

/-- `frame_forward` decides about the timer. -/
theorem Counted.finish (ok : Dispatched s.core) (counted : Counted first s)
    (isRepeat : first.flags &&& timerFlagRepeat ≠ 0) (notLoop : first.flags &&& timerFlagLoop = 0)
    {t : Tm} {rest : List Tm} (idle : s.game = .idle) (running : s.inside = t :: rest)
    (isId : t.id = first.id) (now : Int) :
    Counted first (({ s with inside := rest } : State).finished t 0 now) := by
  have inside : t ∈ s.inside := by simp [running]
  have copy : t ∈ s.core.copies := by simp [Core.copies, State.core, running]
  have apart (q : Tm) (member : q ∈ s.waiting ++ s.frames ++ [] ++ rest) : q.id ≠ first.id := by
    have once := ok.once
    simp only [Core.copies, State.core, idle, GamePc.taken, running, List.append_nil] at once
    rw [List.perm_middle.map Tm.id |>.nodup_iff, List.map_cons, List.nodup_cons] at once
    rw [List.append_nil] at member
    exact fun isQ => once.1 (List.mem_map.2 ⟨q, member, isQ.trans isId.symm⟩)
  have present : ∃ u ∈ s.timers, u.id = first.id := by
    by_contra none
    exact (counted.gone fun u listed same => none ⟨u, listed, same⟩).2 t inside isId
  obtain ⟨v, listedV, isV⟩ := present
  obtain ⟨done, length, count⟩ := counted.running t inside isId v listedV isV
  have agrees := counted.agree t copy isId v listedV isV
  obtain ⟨sameFlags, -, sameRepeats, -⟩ := fields_of_unmarked agrees
  have again_iff : State.again t 0 = true ↔ 1 < t.repeats := by
    simp [State.again, sameFlags, count.flags, isRepeat, notLoop]
  have others (u : Tm) (listed : u ∈ s.timers) (same : u.id = first.id) : u = v :=
    ok.unique listed listedV (same.trans isV.symm)
  unfold State.finished
  split
  · next isAgain =>
      have rearmed := count.rearmed isRepeat agrees (again_iff.1 isAgain) now
      have told : dispatches first.id (.armed t.id :: s.history) = dispatches first.id s.history :=
        rfl
      refine ⟨counted.known, rfl, fun _ _ _ pc => (by cases pc), fun later u before split => ?_,
        fun q member isQ => absurd isQ (apart q member), fun _ _ u listed same => ?_,
        fun q member isQ => absurd isQ (apart q (List.mem_append_right _ member)),
        fun u isRemove => (by cases isRemove), fun none => ?_⟩
      · exact counted.told later u before (told.symm.trans split)
      · obtain ⟨w, old, ⟨-, rfl⟩ | ⟨other, rfl⟩⟩ := mem_writeTo listed
        · obtain rfl := others w old same
          exact ((congrArg List.length told).trans length) ▸ rearmed
        · exact absurd (same.trans isId.symm) other
      · obtain ⟨u, listed, same⟩ := same_of_writeTo (f := State.rearmed t now)
          (fun _ => ⟨rfl, rfl, rfl, rfl⟩) listedV
        exact absurd (same.id.trans isV) (none u listed)
  · next isLast =>
      have last : v.repeats.toNat ≤ 1 := by
        rw [again_iff, sameRepeats] at isLast
        exact UInt32.le_iff_toNat_le.1 (UInt32.not_lt.1 isLast)
      have total := count.left
      have some := count.some
      refine ⟨counted.known, rfl, fun _ _ _ pc => (by cases pc), counted.told,
        fun q member isQ => absurd isQ (apart q member), fun _ away => absurd isId (away t rfl),
        fun q member isQ => absurd isQ (apart q (List.mem_append_right _ member)),
        fun u isRemove _ => ?_, fun none => absurd isV (none v listedV)⟩
      cases isRemove
      refine ⟨by rw [show (dispatches first.id s.history).length = done + 1 from length]; omega,
        apart, fun u listed same => ?_⟩
      have agree := ok.agree t copy u listed (same.trans isId.symm)
      exact ⟨ok.marked t (by simp [State.core, running]) u listed (same.trans isId.symm),
        agree.amx, agree.groupId⟩

theorem stopping_of_move (move : Move s a s') (stopping : s'.game.stopping = true) :
    s.game.stopping = true ∨ a = .stopAll := by
  cases move with
  | stopAll idle => exact .inr rfl
  | erase idle erases free after => rcases after with rfl | rfl <;> cases stopping
  | returns | fail =>
      unfold State.finished at stopping
      split at stopping <;> cases stopping
  | stopFrame pc | stopQueue pc | stopTimer pc =>
      rw [pc]
      exact .inl rfl
  | addTimer | changeTimerById | startFrame | signal | change | restart | drop | execute
  | remove => cases stopping
  | _ => exact .inl stopping

/-! ## Steps that leave the timer alone -/

theorem remove_iff_of_pc {pc : GamePc} (before : s.game = pc) (notRemove : ∀ t, pc ≠ .remove t)
    (after : ∀ t, s'.game ≠ .remove t) (t : Tm) : s'.game = .remove t ↔ s.game = .remove t := by
  constructor
  · intro isRemove
    exact absurd isRemove (after t)
  · intro isRemove
    exact absurd (before.symm.trans isRemove) (notRemove t)

namespace Counted

variable (ok : Dispatched s.core) (counted : Counted first s) (effects : Effects s.core s'.core)
  (calm : s'.game.stopping = false)
  (unchanged : ∀ delaySec flags repeats, s'.game ≠ .change first.id delaySec flags repeats)

include ok counted effects calm unchanged

/-- The timers are as they were, and nothing comes to an end. -/
theorem of_same (timers : s'.timers = s.timers) (history : s'.history = s.history)
    (nums : s'.nums = s.nums) (inside : s'.inside = s.inside)
    (game : ∀ t, s'.game = .remove t ↔ s.game = .remove t) : Counted first s' := by
  refine counted.quiet ok effects nums.ge calm unchanged (by rw [history])
    (fun q _ => by rw [inside]) (fun t _ => game t) ?_ ?_
  · intro u listed _
    exact ⟨u, timers ▸ listed, .refl u, rfl, id⟩
  · intro v listed isV
    exact ⟨v, timers.symm ▸ listed, isV⟩

/-- Timers with other ids are removed. -/
theorem of_erased {p : Tm → Bool} (timers : s'.timers = s.timers.filter fun t => !p t)
    (others : ∀ t ∈ s.timers, t.id = first.id → p t = false)
    (history : s'.history = (s.timers.filter p).map (fun t => Event.removed t.id) ++ s.history)
    (nums : s'.nums = s.nums) (inside : s'.inside = s.inside)
    (remove : ∀ t, t.id = first.id → (s'.game = .remove t ↔ s.game = .remove t)) :
    Counted first s' := by
  refine counted.quiet ok effects nums.ge calm unchanged
    (by rw [history, dispatches_removed]) (fun q _ => by rw [inside]) remove ?_ ?_
  · intro u listed _
    rw [timers] at listed
    exact ⟨u, (List.mem_filter.1 listed).1, .refl u, rfl, id⟩
  · intro v listed isV
    refine ⟨v, ?_, isV⟩
    rw [timers]
    exact List.mem_filter.2 ⟨listed, by simp [others v listed isV]⟩

/-- One timer is written to, which keeps what the counted one says. -/
theorem of_written {id : Nat} {f : Tm → Tm} (keeps : ∀ t, (f t).Same t)
    (values : ∀ t, t.id = first.id → t.id = id →
      (f t).unmarked = t.unmarked ∧ (t.executed = true → (f t).executed = true))
    (timers : s'.timers = writeTo id f s.timers)
    (history : dispatches first.id s'.history = dispatches first.id s.history)
    (nums : s'.nums = s.nums) (inside : ∀ q, q.id = first.id → (q ∈ s'.inside ↔ q ∈ s.inside))
    (remove : ∀ t, t.id = first.id → (s'.game = .remove t ↔ s.game = .remove t)) :
    Counted first s' := by
  refine counted.quiet ok effects nums.ge calm unchanged history inside remove ?_ ?_
  · intro u listed isU
    rw [timers] at listed
    obtain ⟨v, old, ⟨here, rfl⟩ | ⟨-, rfl⟩⟩ := mem_writeTo listed
    · obtain ⟨kept, executed⟩ := values v ((keeps v).id.symm.trans isU) here
      exact ⟨v, old, ⟨(keeps v).id.symm, (keeps v).amx.symm, (keeps v).groupId.symm,
        (keeps v).fwdId.symm⟩, kept.symm, executed⟩
    · exact ⟨u, old, .refl u, rfl, fun marked => marked⟩
  · intro v listed isV
    obtain ⟨u, new, isU⟩ := same_of_writeTo keeps listed
    exact ⟨u, timers ▸ new, isU.id.trans isV⟩

/-- It is decided about another timer. -/
theorem of_decided {b : State} {t : Tm} {ret now : Int} (other : t.id ≠ first.id)
    (timers : b.timers = s.timers)
    (history : dispatches first.id b.history = dispatches first.id s.history)
    (nums : b.nums = s.nums) (inside : ∀ q, q.id = first.id → (q ∈ b.inside ↔ q ∈ s.inside))
    (notRemove : ∀ t, s.game ≠ .remove t) (ends : s' = b.finished t ret now) :
    Counted first s' := by
  unfold State.finished at ends
  split at ends
  · refine counted.of_written ok effects calm unchanged (f := State.rearmed t now)
      (fun _ => ⟨rfl, rfl, rfl, rfl⟩)
      (fun u isFirst isT => absurd (isT.symm.trans isFirst) other) ?_ ?_ ?_ ?_ ?_
    all_goals subst ends
    · simp only [State.written, writeTo, timers]
    · exact history
    · exact nums
    · exact inside
    · intro u _
      exact ⟨fun isRemove => (by cases isRemove), fun isRemove => absurd isRemove (notRemove u)⟩
  · subst ends
    refine counted.quiet ok effects nums.ge calm unchanged history inside ?_ ?_ ?_
    · intro u isU
      refine ⟨fun isRemove => ?_, fun isRemove => absurd isRemove (notRemove u)⟩
      cases isRemove
      exact absurd isU other
    · intro u listed _
      exact ⟨u, timers ▸ listed, .refl u, rfl, fun marked => marked⟩
    · intro v listed isV
      exact ⟨v, timers.symm ▸ listed, isV⟩

end Counted

/-- **One step keeps the count of a timer that it leaves alone.** -/
theorem Counted.step (ok : Dispatched s.core) (walked : Walked s) (counted : Counted first s)
    (isRepeat : first.flags &&& timerFlagRepeat ≠ 0) (notLoop : first.flags &&& timerFlagLoop = 0)
    (undisturbed : Undisturbed first.id s a) (move : Move s a s') : Counted first s' := by
  have effects := effects_of_move walked move
  have calm : s'.game.stopping = false := by
    rw [← Bool.not_eq_true]
    intro stopping
    rcases stopping_of_move move stopping with before | rfl
    · rw [counted.calm] at before
      cases before
    · exact undisturbed
  have unchanged (delaySec : Fp) (flags repeats : UInt32) :
      s'.game ≠ .change first.id delaySec flags repeats := by
    intro pc
    rcases change_of_move move pc with before | ⟨amx, rfl, t, listed, isAmx, isId⟩
    · exact counted.unchanged _ _ _ before
    · exact undisturbed t listed isId isAmx rfl
  cases move with
  | stay => exact counted
  | mark pc pushed =>
      exact counted.of_written ok effects calm unchanged
        (f := fun tm => { tm with executed := true }) (fun _ => ⟨rfl, rfl, rfl, rfl⟩)
        (fun _ _ _ => ⟨rfl, fun _ => rfl⟩) rfl rfl rfl (fun _ _ => .rfl) fun _ _ => .rfl
  | addTimer idle free accepted =>
      refine counted.quiet ok effects (Nat.le_succ _) calm unchanged rfl (fun _ _ => .rfl)
        (fun t _ => remove_iff_of_pc idle (fun _ => by simp) (fun _ => by simp [State.insert]) t)
        (fun u listed isU => ?_)
        fun v listed isV => ⟨v, (insert_perm _ _ _).mem_iff.2 (List.mem_cons_of_mem _ listed), isV⟩
      rcases List.mem_cons.1 ((insert_perm _ _ _).mem_iff.1 listed) with rfl | old
      · have new : s.nums + 1 = first.id := isU
        have := counted.known
        omega
      · exact ⟨u, old, .refl u, rfl, id⟩
  | @erase _ p pc idle erases free after =>
      have others : ∀ t ∈ s.timers, t.id = first.id → p t = false := by
        cases erases with
        | group => exact undisturbed _ .group
        | id => exact undisturbed _ .id
        | client valid => exact undisturbed _ (.client valid)
      refine counted.of_erased ok effects calm unchanged rfl others rfl rfl rfl ?_
      intro t _
      refine remove_iff_of_pc idle (fun _ => by simp) (fun t => ?_) t
      rcases after with rfl | rfl <;> simp
  | changeTimerById idle listed isAmx =>
      exact counted.of_same ok effects calm unchanged rfl rfl rfl rfl
        (remove_iff_of_pc idle (fun _ => by simp) fun _ => by simp)
  | stopAll idle => exact undisturbed.elim
  | startFrame idle isFirst =>
      exact counted.of_same ok effects calm unchanged rfl rfl rfl rfl
        (remove_iff_of_pc idle (fun _ => by simp) fun _ => by simp)
  | signal pc =>
      refine counted.of_same ok effects calm unchanged rfl rfl rfl rfl ?_
      rcases pc with ⟨armed, pc⟩ | pc
      · exact remove_iff_of_pc pc (fun _ => by simp) fun _ => by simp
      · exact remove_iff_of_pc pc (fun _ => by simp) fun _ => by simp
  | @change _ _ id delaySec flags repeats pc =>
      refine counted.of_written ok effects calm unchanged
        (f := State.changed delaySec flags repeats) (fun _ => ⟨rfl, rfl, rfl, rfl⟩)
        (fun t isFirst isId => ?_) rfl rfl rfl (fun _ _ => .rfl)
        (fun t _ => remove_iff_of_pc pc (fun _ => by simp) (fun _ => by simp) t)
      rw [← isId, isFirst] at pc
      exact absurd pc (counted.unchanged _ _ _)
  | stopFrame pc | stopQueue pc | restart pc | drop pc =>
      exact counted.of_same ok effects calm unchanged rfl rfl rfl rfl
        (remove_iff_of_pc pc (fun _ => by simp) fun _ => by simp)
  | stopTimer pc free =>
      have calm := counted.calm
      rw [pc] at calm
      cases calm
  | @remove _ _ t pc free =>
      by_cases isId : t.id = first.id
      · obtain ⟨length, none, marked⟩ := counted.ending t pc isId
        have told := dispatches_removed first.id (s.timers.filter (isTimer t)) s.history
        have absent (u : Tm) (listed : u ∈ s.timers.filter fun tm => !isTimer t tm) :
            u.id ≠ first.id := by
          intro isU
          obtain ⟨old, stays⟩ := List.mem_filter.1 listed
          obtain ⟨-, isAmx, isGroup⟩ := marked u old isU
          simp [isTimer, isAmx, isGroup, isU, isId] at stays
        refine ⟨counted.known, rfl, fun _ _ _ pc => (by cases pc), fun later u before split => ?_,
          fun _ _ _ u listed isU => absurd isU (absent u listed),
          fun _ _ u listed isU => absurd isU (absent u listed),
          fun _ _ _ u listed isU => absurd isU (absent u listed),
          fun u isRemove => (by cases isRemove), fun _ => ⟨(congrArg List.length told).trans length,
            fun q member => none q ?_⟩⟩
        · exact counted.told later u before (told.symm.trans split)
        · have old : q ∈ s.inside := member
          simp [Core.copies, State.core, old]
      · refine counted.of_erased ok effects calm unchanged rfl (fun u listed isU => ?_) rfl rfl rfl
          fun u isU => ?_
        · have other : u.id ≠ t.id := fun same => isId (same.symm.trans isU)
          simp [isTimer, other]
        · refine ⟨fun isRemove => (by cases isRemove), fun isRemove => ?_⟩
          rw [pc] at isRemove
          cases isRemove
          exact absurd isU isId
  | @execute now t tm pc listed isTm =>
      by_cases isId : t.id = first.id
      · exact counted.call ok pc isId listed isTm (by simp [Event.dispatch, isId])
      · refine counted.quiet ok effects (Nat.le_refl _) calm unchanged
          (by simp [dispatches, Event.dispatch, isId]) (fun q isQ => ?_)
          (fun t _ => remove_iff_of_pc pc (fun _ => by simp) (fun _ => by simp) t)
            (fun u listed _ => ⟨u, listed, .refl u, rfl, id⟩)
          fun v listed isV => ⟨v, listed, isV⟩
        rw [List.mem_cons]
        exact or_iff_right fun here => isId (here ▸ isQ)
  | @fail now t tm pc listed isTm =>
      by_cases isId : t.id = first.id
      · let mid : State := { s with
          game := .idle
          inside := t :: s.inside
          history := .missed t :: s.history }
        have okMid : Dispatched mid.core :=
          ok.step (.call (by simp [State.core, pc, GamePc.taken]) (.inr rfl))
        have countedMid : Counted first mid :=
          counted.call ok pc isId listed isTm (by simp [Event.dispatch, isId])
        exact countedMid.finish okMid isRepeat notLoop rfl rfl isId now
      · exact counted.of_decided ok effects calm unchanged
          (b := { s with game := .idle, history := .missed t :: s.history }) isId rfl
          (by simp [dispatches, Event.dispatch, isId]) rfl (fun _ _ => .rfl) (by simp [pc]) rfl
  | @returns ret now t rest idle running =>
      by_cases isId : t.id = first.id
      · obtain rfl : ret = 0 := undisturbed t rest running isId
        exact counted.finish ok isRepeat notLoop idle running isId now
      · refine counted.of_decided ok effects calm unchanged (b := { s with inside := rest }) isId
          rfl rfl rfl (fun q isQ => ?_)
          (by simp [idle]) rfl
        rw [running, List.mem_cons]
        exact (or_iff_right fun here : q = t => isId (here ▸ isQ)).symm
  | recheck pc next | recheckLoop pc next | compare pc next =>
      exact counted.of_same ok effects calm unchanged rfl rfl rfl rfl fun _ => .rfl
  | _ => exact counted.of_same ok effects calm unchanged rfl rfl rfl rfl fun _ => .rfl

/-! ## Every run -/

theorem counted_of_insert (ok : Dispatched s.core) (ended : Ended s) (idle : s.game = .idle)
    (next : first.id = s.nums + 1) (positive : 0 < first.repeats.toNat) :
    Counted first (s.insert first) := by
  have only {u : Tm} (listed : u ∈ (s.insert first).timers) (same : u.id = first.id) :
      u = first := by
    rcases List.mem_cons.1 ((insert_perm _ _ _).mem_iff.1 listed) with isFirst | old
    · exact isFirst
    · have known : u.id ≤ s.nums := ok.known u old
      omega
  have fresh : dispatches first.id s.history = [] := by
    refine List.filterMap_eq_nil_iff.2 fun e member => ?_
    have known := ended.known e member
    have other : e.id ≠ first.id := by omega
    cases e with
    | executed t | missed t => exact if_neg other
    | _ => rfl
  have copies {q : Tm} (copy : q ∈ (s.insert first).core.copies) : q.id ≠ first.id := by
    have known := ok.old q (by
      simpa [Core.copies, State.core, State.insert, idle, GamePc.taken, State.waiting] using copy)
    have bound : q.id ≤ s.nums := known
    omega
  have count : OnCount first 0 first := ⟨rfl, rfl, rfl, positive, fun _ => by simp⟩
  refine ⟨Nat.le_refl _, rfl, fun _ _ _ pc => (by cases pc), fun later t before split => ?_,
    fun q copy isQ => absurd isQ (copies copy), fun _ _ u listed same => ?_,
    fun q member isQ => absurd isQ (copies ?_), fun t isRemove => (by cases isRemove),
    fun none => ?_⟩
  · have told : dispatches first.id s.history = later ++ t :: before := split
    rw [fresh] at told
    cases later <;> cases told
  · have told : (dispatches first.id (s.insert first).history).length = 0 :=
      congrArg List.length fresh
    rw [told, only listed same]
    exact count
  · simp [Core.copies, State.core, member]
  · exact absurd rfl (none first ((insert_perm _ _ _).mem_iff.2 List.mem_cons_self))

/-- What is told of the dispatches of a timer. -/
structure RunsOut (first : Tm) (s : State) : Prop where
  most : (dispatches first.id s.history).length ≤ first.repeats.toNat
  left : ∀ later t before, dispatches first.id s.history = later ++ t :: before →
    t.repeats.toNat + before.length = first.repeats.toNat
  time : first.flags &&& timerFlagRelative = 0 → ∀ later t before,
    dispatches first.id s.history = later ++ t :: before →
      t.time = first.time + before.length * (delayMs first.delaySec * 1000000)
  last : (dispatches first.id s.history).length = first.repeats.toNat →
    (∃ t ∈ s.inside, t.id = first.id) ∨ (∃ t, s.game = .remove t ∧ t.id = first.id) ∨
      ∀ u ∈ s.timers, u.id ≠ first.id
  early : (∀ u ∈ s.timers, u.id ≠ first.id) →
    (dispatches first.id s.history).length = first.repeats.toNat

theorem Counted.runsOut (counted : Counted first s) : RunsOut first s := by
  refine ⟨?_, fun later t before split => (counted.told later t before split).left,
    fun absolute later t before split => (counted.told later t before split).time absolute,
    fun all => ?_, fun none => (counted.gone none).1⟩
  · rcases told : dispatches first.id s.history with - | ⟨t, before⟩
    · exact Nat.zero_le _
    · have count := counted.told [] t before told
      have left := count.left
      have some := count.some
      rw [List.length_cons]
      omega
  · by_cases inside : ∃ q ∈ s.inside, q.id = first.id
    · exact .inl inside
    by_cases ending : ∃ t, s.game = .remove t ∧ t.id = first.id
    · exact .inr (.inl ending)
    refine .inr (.inr fun u listed same => ?_)
    have count := counted.resting (fun q member isQ => inside ⟨q, member, isQ⟩)
      (fun t pc isT => ending ⟨t, pc, isT⟩) u listed same
    have left := count.left
    have some := count.some
    rw [all] at left
    omega

/-- **A repeated timer** that is added with a count of `n`, and that nothing changes, removes or
stops before, is dispatched at most `n` times; the `k`-th dispatch has `n - k + 1` left and,
where the timer is not `RELATIVE`, a deadline of `k - 1` delays after the first; and after the
`n`-th, not before, it is removed. -/
theorem repeat_runs_out (s added s' : State) (memory : Tm) (amx : Nat) (fwdId : Int) (delaySec : Fp)
    (groupId : Nat) (flags repeats : UInt32) (now : Int) (run : machine.Reachable s)
    (accepted : fwdId ≠ -1)
    (adds : machine.step s (.addTimer memory amx fwdId delaySec groupId flags repeats now) =
      some added)
    (isRepeat : flags &&& timerFlagRepeat ≠ 0) (notLoop : flags &&& timerFlagLoop = 0)
    (positive : 1 ≤ repeats) (later : machine.Leads (Undisturbed (s.nums + 1)) added s') :
    RunsOut (s.newTimer memory amx fwdId delaySec groupId flags repeats now) s' := by
  have idle : s.game = .idle := by
    by_contra busy
    simp [machine, step, busy] at adds
  have ok := (dispatched_of_reachable run).1
  have inserted := added_of_step accepted adds
  refine Counted.runsOut (later.invariant (run.step trivial adds) ?_
    fun s a s' reached counted undisturbed moved => ?_)
  · rw [inserted]
    exact counted_of_insert ok (ended_of_reachable run) idle rfl (UInt32.le_iff_toNat_le.1 positive)
  · obtain ⟨ok, walked⟩ := dispatched_of_reachable reached
    exact counted.step ok walked isRepeat notLoop undisturbed (move_of_step moved)

/-- `Undisturbed`, to be tested where no native but `add_timer` is called. -/
def undisturbed (_ : State) : Action → Bool
  | .returns ret _ => ret == 0
  | .changeTimerById _ _ _ _ _ | .stopAll | .removeTimers _ _ | .removeTimerById _ _
  | .onClientDisconnected _ => false
  | _ => true

theorem undisturbed_sound (id : Nat) (s : State) (a : Action) (ok : undisturbed s a = true) :
    Undisturbed id s a := by
  cases a with
  | returns ret now => exact fun _ _ _ _ => beq_iff_eq.1 ok
  | work | addTimer | startFrame | go =>
      rintro p ⟨⟩
  | _ => cases ok

/-- A timer to be run twice, as it is added and as it is armed again. -/
def twice : Tm := ⟨1, 1, 7, 0, .fin false 1, 1000000000, timerFlagRepeat, 2, false⟩

def twiceAgain : Tm := { twice with time := 2000000000, repeats := 1 }

/-- The worker builds the queue anew, and hands a timer over. -/
def handsOver (t : Tm) : List Action :=
  [.work [] 0, .work [] 0, .work [] 0, .work [t] 0, .work [] 0, .work [] 0, .work [] 0, .work [] 0,
    .work [] t.time, .work [] 0, .work [] 0, .work [] 0, .work [] 0, .work [t] 0]

/-- The timer is dispatched, with and without room for its callback, armed again, and
dispatched once more. -/
def dispatchesTwice (allots : Bool) : List Action :=
  [.go true 0, .work [] 0] ++ handsOver twice ++ [.startFrame, .go allots 0] ++
    (if allots then [.returns 0 0] else []) ++
    [.go true 0, .work [] 0, .work [] 0, .work [] 0, .work [] 0] ++ handsOver twiceAgain ++
    [.startFrame, .go true 0]

theorem exists_twice {allots : Bool} {p : State → Bool}
    (ends : ((machine.step (.zero 32)
      (.addTimer .zero 1 7 (.fin false 1) 0 timerFlagRepeat 2 0)).bind
      fun added => (machine.execIf undisturbed added (dispatchesTwice allots)).map p) = some true) :
    ∃ added s', machine.step (.zero 32) (.addTimer .zero 1 7 (.fin false 1) 0 timerFlagRepeat 2 0) =
      some added ∧ machine.Leads (Undisturbed 1) added s' ∧ p s' = true := by
  obtain ⟨added, adds, ends⟩ := Option.bind_eq_some_iff.1 ends
  obtain ⟨s', later, holds⟩ := Option.map_eq_some_iff.1 ends
  exact ⟨added, s', adds, .of_execIf (undisturbed_sound 1) later, holds⟩

/-- A timer is dispatched for the second time, and its callback is running. -/
theorem repeat_runs_out_twice : ∃ s' : State,
    dispatches 1 s'.history = [twiceAgain, twice] ∧ RunsOut twice s' := by
  have ends : ((machine.step (.zero 32)
      (.addTimer .zero 1 7 (.fin false 1) 0 timerFlagRepeat 2 0)).bind fun added =>
        (machine.execIf undisturbed added (dispatchesTwice true)).map
          fun s' => dispatches 1 s'.history == [twiceAgain, twice]) = some true := by decide +kernel
  obtain ⟨added, s', adds, later, holds⟩ := exists_twice ends
  have isTwice :
      (State.zero 32).newTimer .zero 1 7 (.fin false 1) 0 timerFlagRepeat 2 0 = twice := by
    decide +kernel
  have runsOut := repeat_runs_out (.zero 32) added s' .zero 1 7 (.fin false 1) 0 timerFlagRepeat 2 0
    (.init ⟨32, rfl⟩) (by decide) adds (by decide) (by decide) (by decide) later
  exact ⟨s', beq_iff_eq.1 holds, isTwice ▸ runsOut⟩

/-- The copies of a timer that its callback was run for, latest first. -/
def runs (id : Nat) (history : List Event) : List Tm :=
  history.filterMap fun
    | .executed t => if t.id = id then some t else none
    | _ => none

/-- The first dispatch finds no room, and the first run has one left of two. -/
theorem not_always_runs : ¬ ∀ s added s' memory amx fwdId delaySec groupId flags repeats now,
    machine.Reachable s → fwdId ≠ -1 →
    machine.step s (.addTimer memory amx fwdId delaySec groupId flags repeats now) = some added →
    memory.executed = false → flags &&& timerFlagRepeat ≠ 0 → flags &&& timerFlagLoop = 0 →
    1 ≤ repeats → machine.Leads (Undisturbed (s.nums + 1)) added s' →
    ∀ later t before, runs (s.nums + 1) s'.history = later ++ t :: before →
      t.repeats.toNat + before.length = repeats.toNat := by
  intro always
  have ends : ((machine.step (.zero 32)
      (.addTimer .zero 1 7 (.fin false 1) 0 timerFlagRepeat 2 0)).bind fun added =>
        (machine.execIf undisturbed added (dispatchesTwice false)).map
          fun s' => runs 1 s'.history == [twiceAgain]) = some true := by decide +kernel
  obtain ⟨added, s', adds, later, holds⟩ := exists_twice ends
  have left := always (.zero 32) added s' .zero 1 7 (.fin false 1) 0 timerFlagRepeat 2 0
    (.init ⟨32, rfl⟩) (by decide) adds rfl (by decide) (by decide) (by decide) later []
    twiceAgain []
    (beq_iff_eq.1 holds)
  cases left

end Refsapi.Timers
