/-
# Timers.Handle -- what the handle of a timer is good for

`add_timer` returns the id of the new timer as a `bool`, so that every plugin gets 1 for
every timer (`handle_eq`), and only the first timer of the server is meant by that.

`remove_timer_by_id` goes on from the node that it has erased.  `removeScan` is the walk
node by node; it is defined only where there is nothing to remove (`removeScan_iff`), so no
handle is good for that (`never_identifies`).
-/
import Refsapi.Lib.Nodes
import Refsapi.Timers.Queries

namespace Refsapi.Timers

set_option autoImplicit false

variable {s : State}

/-! ## The natives -/

/-- What `add_timer` returns for the timer that it has inserted: a `bool`, in a cell. -/
def handle (t : Tm) : Nat := (decide (t.id ≠ 0)).toNat

/-- The lists of a plugin, group by group.  The node of a timer is where its id says. -/
def State.lists (s : State) (amx : Nat) : List (Nodes Tm) :=
  (s.groups.filter fun key => key.1 == amx).map fun key =>
    (s.timers.filter fun t => t.amx == key.1 && t.groupId == key.2).map fun t => (t.id, t)

/-- The body of the loop over a list in `remove_timer_by_id`. -/
def removeBody (id : Nat) (it : Nat) (t : Tm) (s : Nodes Tm × Bool) : Nodes Tm × Bool :=
  if t.id = id then (s.1.erase it, true) else s

/-- The loop over the groups. -/
def removeLoop (fuel id : Nat) : List (Nodes Tm) → Bool → Option (List (Nodes Tm) × Bool)
  | [], result => some ([], result)
  | tm :: rest, result => do
      let out ← Nodes.walk (removeBody id) fuel (tm, result) tm.first
      let after ← removeLoop fuel id rest out.2
      some (out.1 :: after.1, after.2)

/-- `remove_timer_by_id` up to its signal: the lists it leaves, and what it returns. -/
def State.removeScan (s : State) (fuel amx id : Nat) : Option (List (Nodes Tm) × Bool) :=
  removeLoop fuel id (s.lists amx) false

/-! ## The walk -/

theorem removeBody_erases (id : Nat) : Nodes.Erases (removeBody id) := by
  intro it t s
  unfold removeBody
  split
  · exact .inr rfl
  · exact .inl rfl

theorem removeBody_false_iff {id it : Nat} {t : Tm} {tm : Nodes Tm} :
    removeBody id it t (tm, false) = (tm, false) ↔ t.id ≠ id := by
  unfold removeBody
  split
  · next same => simp [same]
  · next other => simp [other]

theorem removeLoop_unchanged {fuel id : Nat} {lists : List (Nodes Tm)} {result : Bool}
    {out : List (Nodes Tm) × Bool} (ends : removeLoop fuel id lists result = some out) :
    out = (lists, result) := by
  induction lists generalizing out with
  | nil => exact (Option.some.inj ends).symm
  | cons tm rest ih =>
      simp only [removeLoop, bind, Option.bind_eq_some_iff, Option.some.injEq] at ends
      obtain ⟨walked, walks, after, loops, rfl⟩ := ends
      obtain rfl := Nodes.walk_unchanged (removeBody_erases id) walks
      obtain rfl := ih loops
      rfl

theorem removeLoop_eq_some_iff {fuel id : Nat} {lists : List (Nodes Tm)}
    {out : List (Nodes Tm) × Bool} (enough : ∀ tm ∈ lists, tm.length ≤ fuel)
    (distinct : ∀ tm ∈ lists, (tm.map Prod.fst).Nodup) :
    removeLoop fuel id lists false = some out ↔
      out = (lists, false) ∧ ∀ tm ∈ lists, ∀ e ∈ tm, e.2.id ≠ id := by
  induction lists generalizing out with
  | nil => simp [removeLoop, eq_comm]
  | cons tm rest ih =>
      have walk (walked : Nodes Tm × Bool) :
          Nodes.walk (removeBody id) fuel (tm, false) tm.first = some walked ↔
            walked = (tm, false) ∧ ∀ e ∈ tm, e.2.id ≠ id := by
        rw [Nodes.walk_eq_some_iff (removeBody_erases id) (enough tm List.mem_cons_self)
          (distinct tm List.mem_cons_self)]
        simp only [removeBody_false_iff]
      have loop (out : List (Nodes Tm) × Bool) : removeLoop fuel id rest false = some out ↔
          out = (rest, false) ∧ ∀ tm ∈ rest, ∀ e ∈ tm, e.2.id ≠ id :=
        ih (fun tm member => enough tm (List.mem_cons_of_mem _ member))
          fun tm member => distinct tm (List.mem_cons_of_mem _ member)
      simp only [removeLoop, bind, Option.bind_eq_some_iff, Option.some.injEq, walk,
        List.forall_mem_cons]
      constructor
      · rintro ⟨_, ⟨rfl, here⟩, after, loops, rfl⟩
        obtain ⟨rfl, there⟩ := (loop _).1 loops
        exact ⟨rfl, here, there⟩
      · rintro ⟨rfl, here, there⟩
        exact ⟨_, ⟨rfl, here⟩, _, (loop _).2 ⟨rfl, there⟩, rfl⟩

theorem mem_lists {amx : Nat} {tm : Nodes Tm} : tm ∈ s.lists amx ↔ ∃ groupId,
    (amx, groupId) ∈ s.groups ∧
      tm = (s.timers.filter fun t => t.amx == amx && t.groupId == groupId).map
        fun t => (t.id, t) := by
  simp only [State.lists, List.mem_map, List.mem_filter, beq_iff_eq, Prod.exists]
  constructor
  · rintro ⟨_, groupId, ⟨known, rfl⟩, rfl⟩
    exact ⟨groupId, known, rfl⟩
  · rintro ⟨groupId, known, rfl⟩
    exact ⟨amx, groupId, ⟨known, rfl⟩, rfl⟩

/-- **The walk of `remove_timer_by_id`.**  It comes to its end where the plugin has no timer
under the id, and then only. -/
theorem removeScan_iff (run : machine.Reachable s) {fuel amx id : Nat}
    (enough : s.timers.length ≤ fuel) {out : List (Nodes Tm) × Bool} :
    s.removeScan fuel amx id = some out ↔
      out = (s.lists amx, false) ∧ ∀ t ∈ s.timers, t.amx = amx → t.id ≠ id := by
  have ids := (dispatched_of_reachable run).1.ids
  have keyed := keyed_of_reachable run
  rw [State.removeScan, removeLoop_eq_some_iff]
  · refine and_congr_right fun _ => ⟨fun none t listed isAmx => ?_, fun none tm member => ?_⟩
    · subst isAmx
      refine none _ (mem_lists.2 ⟨t.groupId, keyed t listed, rfl⟩) (t.id, t) ?_
      exact List.mem_map_of_mem (List.mem_filter.2 ⟨listed, by simp⟩)
    · obtain ⟨groupId, -, rfl⟩ := mem_lists.1 member
      intro e member
      obtain ⟨t, found, rfl⟩ := List.mem_map.1 member
      obtain ⟨listed, keys⟩ := List.mem_filter.1 found
      exact none t listed (beq_iff_eq.1 (Bool.and_eq_true_iff.1 keys).1)
  · intro tm member
    obtain ⟨groupId, -, rfl⟩ := mem_lists.1 member
    rw [List.length_map]
    exact (List.length_filter_le _ _).trans enough
  · intro tm member
    obtain ⟨groupId, -, rfl⟩ := mem_lists.1 member
    rw [List.map_map]
    exact ids.sublist (List.filter_sublist.map _)

/-! ## The handle -/

/-- What a plugin may do with a handle that identifies a timer of its own. -/
structure Identifies (s : State) (handle : Nat) (t : Tm) : Prop where
  /-- `timer_exists_by_id` gives true -/
  exists' : s.timerExistsById t.amx handle = true
  /-- `remove_timer_by_id` ends, returns true and removes the timer and no other -/
  removes : ∃ fuel, s.removeScan fuel t.amx handle =
    some ((s.lists t.amx).map fun tm => tm.erase t.id, true)

/-- **The handle never identifies the timer.**  In every state, the one in which `add_timer`
returns and all that come later, `remove_timer_by_id` does not return true. -/
theorem never_identifies (s : State) (t : Tm) : ¬ Identifies s (handle t) t := by
  rintro ⟨-, fuel, ends⟩
  cases congrArg Prod.snd (removeLoop_unchanged ends)

theorem keyed_insert (keyed : s.Keyed) (t : Tm) : (s.insert t).Keyed := by
  intro u listed
  rcases List.mem_cons.1 ((insert_perm _ _ _).mem_iff.1 listed) with rfl | old
  · simp only [State.insert]
    split
    · next present => exact List.contains_iff_mem.1 present
    · exact List.mem_append_right _ (List.mem_singleton.2 rfl)
  · simp only [State.insert]
    split
    · exact keyed u old
    · exact List.mem_append_left _ (keyed u old)

theorem mem_insert {t u : Tm} : u ∈ (s.insert t).timers ↔ u = t ∨ u ∈ s.timers := by
  rw [State.insert, (insert_perm _ _ _).mem_iff, List.mem_cons]

section Insert

variable {memory : Tm} {amx : Nat} {fwdId : Int} {delaySec : Fp} {groupId : Nat}
  {flags repeats : UInt32} {now : Int} {t : Tm}
  (new : t = s.newTimer memory amx fwdId delaySec groupId flags repeats now)
include new

/-- The handle of every timer is that of the first one. -/
theorem handle_eq : handle t = 1 := by
  subst new
  simp [handle, State.newTimer]

/-- `timer_exists_by_id` of the handle tells of the first timer of the server. -/
theorem timerExistsById_handle_iff (run : machine.Reachable s) :
    (s.insert t).timerExistsById amx (handle t) = true ↔
      s.nums = 0 ∨ ∃ u ∈ s.timers, u.amx = amx ∧ u.id = 1 := by
  have isAmx : t.amx = amx := new ▸ rfl
  have isId : t.id = s.nums + 1 := new ▸ rfl
  rw [timerExistsById_iff (keyed_insert (keyed_of_reachable run) t), handle_eq new]
  simp only [mem_insert, or_and_right, exists_or, exists_eq_left, isAmx, isId, true_and,
    Nat.add_eq_right]

/-- Also a removal that came to its end would take the new timer and no other where it is the
first, and then only. -/
theorem removeTimerById_handle_iff (run : machine.Reachable s) :
    ((s.insert t).removeTimerById amx (handle t)).1.timers =
        (s.insert t).timers.filter (fun u => !(u.id == t.id)) ↔ s.nums = 0 := by
  have isAmx : t.amx = amx := new ▸ rfl
  have isId : t.id = s.nums + 1 := new ▸ rfl
  have listed : t ∈ (s.insert t).timers := mem_insert.2 (.inl rfl)
  have known : (s.insert t).groups.any (fun key => key.1 == amx) = true :=
    List.any_eq_true.2 ⟨_, keyed_insert (keyed_of_reachable run) t t listed, beq_iff_eq.2 isAmx⟩
  rw [handle_eq new, State.removeTimerById, if_pos known]
  change (s.insert t).timers.filter (fun u => !(u.amx == amx && u.id == 1)) = _ ↔ _
  constructor
  · intro same
    by_contra later
    -- the new timer is not the one that is removed
    have stays : t ∈ (s.insert t).timers.filter fun u => !(u.amx == amx && u.id == 1) :=
      List.mem_filter.2 ⟨listed, by simp [isId, later]⟩
    rw [same] at stays
    simpa using (List.mem_filter.1 stays).2
  · intro first
    refine List.filter_congr fun u member => ?_
    rcases mem_insert.1 member with rfl | old
    · simp [isAmx, isId, first]
    · have bound : u.id ≤ s.nums := (dispatched_of_reachable run).1.known u old
      have other : u.id ≠ 1 := by omega
      simp [isId, first, other]

end Insert

/-! ## A run -/

/-- Two plugins add a timer each. -/
def addTwo : List Action :=
  [.addTimer .zero 1 7 (.fin false 1) 7 1 0 0, .go true 0,
    .addTimer .zero 2 7 (.fin false 1) 7 1 0 0]

/-- The second plugin is told of no timer under its handle. -/
theorem not_always_identifies : ¬ ∀ s, machine.Reachable s → ∀ t ∈ s.timers,
    Identifies s (handle t) t := by
  intro always
  have ends : (machine.exec (.zero 32) addTwo).map (fun s => s.timers.any fun t =>
      t.amx == 2 && !s.timerExistsById t.amx (handle t)) = some true := by decide +kernel
  obtain ⟨s, run, holds⟩ := Machine.exists_reachable (M := machine) ⟨32, rfl⟩ ends
  obtain ⟨t, listed, facts⟩ := List.any_eq_true.1 holds
  have found := (always s run t listed).exists'
  simp [found] at facts

end Refsapi.Timers
