/-
# Timers.Armed -- whether an added timer is armed

`add_timer` fills in every field of its `tm_t` but `executed`, which stays what was in that
memory; and `build_queue` pushes the timers that are not executed (`built_iff`).
-/
import Refsapi.Timers.Writes

namespace Refsapi.Timers

set_option autoImplicit false

variable {s s' : State} {a : Action}

/-! ## One `build_queue` -/

/-- The worker moves on in `build_queue`. -/
def Building (s s' : State) : Prop :=
  (s.worker = .clear ∨ s.worker = .enter ∨ s.worker.toScan ≠ [] ∨ s.worker = .scan [] ∨
    s.worker = .reset) ∧ ∃ order now, step s (.work order now) = some s'

/-- How far a build that began in `b` has come. -/
structure Built (b s : State) : Prop where
  timers : s.timers = b.timers
  runs : s.stopTimer = b.stopTimer
  cleared : s.worker = .enter → s.queue = []
  reached : s.worker ≠ .clear → s.worker ≠ .enter → ∀ id, b.pushes id = true →
    id ∈ s.worker.toScan ∨ ∃ q ∈ s.queue, q.id = id
  pushed : s.worker ≠ .clear → ∀ q ∈ s.queue, b.pushes q.id = true
  found : ∀ id rest, s.worker = .push id rest → b.pushes id = true

theorem pushes_congr (timers : s'.timers = s.timers) (id : Nat) : s'.pushes id = s.pushes id := by
  simp [State.pushes, timers]

theorem Built.step {b : State} (runs : b.stopTimer = false) (built : Built b s)
    (building : Building s s') : Built b s' := by
  obtain ⟨within, order, now, moved⟩ := building
  have same (id : Nat) : s.pushes id = b.pushes id := pushes_congr built.timers id
  have move := move_of_step moved
  cases move with
  | stay => exact built
  | clear pc free =>
      exact ⟨built.timers, built.runs, fun _ => rfl, fun _ other => absurd rfl other,
        fun _ _ member => (nomatch member), fun _ _ pc => (nomatch pc)⟩
  | refused pc stopped =>
      rw [built.runs, runs] at stopped
      cases stopped
  | enter pc free runs =>
      refine ⟨built.timers, built.runs, fun pc => (nomatch pc), fun _ _ id pushes => .inl ?_,
        fun _ q member => ?_, fun _ _ pc => (nomatch pc)⟩
      · obtain ⟨t, listed, isId, -⟩ := pushes_iff.1 ((same id).trans pushes)
        exact isId ▸ List.mem_map_of_mem listed
      · rw [built.cleared pc] at member
        cases member
  | scanned pc | reset pc =>
      refine ⟨built.timers, built.runs, fun pc => (nomatch pc), fun _ _ id pushes => .inr ?_,
        fun _ => built.pushed (by simp [pc]), fun _ _ pc => (nomatch pc)⟩
      rcases built.reached (by simp [pc]) (by simp [pc]) id pushes with scanned | reached
      · rw [pc] at scanned
        cases scanned
      · exact reached
  | finds pc pushes =>
      refine ⟨built.timers, built.runs, fun pc => (nomatch pc), fun _ _ id pushes => ?_,
        fun _ => built.pushed (by simp [pc]), fun id rest here => ?_⟩
      · have reached := built.reached (by simp [pc]) (by simp [pc]) id pushes
        rwa [pc] at reached
      · cases here
        exact (same _).symm.trans pushes
  | @skips _ _ id rest pc skipped =>
      refine ⟨built.timers, built.runs, fun pc => (nomatch pc), fun _ _ other pushes => ?_,
        fun _ => built.pushed (by simp [pc]), fun _ _ pc => (nomatch pc)⟩
      have reached := built.reached (by simp [pc]) (by simp [pc]) other pushes
      rw [pc] at reached
      refine reached.imp_left fun scanned => ?_
      rcases List.mem_cons.1 scanned with rfl | later
      · rw [same, pushes] at skipped
        cases skipped
      · exact later
  | @push _ _ id rest t pc free listed isId pushed =>
      refine ⟨built.timers, built.runs, fun pc => (nomatch pc), fun _ _ other pushes => ?_,
        fun _ q member => ?_, fun _ _ pc => (nomatch pc)⟩
      · have reached := built.reached (by simp [pc]) (by simp [pc]) other pushes
        rw [pc] at reached
        rcases reached with scanned | ⟨q, old, isOther⟩
        · rcases List.mem_cons.1 scanned with rfl | later
          · exact .inr ⟨t, pushed.1.mem_iff.2 List.mem_cons_self, isId⟩
          · exact .inl later
        · exact .inr ⟨q, pushed.1.mem_iff.2 (List.mem_cons_of_mem _ old), isOther⟩
      · rcases List.mem_cons.1 (pushed.1.mem_iff.1 member) with rfl | old
        · exact isId ▸ built.found id rest pc
        · exact built.pushed (by simp [pc]) q old
  | erase idle erases free after => cases erases
  | start pc | empty pc | more pc nonempty | top pc first | compare pc next | wait pc | check pc
  | checkLoop pc | lockFrame pc | found pc | gone pc none | mark pc pushed | pop pc first
  | recheck pc next | recheckLoop pc next | wake pc => simp [pc, WorkerPc.toScan] at within
  | breaks pc =>
      exfalso
      rcases pc with ⟨pc, -⟩ | ⟨pc, -⟩ <;> simp [pc, WorkerPc.toScan] at within

theorem built_of_build {b e : State} (build : Relation.ReflTransGen Building b e)
    (starts : b.worker = .clear) (runs : b.stopTimer = false) : Built b e := by
  induction build with
  | refl =>
      refine ⟨rfl, rfl, fun pc => ?_, fun other => absurd starts other,
        fun other => absurd starts other, fun _ _ pc => ?_⟩
      · rw [starts] at pc
        cases pc
      · rw [starts] at pc
        cases pc
  | tail _ moved built => exact built.step runs moved

/-- **A build pushes the timers that are not executed**, and no others. -/
theorem built_iff {b e : State} (build : Relation.ReflTransGen Building b e)
    (starts : b.worker = .clear) (runs : b.stopTimer = false) (ends : e.worker = .size) (id : Nat) :
    (∃ q ∈ e.queue, q.id = id) ↔ ∃ t ∈ b.timers, t.id = id ∧ t.executed = false := by
  have built := built_of_build build starts runs
  rw [← pushes_iff]
  constructor
  · rintro ⟨q, member, rfl⟩
    exact built.pushed (by simp [ends]) q member
  · intro pushes
    rcases built.reached (by simp [ends]) (by simp [ends]) id pushes with scanned | reached
    · rw [ends] at scanned
      cases scanned
    · exact reached

/-! ## An added timer -/

/-- The timer with an id is armed, and a build that follows pushes it. -/
def State.Arms (s : State) (id : Nat) : Prop :=
  (∃ t ∈ s.timers, t.id = id ∧ t.executed = false) ∧
    ∀ b e, b.timers = s.timers → b.worker = .clear → b.stopTimer = false →
      Relation.ReflTransGen Building b e → e.worker = .size → ∃ q ∈ e.queue, q.id = id

theorem arms_iff {id : Nat} : s.Arms id ↔ ∃ t ∈ s.timers, t.id = id ∧ t.executed = false :=
  ⟨And.left, fun armed => ⟨armed, fun _ _ timers starts runs build ends =>
    (built_iff build starts runs ends id).2 (timers ▸ armed)⟩⟩

variable {amx groupId : Nat} {fwdId : Int} {delaySec : Fp} {flags repeats : UInt32} {now : Int}

theorem added_of_step {memory : Tm} (accepted : fwdId ≠ -1)
    (moved : step s (.addTimer memory amx fwdId delaySec groupId flags repeats now) = some s') :
    s' = s.insert (s.newTimer memory amx fwdId delaySec groupId flags repeats now) := by
  simp only [step, accepted, if_false] at moved
  split at moved
  · cases moved
  split at moved
  · cases moved
  · exact (Option.some.inj moved).symm

/-- Two records that differ in `executed` alone. -/
theorem newTimer_eq_iff {memory other : Tm} :
    s.newTimer memory amx fwdId delaySec groupId flags repeats now =
        s.newTimer other amx fwdId delaySec groupId flags repeats now ↔
      memory.executed = other.executed := by
  simp [State.newTimer]

theorem insert_inj {t u : Tm} (new : ∀ v ∈ s.timers, v.id ≠ t.id)
    (equal : s.insert t = s.insert u) : t = u := by
  have member : t ∈ (s.insert u).timers := by
    rw [← equal]
    exact (insert_perm _ _ _).mem_iff.2 List.mem_cons_self
  rcases List.mem_cons.1 ((insert_perm _ _ _).mem_iff.1 member) with isU | old
  · exact isU
  · exact absurd rfl (new t old)

/-- **An added timer is armed if and only if the memory of its record was**, and of that memory
only this much matters. -/
theorem armed_iff (s s' : State) (memory : Tm) (amx : Nat) (fwdId : Int) (delaySec : Fp)
    (groupId : Nat) (flags repeats : UInt32) (now : Int) (run : machine.Reachable s)
    (accepted : fwdId ≠ -1)
    (moved : step s (.addTimer memory amx fwdId delaySec groupId flags repeats now) = some s') :
    (s'.Arms (s.nums + 1) ↔ memory.executed = false) ∧
      ∀ other s'', step s (.addTimer other amx fwdId delaySec groupId flags repeats now) =
        some s'' →
        (s' = s'' ↔ memory.executed = other.executed) := by
  have ok := (dispatched_of_reachable run).1
  have new (t : Tm) (listed : t ∈ s.timers) : t.id ≠ s.nums + 1 :=
    Nat.ne_of_lt (Nat.lt_succ_of_le (ok.known t listed))
  refine ⟨?_, fun other s'' moved' => ?_⟩
  · rw [arms_iff, added_of_step accepted moved]
    constructor
    · rintro ⟨t, listed, isNew, waits⟩
      rcases List.mem_cons.1 ((insert_perm _ _ _).mem_iff.1 listed) with rfl | old
      · exact waits
      · exact absurd isNew (new t old)
    · exact fun clear => ⟨_, (insert_perm _ _ _).mem_iff.2 List.mem_cons_self, rfl, clear⟩
  · rw [added_of_step accepted moved, added_of_step accepted moved']
    refine Iff.trans ⟨insert_inj new, fun equal => congrArg s.insert equal⟩ newTimer_eq_iff

/-- A timer is added in cleared memory. -/
theorem armed_iff_cleared :
    (((State.zero 32).insert ((State.zero 32).newTimer .zero 1 7 (.fin false 1) 0 1 0 0)).Arms 1 ↔
        Tm.zero.executed = false) ∧
      ∀ other s'', step (.zero 32) (.addTimer other 1 7 (.fin false 1) 0 1 0 0) = some s'' →
        ((State.zero 32).insert ((State.zero 32).newTimer .zero 1 7 (.fin false 1) 0 1 0 0) = s'' ↔
          Tm.zero.executed = other.executed) :=
  armed_iff (.zero 32) _ .zero 1 7 (.fin false 1) 0 1 0 0 (.init ⟨32, rfl⟩) (by decide) rfl

/-- The memory held a record that was executed. -/
theorem not_always_armed : ¬ ∀ s memory s', machine.Reachable s →
    step s (.addTimer memory 1 7 (.fin false 1) 0 1 0 0) = some s' → s'.Arms (s.nums + 1) := by
  intro always
  have start : machine.Reachable (.zero 32) := .init ⟨32, rfl⟩
  have armed := always (.zero 32) { Tm.zero with executed := true } _ start rfl
  have clear := (armed_iff (.zero 32) _ { Tm.zero with executed := true } 1 7 (.fin false 1) 0 1 0 0
    start (by decide) rfl).1.1 armed
  cases clear

end Refsapi.Timers
