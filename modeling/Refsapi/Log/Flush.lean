/-
# Log.Flush -- what `close_all` has flushed when it returns

`close_all` calls `write_to_disk` once and does not look at what it returns.  With as many
writers as there may be and no productivity left the lines stay in the buffer, and go to the
files of the next map, if they go anywhere.  Then it waits, and Log.Shutdown says for whom.

The history of a run has the lines that were accepted and the batches that were handed to
writers: what is accepted is in the batches or in the buffer, in order (`Booked`).
`closeAll_flushes` says that every run flushes whose calls of `close_all` are not refused and
whose waits see the writers that run.
-/
import Refsapi.Log.HandOver

namespace Refsapi.Log

set_option autoImplicit false

variable {s s' : State} {a : Action}

/-! ## The history of a run -/

structure Books where
  accepted : List Record
  /-- the writers, with what each has been handed -/
  handed : List (Nat × List Record)

namespace Books

/-- The lines that writers have been handed. -/
def lines (books : Books) : List Record := (books.handed.map Prod.snd).flatten

/-- The books after a step. -/
def keep (books : Books) (s s' : State) : Books where
  accepted :=
    if s'.mSequence = s.mSequence then books.accepted
    else books.accepted ++ s'.buffer.getLast?.toList
  handed :=
    if s'.started = s.started then books.handed
    else books.handed ++ [(s'.started, (s'.writers s'.started).buff)]

end Books

def booksMachine : Machine (State × Books) Action := machine.recorded ⟨[], []⟩ Books.keep

/-- Each line that was accepted is in the batch of one writer, or waits in the buffer. -/
structure Booked (s : State) (books : Books) : Prop where
  accepted : books.accepted = books.lines ++ s.buffer
  writers : books.handed.map Prod.fst = List.range' 1 s.started

/-! ## What should hold -/

/-- Nothing waits, and every line that was accepted is with a writer that has finished. -/
structure Flushed (s : State) (books : Books) : Prop where
  buffer : s.buffer = []
  accepted : books.accepted = books.lines
  finished : ∀ batch ∈ books.handed, (s.writers batch.1).pc = .done

/-- `close_all` is not refused: the buffer is empty, or a writer may be added, or there is
productivity left; and a turn of its wait sees the writers that run. -/
def Flushes (s : State) : Action → Prop
  | .closeAll => s.buffer = [] ∨ s.getNumThreads < s.maxWriterThreads ∨ 0 < s.numProductivity
  | a => Sees s a

variable {books : Books}

/-! ## Steps that hand nothing over -/

/-- Nothing is accepted and nothing is handed over; the game thread does not begin to close. -/
structure Held (s s' : State) : Prop where
  buffer : s'.buffer = s.buffer
  mSequence : s'.mSequence = s.mSequence
  started : s'.started = s.started
  busy : s'.game ≠ .idle → s.game ≠ .idle

theorem Booked.of_held (booked : Booked s books) (held : Held s s') :
    Booked s' (books.keep s s') := by
  have same : books.keep s s' = books := by
    simp [Books.keep, held.mSequence, held.started]
  rw [same]
  exact ⟨held.buffer ▸ booked.accepted, held.started ▸ booked.writers⟩

/-- **What a step does with the lines.** -/
theorem step_cases (moved : step s a = some s') :
    Held s s' ∨
    (∃ amx time, a = .writeFile amx time ∧ s.game = .idle ∧ s' = s.writeFile amx time) ∨
    (a = .flush ∧ s.game = .idle ∧ s' = s.writeToDisk.1) ∨
    (a = .closeAll ∧ s' = { s.writeToDisk.1 with game := .wait }) := by
  have quiet {id : Nat} (writer : WriterMove id a) : Held s s' := by
    have aside := aside_of_writerMove writer moved
    have quiet := quiet_of_writerMove writer moved
    exact ⟨aside.buffer, aside.mSequence, quiet.started, fun busy => quiet.game ▸ busy⟩
  cases a with
  | sort id order => exact .inl (quiet .sort)
  | getFile id fileExists config => exact .inl (quiet .getFile)
  | createFile id opens => exact .inl (quiet .createFile)
  | lock id => exact .inl (quiet .lock)
  | write id => exact .inl (quiet .write)
  | unlock id => exact .inl (quiet .unlock)
  | writeFile amx time =>
      simp only [step] at moved
      split at moved
      · next idle =>
          simp only [Bool.and_eq_true, beq_iff_eq] at idle
          cases moved
          split
          · exact .inl ⟨rfl, rfl, rfl, id⟩
          · exact .inr (.inl ⟨amx, time, rfl, idle.1, rfl⟩)
      · cases moved
  | flush =>
      simp only [step] at moved
      split at moved
      · next idle =>
          simp only [Bool.and_eq_true, beq_iff_eq] at idle
          cases moved
          exact .inr (.inr (.inl ⟨rfl, idle.1, rfl⟩))
      · cases moved
  | closeAll =>
      simp only [step] at moved
      split at moved
      · cases moved
        exact .inr (.inr (.inr ⟨rfl, rfl⟩))
      · cases moved
  | reap =>
      simp only [step, State.reap] at moved
      split at moved
      · cases moved
        exact .inl ⟨rfl, rfl, rfl, id⟩
      · split at moved <;> cases moved <;> exact .inl ⟨rfl, rfl, rfl, id⟩
      · cases moved
        exact .inl ⟨rfl, rfl, rfl, id⟩
      · cases moved
        exact .inl ⟨rfl, rfl, rfl, id⟩
  | loadFirst threads =>
      simp only [step, State.loadFirst] at moved
      split at moved
      · next game =>
          cases moved
          refine .inl ⟨rfl, rfl, rfl, fun _ idle => ?_⟩
          rw [game] at idle
          cases idle
      · cases moved
  | loadSecond =>
      simp only [step, State.loadSecond] at moved
      obtain ⟨num, isNum, rfl⟩ := Option.map_eq_some_iff.1 moved
      refine .inl ⟨rfl, rfl, rfl, fun _ idle => ?_⟩
      simp [State.loadedNum, idle] at isNum
  | closeFiles =>
      simp only [step] at moved
      split at moved
      · cases moved
        exact .inl ⟨rfl, rfl, rfl, fun busy => absurd rfl busy⟩
      · cases moved
  | finish id =>
      simp only [step, State.finish] at moved
      split at moved
      · cases moved
        exact .inl ⟨rfl, rfl, rfl, fun busy => busy⟩
      · cases moved

/-! ## Steps that hand a batch over -/

/-- The buffer becomes the batch of a new writer. -/
theorem Booked.spawn (booked : Booked s books) (n : Nat) :
    Booked (State.spawn { s with numProductivity := n })
      (books.keep s (State.spawn { s with numProductivity := n })) := by
  have handed : books.keep s (State.spawn { s with numProductivity := n }) =
      ⟨books.accepted, books.handed ++ [(s.started + 1, s.buffer)]⟩ := by
    simp [Books.keep, State.spawn, State.setWriter]
  rw [handed]
  refine ⟨?_, ?_⟩
  · show books.accepted = (Books.lines ⟨_, _⟩) ++ []
    rw [booked.accepted]
    simp [Books.lines]
  · show (books.handed ++ [(s.started + 1, s.buffer)]).map Prod.fst = List.range' 1 (s.started + 1)
    rw [List.map_append, booked.writers, List.range'_concat]
    simp [Nat.add_comm]

theorem Booked.writeToDisk (booked : Booked s books) :
    Booked s.writeToDisk.1 (books.keep s s.writeToDisk.1) := by
  have same : Booked s (books.keep s s) := booked.of_held ⟨rfl, rfl, rfl, id⟩
  rw [writeToDisk_eq]
  split
  · exact same
  · cases adjusts : s.adjust with
    | none => exact same
    | some t =>
        obtain ⟨n, rfl⟩ := adjust_eq adjusts
        exact booked.spawn n

theorem writeToDisk_mSequence (s : State) : s.writeToDisk.1.mSequence = s.mSequence := by
  rw [writeToDisk_eq]
  split
  · rfl
  · cases adjusts : s.adjust with
    | none => rfl
    | some t =>
        obtain ⟨n, rfl⟩ := adjust_eq adjusts
        rfl

/-- A line is accepted, after what `write_to_disk` may have done. -/
theorem Booked.push {t : State} (booked : Booked t (books.keep s t))
    (same : t.mSequence = s.mSequence) (r : Record) :
    let pushed : State := { t with buffer := t.buffer ++ [r], mSequence := t.mSequence + 1 }
    Booked pushed (books.keep s pushed) := by
  intro pushed
  have accepted : (books.keep s pushed).accepted = (books.keep s t).accepted ++ [r] := by
    simp [Books.keep, pushed, same]
  refine ⟨?_, booked.writers⟩
  rw [accepted, booked.accepted, List.append_assoc]
  rfl

theorem Booked.writeFile (booked : Booked s books) (amx : Nat) (time : Int) :
    Booked (s.writeFile amx time) (books.keep s (s.writeFile amx time)) := by
  have same : Booked s (books.keep s s) := booked.of_held ⟨rfl, rfl, rfl, id⟩
  unfold State.writeFile
  simp only
  split
  · split
    · exact booked.writeToDisk.push (writeToDisk_mSequence s) _
    · exact booked.writeToDisk
  · exact same.push rfl _

theorem Booked.step (booked : Booked s books) (moved : step s a = some s') :
    Booked s' (books.keep s s') := by
  rcases step_cases moved with held | ⟨amx, time, rfl, -, rfl⟩ | ⟨rfl, -, rfl⟩ | ⟨rfl, rfl⟩
  · exact booked.of_held held
  · exact booked.writeFile amx time
  · exact booked.writeToDisk
  · exact ⟨booked.writeToDisk.accepted, booked.writeToDisk.writers⟩

theorem booked_of_reachable {x : State × Books} (run : booksMachine.Reachable x) :
    Booked x.1 x.2 := by
  refine Machine.Reaches.invariant (I := fun x => Booked x.1 x.2) ?_
    (fun x a x' _ booked _ moved => ?_) run
  · rintro ⟨_, _⟩ ⟨⟨maxWriterThreads, batchSize, rfl⟩, rfl⟩
    exact ⟨rfl, rfl⟩
  · obtain ⟨moved, isKept⟩ := Machine.recorded_step moved
    rw [isKept]
    exact booked.step moved

/-! ## The end of `close_all` -/

theorem adjust_eq_none :
    s.adjust = none ↔ s.maxWriterThreads ≤ s.getNumThreads ∧ s.numProductivity = 0 := by
  unfold State.adjust
  by_cases busy : s.getNumThreads ≥ s.maxWriterThreads
  · by_cases left : s.numProductivity > 0
    · simp only [if_pos busy, if_pos left, reduceCtorEq, false_iff, not_and]
      omega
    · simp only [if_pos busy, if_neg left, true_iff]
      omega
  · simp only [if_neg busy]
    split
    · simp only [reduceCtorEq, false_iff, not_and]
      omega
    · simp only [reduceCtorEq, false_iff, not_and]
      omega

/-- The buffer is empty after `write_to_disk` unless that refuses. -/
theorem writeToDisk_empties : s.writeToDisk.1.buffer = [] ↔ Flushes s .closeAll := by
  rw [writeToDisk_eq]
  split
  · next empty =>
      have empty : s.buffer = [] := List.isEmpty_iff.1 empty
      exact iff_of_true empty (.inl empty)
  · next notEmpty =>
      have notEmpty : s.buffer ≠ [] := fun empty => notEmpty (List.isEmpty_iff.2 empty)
      cases adjusts : s.adjust with
      | none =>
          obtain ⟨busy, spent⟩ := adjust_eq_none.1 adjusts
          refine iff_of_false notEmpty ?_
          rintro (empty | free | left)
          · exact notEmpty empty
          · omega
          · omega
      | some t =>
          have accepts : ¬ (s.maxWriterThreads ≤ s.getNumThreads ∧ s.numProductivity = 0) :=
            fun refuses => Option.some_ne_none t (adjusts.symm.trans (adjust_eq_none.2 refuses))
          refine iff_of_true rfl (.inr ?_)
          omega

/-- Where no writer runs, all of them have finished. -/
theorem Counted.all_done (counted : Counted s) (none : s.running = 0) (id : Nat) :
    (s.writers id).pc = .done := by
  by_contra busy
  obtain ⟨low, high⟩ := counted.inside id busy
  have runs : 0 < s.running := slots_pos low high (by simpa using busy)
  omega

theorem flushed_iff (counted : Counted s) (booked : Booked s books) :
    Flushed s books ↔ s.buffer = [] ∧ s.running = 0 := by
  constructor
  · intro flushed
    refine ⟨flushed.buffer, slots_eq_zero fun id low high => ?_⟩
    have member : id ∈ books.handed.map Prod.fst := by
      rw [booked.writers, List.mem_range'_1]
      omega
    obtain ⟨batch, isHanded, rfl⟩ := List.mem_map.1 member
    simp [flushed.finished batch isHanded]
  · rintro ⟨empty, none⟩
    refine ⟨empty, ?_, fun batch _ => counted.all_done none batch.1⟩
    rw [booked.accepted, empty, List.append_nil]

/-- The buffer stays empty while `close_all` waits. -/
theorem emptied_step (emptied : s.game ≠ .idle → s.buffer = []) (flushes : Flushes s a)
    (moved : step s a = some s') : s'.game ≠ .idle → s'.buffer = [] := by
  intro busy
  rcases step_cases moved with held | ⟨amx, time, rfl, idle, rfl⟩ | ⟨rfl, idle, rfl⟩ | ⟨rfl, rfl⟩
  · rw [held.buffer]
    exact emptied (held.busy busy)
  · exact absurd ((writeFile_game s amx time).trans idle) busy
  · exact absurd ((writeToDisk_game s).trans idle) busy
  · exact writeToDisk_empties.2 flushes

theorem sees_of_flushes (flushes : Flushes s a) : Sees s a := by
  cases a with
  | closeAll => trivial
  | _ => exact flushes

/-- **The log at the change of a map.**  `close_all` empties the buffer exactly when it is not
refused, and a turn leaves its wait with no writer running exactly when it sees them.  Where
that is so in all of a run, every line that was accepted is with a writer that has finished when
`close_all` comes to the files, and the buffer is empty when it returns. -/
theorem closeAll_flushes (x x' : State × Books) :
    (booksMachine.Reachable x → booksMachine.step x .closeAll = some x' →
      (x'.1.buffer = [] ↔ Flushes x.1 .closeAll)) ∧
    (booksMachine.Reachable x → booksMachine.step x .loadSecond = some x' →
      ((x'.1.game = .closing → x'.1.running = 0) ↔ Flushes x.1 .loadSecond)) ∧
    (booksMachine.Reaches (fun x a => Flushes x.1 a) x →
      booksMachine.step x .closeFiles = some x' → Flushed x.1 x.2 ∧ x'.1.buffer = []) := by
  refine ⟨fun _ moved => ?_, fun run moved => ?_, fun run moved => ?_⟩
  · obtain ⟨moved, -⟩ := Machine.recorded_step moved
    simp only [machine, step] at moved
    split at moved
    · rw [← Option.some.inj moved, ← writeToDisk_empties]
    · cases moved
  · obtain ⟨moved, -⟩ := Machine.recorded_step moved
    obtain ⟨counted, loaded⟩ := counted_of_reachable (Machine.Reaches.of_recorded run)
    obtain ⟨running, leaves⟩ := leaves_iff counted loaded moved
    rw [running, leaves]
    simp only [Flushes, Sees]
    omega
  · have waits : (x.1.game = .closing → x.1.running = 0) ∧
        (x.1.game ≠ .idle → x.1.buffer = []) := by
      refine Machine.Reaches.invariant (I := fun x : State × Books =>
        (x.1.game = .closing → x.1.running = 0) ∧ (x.1.game ≠ .idle → x.1.buffer = [])) ?_
        (fun x a x' before holds flushes moved => ?_) run
      · rintro ⟨_, _⟩ ⟨⟨maxWriterThreads, batchSize, rfl⟩, rfl⟩
        exact ⟨fun closing => (by cases closing), fun busy => absurd rfl busy⟩
      · obtain ⟨moved, -⟩ := Machine.recorded_step moved
        obtain ⟨counted, loaded⟩ :=
          counted_of_reachable (Machine.Reaches.of_recorded before.reachable)
        exact ⟨waited_step counted loaded holds.1 (sees_of_flushes flushes) moved,
          emptied_step holds.2 flushes moved⟩
    obtain ⟨moved, -⟩ := Machine.recorded_step moved
    have counted := (counted_of_reachable (Machine.Reaches.of_recorded run.reachable)).1
    have booked := booked_of_reachable run.reachable
    simp only [machine, step] at moved
    split at moved
    · next closes =>
        simp only [Bool.and_eq_true, beq_iff_eq] at closes
        have empty : x.1.buffer = [] := waits.2 fun idle => by
          rw [closes.1] at idle
          cases idle
        rw [← Option.some.inj moved]
        exact ⟨(flushed_iff counted booked).2 ⟨empty, waits.1 closes.1⟩, empty⟩
    · cases moved

/-- `Flushes`, to be tested. -/
def flushes (x : State × Books) : Action → Bool
  | .closeAll => x.1.buffer.isEmpty || decide (x.1.getNumThreads < x.1.maxWriterThreads) ||
      decide (0 < x.1.numProductivity)
  | .loadSecond => x.1.running == 0 || decide (x.1.lag < x.1.running)
  | _ => true

theorem flushes_sound (x : State × Books) (a : Action) (ok : flushes x a = true) :
    Flushes x.1 a := by
  cases a with
  | closeAll => simpa [flushes, Flushes, or_assoc] using ok
  | loadSecond => simpa [flushes, Flushes, Sees] using ok
  | _ => trivial

/-- A line that is in the buffer when the map changes. -/
theorem closeAll_flushes_one : ∃ x x', booksMachine.step x .closeFiles = some x' ∧
    x.2.accepted = [⟨1, 0, 0⟩] ∧ Flushed x.1 x.2 ∧ x'.1.buffer = [] := by
  have ends : (booksMachine.execIf flushes (.zero 2 100, ⟨[], []⟩)
      [.writeFile 1 0, .closeAll, .loadFirst true, .loadSecond, .sort 1 [⟨1, 0, 0⟩],
        .getFile 1 false true, .createFile 1 true, .write 1, .unlock 1, .finish 1,
        .loadFirst true, .loadSecond]).map
        (fun x => (booksMachine.step x .closeFiles).isSome &&
          decide (x.2.accepted = [⟨1, 0, 0⟩])) = some true := by decide
  obtain ⟨x, run, holds⟩ :=
    Machine.exists_reaches (M := booksMachine) flushes_sound ⟨⟨2, 100, rfl⟩, rfl⟩ ends
  simp only [Bool.and_eq_true, decide_eq_true_eq] at holds
  obtain ⟨x', moved⟩ := Option.isSome_iff_exists.1 holds.1
  exact ⟨x, x', moved, holds.2, (closeAll_flushes x x').2.2 run moved⟩

/-- Six lines for six writers; the seventh is in the buffer when the map changes. -/
theorem not_always_flushed : ¬ ∀ x x', booksMachine.Reachable x →
    booksMachine.step x .closeFiles = some x' → Flushed x.1 x.2 ∧ x'.1.buffer = [] := by
  intro always
  let six (lines : Nat → List Action) : List Action := (List.range 6).flatMap lines
  let ending : List Action := [.loadFirst true, .loadSecond]
  have ends : (booksMachine.exec (.zero 2 100, ⟨[], []⟩)
      (six (fun k => [.writeFile 1 k, .flush]) ++ ([.writeFile 1 6, .closeAll] : List Action) ++
        six (fun k => [.sort (k + 1) [⟨1, k, k⟩], .getFile (k + 1) false false,
          .finish (k + 1)]) ++ ending)).map
        (fun x => (booksMachine.step x .closeFiles).isSome && !x.1.buffer.isEmpty) =
          some true := by decide
  obtain ⟨x, run, holds⟩ :=
    Machine.exists_reachable (M := booksMachine) ⟨⟨2, 100, rfl⟩, rfl⟩ ends
  simp only [Bool.and_eq_true, Bool.not_eq_true', List.isEmpty_eq_false_iff] at holds
  obtain ⟨x', moved⟩ := Option.isSome_iff_exists.1 holds.1
  exact holds.2 (always x x' run moved).1.buffer

end Refsapi.Log
