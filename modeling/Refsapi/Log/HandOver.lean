/-
# Log.HandOver -- what a failed hand-over leaves

`write_to_disk` swaps the buffer into a `unique_ptr` before it has a thread for it, so what
throws between the two deletes the lines with it.  After the thread has been created it is owned
by a local: to move it to the heap may throw, and the local is then destroyed while it can be
joined, which ends the process.  A thread id that is there already is joined under
`thread_mutex`, which the writer needs to end.  And one of the two callers, `main`, locks
`buffer_mutex` by hand.

`handOver_safe_iff` says which failures lose nothing and leave both mutexes free.
-/
import Refsapi.Log.Shutdown

namespace Refsapi.Log

set_option autoImplicit false

variable {s s' : State} {a : Action}

/-! ## `write_to_disk`, with what can fail in it -/

/-- The step of `write_to_disk` that fails. -/
inductive Fault where
  /-- `std::make_unique<buffer_t>()` throws -/
  | makeUnique
  /-- `buffer.reserve` throws -/
  | reserve
  /-- the constructor of the `std::thread` throws -/
  | thread
  /-- `new std::thread` throws -/
  | newThread
  /-- `m_threads.emplace` throws -/
  | emplace
  /-- `m_threads` has the id already -/
  | duplicate
  deriving DecidableEq, Repr

inductive Ended where
  | returned (answer : Bool)
  /-- an exception leaves the function -/
  | thrown
  /-- `std::terminate` -/
  | terminated
  /-- it waits for ever -/
  | blocked
  deriving DecidableEq, Repr

namespace State

/-- The tests of `write_to_disk` under `thread_mutex`; `none` is that it refuses. -/
def adjust (s : State) : Option State :=
  if s.getNumThreads ≥ s.maxWriterThreads then
    if s.numProductivity > 0 then some { s with numProductivity := s.numProductivity - 1 }
    else none
  else if s.numProductivity < s.maxProductivity then
    some { s with numProductivity := s.numProductivity + 1 }
  else some s

/-- A writer runs that `m_threads` does not have. -/
def launch (s : State) : State :=
  let id := s.started + 1
  let capacity := s.batchSize <<< (s.maxProductivity - s.numProductivity)
  { s.setWriter id ⟨.sort, s.buffer, capacity⟩ with
    buffer := []
    started := id }

/-- `write_to_disk`.  The `unique_ptr` deletes what it has when an exception passes; a
`std::thread` that can be joined may not be destroyed; a writer does not end while its
`thread_mutex` is held. -/
def handOver (s : State) (fault : Option Fault) : State × Ended :=
  if s.buffer.isEmpty then (s, .returned true)
  else match s.adjust with
    | none => (s, .returned false)
    | some s =>
        match fault with
        | some .makeUnique => (s, .thrown)
        | some .reserve => ({ s with buffer := [] }, .thrown)
        | some .thread => ({ s with buffer := [] }, .thrown)
        | some .newThread => (s.launch, .terminated)
        | some .emplace => (s.launch, .thrown)
        | some .duplicate => (s.launch, .blocked)
        | none => (s.spawn, .returned true)

end State

/-! ## The callers -/

inductive Caller where
  | main
  | writeFile (amx : Nat) (time : Int)

/-- The end of a call, with the mutexes that are still locked. -/
structure Called where
  state : State
  /-- how `write_to_disk` ended, if it has been called -/
  ended : Option Ended
  bufferMutex : Bool
  threadMutex : Bool

/-- A turn of `main`.  It locks `buffer_mutex` by hand, and an exception leaves the function of
the thread. -/
def mainTurn (fault : Option Fault) (s : State) : Called :=
  match s.handOver fault with
  | (s, .returned answer) => ⟨s, some (.returned answer), false, false⟩
  | (s, .thrown) => ⟨s, some .thrown, true, false⟩
  | (s, ended) => ⟨s, some ended, true, true⟩

/-- `write_file`, which has a guard for `buffer_mutex`. -/
def writeFileTurn (fault : Option Fault) (s : State) (amx : Nat) (time : Int) : Called :=
  let push (s : State) : State :=
    { s with buffer := s.buffer ++ [⟨amx, s.mSequence, time⟩], mSequence := s.mSequence + 1 }
  if s.buffer.length ≥ maxLogBufferSize then
    match s.handOver fault with
    | (s, .returned true) => ⟨push s, some (.returned true), false, false⟩
    | (s, .returned false) => ⟨s, some (.returned false), false, false⟩
    | (s, .thrown) => ⟨s, some .thrown, false, false⟩
    | (s, ended) => ⟨s, some ended, true, true⟩
  else ⟨push s, none, false, false⟩

def Caller.run (fault : Option Fault) (s : State) : Caller → Called
  | .main => mainTurn fault s
  | .writeFile amx time => writeFileTurn fault s amx time

/-- The caller calls `write_to_disk`. -/
def Caller.calls (s : State) : Caller → Prop
  | .main => True
  | .writeFile _ _ => maxLogBufferSize ≤ s.buffer.length

/-! ## What should hold -/

/-- The lines of the writers that have been started between two states. -/
def handedOver (s s' : State) : List Record :=
  ((List.range' (s.started + 1) (s'.started - s.started)).map fun id =>
    (s'.writers id).buff).flatten

/-- Every line is in the buffer or with one writer, the writers are counted, and both mutexes
are free. -/
structure Unharmed (s : State) (called : Called) : Prop where
  lines : ∀ r, called.state.buffer.count r + (handedOver s called.state).count r = s.buffer.count r
  threads : called.state.numThreads = called.state.mThreads.length
  bufferMutex : called.bufferMutex = false
  threadMutex : called.threadMutex = false

/-- The call did not hand the buffer over. -/
def Called.Failed (called : Called) : Prop :=
  ∃ ended, called.ended = some ended ∧ ended ≠ .returned true

/-- What fails is harmless: it is the refusal, or an exception in `write_file` before the
buffer is taken or after the writer has it. -/
def Harmless (fault : Option Fault) (s : State) (caller : Caller) : Prop :=
  ¬ caller.calls s ∨ s.buffer = [] ∨ s.adjust = none ∨ fault = none ∨
    ((fault = some .makeUnique ∨ fault = some .emplace) ∧ ∃ amx time, caller = .writeFile amx time)

/-! ## Without a fault -/

theorem writeToDisk_eq (s : State) : s.writeToDisk =
    if s.buffer.isEmpty then (s, true)
    else match s.adjust with
      | none => (s, false)
      | some t => (t.spawn, true) := by
  unfold State.writeToDisk State.adjust
  by_cases busy : s.getNumThreads ≥ s.maxWriterThreads
  · by_cases left : s.numProductivity > 0
    · simp only [busy, left, if_true]
    · simp only [busy, left, if_true, if_false]
  · by_cases low : s.numProductivity < s.maxProductivity
    · simp only [busy, low, if_true, if_false]
    · simp only [busy, low, if_false]

theorem handOver_none (s : State) : s.handOver none =
    (s.writeToDisk.1, .returned s.writeToDisk.2) := by
  rw [writeToDisk_eq, State.handOver]
  split
  · rfl
  · cases s.adjust with
    | none => rfl
    | some t => rfl

/-- Where nothing fails the callers do what they do in the machine. -/
theorem run_none (s : State) : (mainTurn none s).state = s.writeToDisk.1 ∧
    ∀ amx time, (writeFileTurn none s amx time).state = s.writeFile amx time := by
  constructor
  · simp only [mainTurn, handOver_none]
  · intro amx time
    unfold writeFileTurn State.writeFile
    simp only [handOver_none]
    split
    · cases answer : s.writeToDisk.2 with
      | true => rfl
      | false => rfl
    · rfl

/-! ## Threads and counters -/

/-- `adjust` changes nothing but the productivity. -/
theorem adjust_eq {t : State} (adjusts : s.adjust = some t) :
    ∃ n, t = { s with numProductivity := n } := by
  unfold State.adjust at adjusts
  split at adjusts
  · split at adjusts
    · exact ⟨_, (Option.some.inj adjusts).symm⟩
    · cases adjusts
  · split at adjusts
    · exact ⟨_, (Option.some.inj adjusts).symm⟩
    · exact ⟨s.numProductivity, (Option.some.inj adjusts).symm⟩

/-- `num_threads` counts `m_threads`. -/
def CountsThreads (s : State) : Prop := s.numThreads = s.mThreads.length

theorem CountsThreads.writeToDisk (counts : CountsThreads s) : CountsThreads s.writeToDisk.1 := by
  rw [writeToDisk_eq]
  split
  · exact counts
  · cases adjusts : s.adjust with
    | none => exact counts
    | some t =>
        obtain ⟨n, rfl⟩ := adjust_eq adjusts
        simp only [CountsThreads, State.spawn, State.setWriter, List.length_append,
          List.length_singleton] at counts ⊢
        omega

theorem CountsThreads.writeFile (counts : CountsThreads s) (amx : Nat) (time : Int) :
    CountsThreads (s.writeFile amx time) := by
  unfold State.writeFile
  simp only
  split
  · split
    · exact counts.writeToDisk
    · exact counts.writeToDisk
  · exact counts

/-- The threads and the buffer are as they were. -/
structure Aside (s s' : State) : Prop where
  numThreads : s'.numThreads = s.numThreads
  mThreads : s'.mThreads = s.mThreads
  buffer : s'.buffer = s.buffer
  mSequence : s'.mSequence = s.mSequence

theorem aside_noFile (s : State) (id : Nat) (config : Bool) : Aside s (s.noFile id config) := by
  unfold State.noFile
  split
  · exact ⟨rfl, rfl, rfl, rfl⟩
  · exact ⟨rfl, rfl, rfl, rfl⟩

/-- Before its last step a writer does not touch them. -/
theorem aside_of_writerMove {id : Nat} (writer : WriterMove id a) (moved : step s a = some s') :
    Aside s s' := by
  cases writer with
  | sort =>
      simp only [step, State.sort] at moved
      split at moved <;> cases moved
      exact ⟨rfl, rfl, rfl, rfl⟩
  | getFile =>
      simp only [step, State.getFile] at moved
      split at moved
      · split at moved
        · cases moved
          exact aside_noFile s id _
        · split at moved
          · cases moved
          · split at moved
            · split at moved <;> cases moved
              obtain ⟨numThreads, mThreads, buffer, mSequence⟩ := aside_noFile _ id _
              exact ⟨numThreads, mThreads, buffer, mSequence⟩
            · cases moved
              exact ⟨rfl, rfl, rfl, rfl⟩
      · cases moved
  | createFile =>
      simp only [step, State.createFile] at moved
      split at moved
      · split at moved <;> cases moved <;> exact ⟨rfl, rfl, rfl, rfl⟩
      · cases moved
  | lock =>
      simp only [step, State.lock] at moved
      split at moved
      · split at moved <;> cases moved
        exact ⟨rfl, rfl, rfl, rfl⟩
      · cases moved
  | write =>
      simp only [step, State.write] at moved
      split at moved
      · split at moved <;> cases moved
        exact ⟨rfl, rfl, rfl, rfl⟩
      · cases moved
  | unlock =>
      simp only [step, State.unlock] at moved
      split at moved
      · split at moved <;> cases moved
        exact ⟨rfl, rfl, rfl, rfl⟩
      · cases moved

theorem CountsThreads.step (counts : CountsThreads s) (moved : step s a = some s') :
    CountsThreads s' := by
  have quiet {id : Nat} (writer : WriterMove id a) : CountsThreads s' := by
    have aside := aside_of_writerMove writer moved
    rw [CountsThreads, aside.numThreads, aside.mThreads]
    exact counts
  cases a with
  | sort id order => exact quiet .sort
  | getFile id fileExists config => exact quiet .getFile
  | createFile id opens => exact quiet .createFile
  | lock id => exact quiet .lock
  | write id => exact quiet .write
  | unlock id => exact quiet .unlock
  | writeFile amx time =>
      simp only [Log.step] at moved
      split at moved <;> cases moved
      split
      · exact counts
      · exact counts.writeFile amx time
  | flush =>
      simp only [Log.step] at moved
      split at moved <;> cases moved
      exact counts.writeToDisk
  | reap =>
      simp only [Log.step, State.reap] at moved
      split at moved
      · cases moved
        exact counts
      · next key keys _ =>
          split at moved
          · next member =>
              cases moved
              have length := List.length_erase_of_mem member
              have some := List.length_pos_of_mem member
              simp only [CountsThreads] at counts ⊢
              omega
          · cases moved
            exact counts
      · cases moved
        exact counts
      · cases moved
        exact counts
  | closeAll =>
      simp only [Log.step] at moved
      split at moved <;> cases moved
      exact counts.writeToDisk
  | loadFirst threads =>
      simp only [Log.step, State.loadFirst] at moved
      split at moved <;> cases moved
      exact counts
  | loadSecond =>
      simp only [Log.step, State.loadSecond] at moved
      obtain ⟨num, -, rfl⟩ := Option.map_eq_some_iff.1 moved
      exact counts
  | closeFiles =>
      simp only [Log.step] at moved
      split at moved <;> cases moved
      exact counts
  | finish id =>
      simp only [Log.step, State.finish] at moved
      split at moved <;> cases moved
      exact counts

theorem countsThreads_of_reachable (run : machine.Reachable s) : CountsThreads s := by
  refine Machine.Reaches.invariant (I := CountsThreads) ?_
    (fun _ _ _ _ counts _ moved => counts.step moved) run
  rintro _ ⟨maxWriterThreads, batchSize, rfl⟩
  rfl

/-! ## What a failure leaves -/

/-- The mutexes that an end which is no success leaves locked. -/
def Caller.holdsBuffer : Caller → Ended → Bool
  | _, .returned _ => false
  | .main, _ => true
  | .writeFile _ _, .thrown => false
  | .writeFile _ _, _ => true

def Ended.holdsThread : Ended → Bool
  | .returned _ => false
  | .thrown => false
  | _ => true

theorem run_of_failed {caller : Caller} {fault : Option Fault} {t : State} {ended : Ended}
    (calls : caller.calls s) (ends : s.handOver fault = (t, ended))
    (failed : ended ≠ .returned true) :
    caller.run fault s = ⟨t, some ended, caller.holdsBuffer ended, ended.holdsThread⟩ := by
  cases caller with
  | main =>
      simp only [Caller.run, mainTurn, ends]
      cases ended <;> rfl
  | writeFile amx time =>
      have full : s.buffer.length ≥ maxLogBufferSize := calls
      simp only [Caller.run, writeFileTurn, ends, if_pos full]
      cases ended with
      | returned answer =>
          cases answer with
          | true => exact absurd rfl failed
          | false => rfl
      | _ => rfl

theorem handOver_of_adjust {t : State} (notEmpty : ¬ s.buffer.isEmpty = true)
    (adjusts : s.adjust = some t) (fault : Fault) : s.handOver (some fault) =
      match fault with
      | .makeUnique => (t, .thrown)
      | .reserve => ({ t with buffer := [] }, .thrown)
      | .thread => ({ t with buffer := [] }, .thrown)
      | .newThread => (t.launch, .terminated)
      | .emplace => (t.launch, .thrown)
      | .duplicate => (t.launch, .blocked) := by
  simp only [State.handOver, if_neg notEmpty, adjusts]
  cases fault <;> rfl

theorem handedOver_of_same {t : State} (same : t.started = s.started) : handedOver s t = [] := by
  simp [handedOver, same]

/-- The writer that is started has the lines. -/
theorem handedOver_launch (n : Nat) :
    handedOver s (State.launch { s with numProductivity := n }) = s.buffer := by
  simp [handedOver, State.launch, State.setWriter]

theorem unharmed_iff (s t : State) (ended : Ended) (caller : Caller) :
    Unharmed s ⟨t, some ended, caller.holdsBuffer ended, ended.holdsThread⟩ ↔
      (∀ r, t.buffer.count r + (handedOver s t).count r = s.buffer.count r) ∧ CountsThreads t ∧
        caller.holdsBuffer ended = false ∧ ended.holdsThread = false :=
  ⟨fun ⟨lines, threads, buffer, thread⟩ => ⟨lines, threads, buffer, thread⟩,
    fun ⟨lines, threads, buffer, thread⟩ => ⟨lines, threads, buffer, thread⟩⟩

/-- The lines are lost with the `unique_ptr`. -/
theorem lost_of_deleted (some : s.buffer ≠ []) (n : Nat) :
    ¬ ∀ r, ({ s with numProductivity := n, buffer := [] } : State).buffer.count r +
      (handedOver s { s with numProductivity := n, buffer := [] }).count r = s.buffer.count r := by
  obtain ⟨r, rest, whole⟩ := List.exists_cons_of_ne_nil some
  intro lines
  have line := lines r
  have none : handedOver s { s with numProductivity := n, buffer := [] } = [] :=
    handedOver_of_same rfl
  rw [none, whole, List.count_cons_self, List.count_nil] at line
  omega

theorem kept_of_same {t : State} (buffer : t.buffer = s.buffer) (started : t.started = s.started)
    (r : Record) : t.buffer.count r + (handedOver s t).count r = s.buffer.count r := by
  rw [handedOver_of_same started, buffer, List.count_nil, Nat.add_zero]

theorem kept_launch (n : Nat) (r : Record) :
    (State.launch { s with numProductivity := n }).buffer.count r +
      (handedOver s (State.launch { s with numProductivity := n })).count r =
        s.buffer.count r := by
  rw [handedOver_launch]
  exact Nat.zero_add _

/-! ## Which failures are safe -/

theorem not_failed_of_not_calls {caller : Caller} (rests : ¬ caller.calls s)
    (fault : Option Fault) : ¬ (caller.run fault s).Failed := by
  rintro ⟨ended, isEnded, -⟩
  cases caller with
  | main => exact rests trivial
  | writeFile amx time =>
      have room : ¬ s.buffer.length ≥ maxLogBufferSize := rests
      simp only [Caller.run, writeFileTurn, if_neg room] at isEnded
      cases isEnded

theorem not_failed_of_returned {caller : Caller} {fault : Option Fault} {t : State}
    (calls : caller.calls s) (ends : s.handOver fault = (t, .returned true)) :
    ¬ (caller.run fault s).Failed := by
  rintro ⟨ended, isEnded, failed⟩
  refine failed ?_
  cases caller with
  | main =>
      simp only [Caller.run, mainTurn, ends] at isEnded
      exact (Option.some.inj isEnded).symm
  | writeFile amx time =>
      have full : s.buffer.length ≥ maxLogBufferSize := calls
      simp only [Caller.run, writeFileTurn, ends, if_pos full] at isEnded
      exact (Option.some.inj isEnded).symm

theorem safe_iff_of_failed {caller : Caller} {fault : Option Fault} {t : State} {ended : Ended}
    (calls : caller.calls s) (ends : s.handOver fault = (t, ended))
    (failed : ended ≠ .returned true) :
    ((caller.run fault s).Failed → Unharmed s (caller.run fault s)) ↔
      (∀ r, t.buffer.count r + (handedOver s t).count r = s.buffer.count r) ∧
        CountsThreads t ∧ caller.holdsBuffer ended = false ∧ ended.holdsThread = false := by
  rw [run_of_failed calls ends failed, unharmed_iff]
  exact ⟨fun safe => safe ⟨ended, rfl, failed⟩, fun safe _ => safe⟩

/-- The handler is the one of `write_file`. -/
theorem holdsBuffer_thrown_iff (caller : Caller) :
    caller.holdsBuffer .thrown = false ↔ ∃ amx time, caller = .writeFile amx time := by
  cases caller <;> simp [Caller.holdsBuffer]

/-- What fails after the writers' number is settled. -/
theorem safe_iff_of_fault {caller : Caller} {t : State} (counts : s.numThreads = s.mThreads.length)
    (calls : caller.calls s) (lines : s.buffer ≠ []) (adjusts : s.adjust = some t)
    (fault : Fault) :
    ((caller.run (some fault) s).Failed → Unharmed s (caller.run (some fault) s)) ↔
      (fault = .makeUnique ∨ fault = .emplace) ∧ ∃ amx time, caller = .writeFile amx time := by
  obtain ⟨n, rfl⟩ := adjust_eq adjusts
  have notEmpty : ¬ s.buffer.isEmpty = true := by simpa using lines
  have ends := handOver_of_adjust notEmpty adjusts
  cases fault with
  | makeUnique =>
      rw [safe_iff_of_failed calls (ends .makeUnique) (by decide), holdsBuffer_thrown_iff]
      exact ⟨fun ⟨_, _, inside, _⟩ => ⟨.inl rfl, inside⟩,
        fun ⟨_, inside⟩ => ⟨kept_of_same rfl rfl, counts, inside, rfl⟩⟩
  | reserve =>
      rw [safe_iff_of_failed calls (ends .reserve) (by decide)]
      exact iff_of_false (fun safe => lost_of_deleted lines n safe.1) (by simp)
  | thread =>
      rw [safe_iff_of_failed calls (ends .thread) (by decide)]
      exact iff_of_false (fun safe => lost_of_deleted lines n safe.1) (by simp)
  | newThread =>
      rw [safe_iff_of_failed calls (ends .newThread) (by decide)]
      exact iff_of_false (fun safe => Bool.noConfusion safe.2.2.2) (by simp)
  | emplace =>
      rw [safe_iff_of_failed calls (ends .emplace) (by decide), holdsBuffer_thrown_iff]
      exact ⟨fun ⟨_, _, inside, _⟩ => ⟨.inr rfl, inside⟩,
        fun ⟨_, inside⟩ => ⟨kept_launch n, counts, inside, rfl⟩⟩
  | duplicate =>
      rw [safe_iff_of_failed calls (ends .duplicate) (by decide)]
      exact iff_of_false (fun safe => Bool.noConfusion safe.2.2.2) (by simp)

/-- **A failed hand-over.**  When `write_to_disk` does not succeed no line is lost, the writers
are counted and both mutexes are free, if and only if what fails is the refusal, or an exception
in `write_file` before the buffer is taken or after the writer has it. -/
theorem handOver_safe_iff (fault : Option Fault) (s : State) (caller : Caller)
    (counts : s.numThreads = s.mThreads.length) :
    ((caller.run fault s).Failed → Unharmed s (caller.run fault s)) ↔ Harmless fault s caller := by
  by_cases calls : caller.calls s
  swap
  · have holds := not_failed_of_not_calls calls fault
    exact iff_of_true (fun failed => absurd failed holds) (.inl calls)
  by_cases empty : s.buffer = []
  · have ends : s.handOver fault = (s, .returned true) := by simp [State.handOver, empty]
    exact iff_of_true (fun failed => absurd failed (not_failed_of_returned calls ends))
      (.inr (.inl empty))
  have notEmpty : ¬ s.buffer.isEmpty = true := by simpa using empty
  cases adjusts : s.adjust with
  | none =>
      have ends : s.handOver fault = (s, .returned false) := by
        simp only [State.handOver, if_neg notEmpty, adjusts]
      have unlocked : caller.holdsBuffer (.returned false) = false := by cases caller <;> rfl
      have safe := (safe_iff_of_failed calls ends (by decide)).2
        ⟨kept_of_same rfl rfl, counts, unlocked, rfl⟩
      exact iff_of_true safe (.inr (.inr (.inl adjusts)))
  | some t =>
      cases fault with
      | none =>
          have ends : s.handOver none = (t.spawn, .returned true) := by
            simp only [State.handOver, if_neg notEmpty, adjusts]
          exact iff_of_true (fun failed => absurd failed (not_failed_of_returned calls ends))
            (.inr (.inr (.inr (.inl rfl))))
      | some fault =>
          rw [safe_iff_of_fault counts calls empty adjusts fault]
          simp [Harmless, calls, empty, adjusts]

/-- A full turn of `main` with one line, when the only writer is busy: it refuses. -/
theorem handOver_safe_iff_refused :
    let s : State := { State.zero 1 100 with
      buffer := [⟨1, 0, 0⟩]
      numProductivity := 0
      numThreads := 1
      mThreads := [1]
      writers := fun _ => ⟨.sort, [⟨1, 0, 0⟩], 400⟩
      started := 1 }
    Unharmed s (Caller.main.run (some .thread) s) := by
  intro s
  refine (handOver_safe_iff (some .thread) s .main rfl).2 (.inr (.inr (.inl rfl))) ?_
  exact ⟨.returned false, rfl, by decide⟩

/-- One line and a thread that cannot be made. -/
theorem not_always_unharmed : ¬ ∀ (fault : Option Fault) (s : State) (caller : Caller),
    s.numThreads = s.mThreads.length → (caller.run fault s).Failed →
      Unharmed s (caller.run fault s) := by
  intro always
  let s : State := { State.zero 4 100 with buffer := [⟨1, 0, 0⟩] }
  have safe := always (some .thread) s .main rfl ⟨.thrown, rfl, by decide⟩
  exact absurd safe.bufferMutex (by decide)

end Refsapi.Log
