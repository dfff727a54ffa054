/-
# Log.Shutdown -- when `close_all` waits for all writers

The number of running writers is the difference of two counters that `close_all`
loads one after the other, while the main thread decrements both when it reaps a
finished writer.  What a turn of the wait computes is the number of running
writers less its `lag`, the decrements of `num_threads` that its loads saw ahead
of those of `num_finished` (`loadedNum_eq`).  So the wait ends too early exactly
when the lag is as large as the number of writers still running.
-/
import Refsapi.Log.Model

namespace Refsapi.Log

set_option autoImplicit false

variable {s s' : State} {a : Action}

/-! ## The counters -/

/-- The main thread has taken a writer off `num_threads` and not yet off `num_finished`. -/
def MainPc.between : MainPc → Bool
  | .reapFinished _ => true
  | _ => false

/-- The counters against what the run has done. -/
structure Counted (s : State) : Prop where
  inside : ∀ id, (s.writers id).pc ≠ .done → 0 < id ∧ id ≤ s.started
  threads : s.numThreads = s.started - s.decThreads
  finished : s.numFinished = s.incFinished - s.decFinished
  running : s.running + s.incFinished = s.started
  reaping : s.decThreads = s.decFinished + s.main.between.toNat

/-- What the game thread has loaded. -/
def Loaded (s : State) : Prop :=
  match s.game with
  | .loaded true value dec _ => value = s.started - dec ∧ dec ≤ s.decThreads
  | .loaded false value dec inc => value = (inc : Int) - dec
  | _ => True

/-- How far the loads of a turn are off: the decrements of `num_threads` that were seen
and those of `num_finished` that were not, less the increments that were not. -/
def State.lag (s : State) : Int :=
  match s.game with
  | .loaded true _ dec _ => dec - s.decFinished
  | .loaded false _ dec inc => (s.decThreads - dec : Int) - (s.incFinished - inc)
  | _ => 0

theorem loadedNum_eq (counted : Counted s) (loaded : Loaded s) {num : Int}
    (isNum : s.loadedNum = some num) : num = s.running - s.lag := by
  obtain ⟨-, threads, finished, running, -⟩ := counted
  unfold State.loadedNum at isNum
  unfold Loaded at loaded
  unfold State.lag
  split at isNum
  · next value dec inc game =>
      simp only [game, Option.some.injEq] at loaded isNum ⊢
      omega
  · next value dec inc game =>
      simp only [game, Option.some.injEq] at loaded isNum ⊢
      omega
  · cases isNum

/-! ## Steps of a writer -/

/-- A writer has moved on without finishing: nothing that is counted changes. -/
structure Quiet (s s' : State) : Prop where
  done : ∀ id, (s'.writers id).pc = .done ↔ (s.writers id).pc = .done
  started : s'.started = s.started
  numThreads : s'.numThreads = s.numThreads
  numFinished : s'.numFinished = s.numFinished
  decThreads : s'.decThreads = s.decThreads
  decFinished : s'.decFinished = s.decFinished
  incFinished : s'.incFinished = s.incFinished
  main : s'.main = s.main
  game : s'.game = s.game

theorem Quiet.running (quiet : Quiet s s') : s'.running = s.running := by
  unfold State.running
  rw [quiet.started]
  refine slots_congr fun id _ _ => ?_
  simp only [bne, Bool.not_eq_eq_eq_not, Bool.not_not]
  have := quiet.done id
  grind

theorem quiet_setWriter (id : Nat) (w : Writer) (before : (s.writers id).pc ≠ .done)
    (after : w.pc ≠ .done) : Quiet s (s.setWriter id w) := by
  refine ⟨fun x => ?_, rfl, rfl, rfl, rfl, rfl, rfl, rfl, rfl⟩
  by_cases here : x = id
  · subst here
    simp [State.setWriter, before, after]
  · simp [State.setWriter, here]

theorem next_ne_done (buff : List Record) : State.next buff ≠ .done := by
  unfold State.next
  split <;> exact fun same => nomatch same

theorem quiet_skip {id : Nat} (before : (s.writers id).pc ≠ .done) : Quiet s (s.skip id) :=
  quiet_setWriter id _ before (next_ne_done _)

theorem quiet_noFile {id : Nat} (before : (s.writers id).pc ≠ .done) (config : Bool) :
    Quiet s (s.noFile id config) := by
  unfold State.noFile
  split
  · exact quiet_setWriter id _ before fun same => nomatch same
  · exact quiet_skip before

/-- The steps of a writer before its last. -/
inductive WriterMove (id : Nat) : Action → Prop where
  | sort {order : List Record} : WriterMove id (.sort id order)
  | getFile {fileExists config : Bool} : WriterMove id (.getFile id fileExists config)
  | createFile {opens : Bool} : WriterMove id (.createFile id opens)
  | lock : WriterMove id (.lock id)
  | write : WriterMove id (.write id)
  | unlock : WriterMove id (.unlock id)

theorem quiet_of_writerMove {id : Nat} (writer : WriterMove id a) (moved : step s a = some s') :
    Quiet s s' := by
  cases writer with
  | @sort order =>
      simp only [step, State.sort] at moved
      split at moved
      · next sorts =>
          cases moved
          simp only [Bool.and_eq_true, beq_iff_eq] at sorts
          exact quiet_setWriter id _ (by simp [sorts.1.1]) (next_ne_done _)
      · cases moved
  | @getFile fileExists config =>
      simp only [step, State.getFile] at moved
      split at moved
      · next record rest pc buff =>
          have busy : (s.writers id).pc ≠ .done := by simp [pc]
          split at moved
          · cases moved
            exact quiet_noFile busy config
          · next file found =>
            split at moved
            · cases moved
            · split at moved
              · split at moved
                · cases moved
                  have quiet := quiet_noFile (s := s.closeFile record.amx file) busy config
                  exact ⟨quiet.done, quiet.started, quiet.numThreads, quiet.numFinished,
                    quiet.decThreads, quiet.decFinished, quiet.incFinished, quiet.main, quiet.game⟩
                · cases moved
              · cases moved
                exact quiet_setWriter id _ busy fun same => nomatch same
      · cases moved
  | @createFile opens =>
      simp only [step, State.createFile] at moved
      split at moved
      · next record rest pc buff =>
          have busy : (s.writers id).pc ≠ .done := by simp [pc]
          split at moved
          · cases moved
            have quiet := quiet_setWriter id { s.writers id with pc := .write s.nextFile }
              busy fun same => nomatch same
            exact ⟨quiet.done, rfl, rfl, rfl, rfl, rfl, rfl, rfl, rfl⟩
          · cases moved
            have quiet := quiet_skip busy
            exact ⟨quiet.done, rfl, rfl, rfl, rfl, rfl, rfl, rfl, rfl⟩
      · cases moved
  | lock =>
      simp only [step, State.lock] at moved
      split at moved
      · next file pc =>
          split at moved
          · cases moved
          · cases moved
            have quiet := quiet_setWriter (s := s) id { s.writers id with pc := .write file }
              (by simp [pc]) fun same => nomatch same
            exact ⟨quiet.done, rfl, rfl, rfl, rfl, rfl, rfl, rfl, rfl⟩
      · cases moved
  | write =>
      simp only [step, State.write] at moved
      split at moved
      · next file pc =>
          split at moved
          · cases moved
          · cases moved
            have busy : (s.writers id).pc ≠ .done := by simp [pc]
            refine ⟨fun x => ?_, rfl, rfl, rfl, rfl, rfl, rfl, rfl, rfl⟩
            by_cases here : x = id
            · subst here
              simp only [State.setWriter, Function.update_self, busy, iff_false]
              split <;> exact fun same => nomatch same
            · simp [State.setWriter, here]
      · cases moved
  | unlock =>
      simp only [step, State.unlock] at moved
      split at moved
      · next file pc =>
          split at moved
          · cases moved
          · cases moved
            have quiet := quiet_setWriter (s := s) id
              { s.writers id with pc := State.next (s.writers id).buff }
              (by simp [pc]) (next_ne_done _)
            exact ⟨quiet.done, rfl, rfl, rfl, rfl, rfl, rfl, rfl, rfl⟩
      · cases moved

theorem Counted.of_quiet (counted : Counted s) (quiet : Quiet s s') : Counted s' := by
  refine ⟨fun id busy => ?_, ?_, ?_, ?_, ?_⟩
  · rw [quiet.started]
    exact counted.inside id fun done => busy ((quiet.done id).2 done)
  · rw [quiet.numThreads, quiet.started, quiet.decThreads]
    exact counted.threads
  · rw [quiet.numFinished, quiet.incFinished, quiet.decFinished]
    exact counted.finished
  · rw [quiet.running, quiet.incFinished, quiet.started]
    exact counted.running
  · rw [quiet.decThreads, quiet.decFinished, quiet.main]
    exact counted.reaping

theorem Loaded.of_same (loaded : Loaded s) (started : s'.started = s.started)
    (decThreads : s.decThreads ≤ s'.decThreads) (game : s'.game = s.game) : Loaded s' := by
  unfold Loaded at loaded ⊢
  rw [game, started]
  split
  · next same =>
      simp only [same] at loaded
      exact ⟨loaded.1, Nat.le_trans loaded.2 decThreads⟩
  · next same => simpa only [same] using loaded
  · trivial

/-! ## The last step of a writer -/

theorem running_finish {id : Nat} {w : Writer} (counted : Counted s)
    (before : (s.writers id).pc ≠ .done) (after : w.pc = .done) :
    (s.setWriter id w).running + 1 = s.running := by
  obtain ⟨low, high⟩ := counted.inside id before
  have change := slots_change (fun x => (s.writers x).pc != .done)
    (fun x => ((s.setWriter id w).writers x).pc != .done) low high
    fun x other => by simp [State.setWriter, other]
  simpa [State.setWriter, bne_iff_ne.2 before, after, State.running] using change

theorem Counted.finish {id : Nat} (counted : Counted s) (moved : s.finish id = some s') :
    Counted s' ∧ s'.running + 1 = s.running ∧ s'.started = s.started ∧
      s'.decThreads = s.decThreads ∧ s'.game = s.game := by
  unfold State.finish at moved
  simp only at moved
  split at moved
  · next last =>
      simp only [Bool.and_eq_true, beq_iff_eq] at last
      have before : (s.writers id).pc ≠ .done := by simp [last.1]
      have fewer := running_finish (w := { s.writers id with pc := .done }) counted before rfl
      have running : s'.running + 1 = s.running := by rw [← Option.some.inj moved, ← fewer]; rfl
      have total : s'.running + s'.incFinished = s'.started := by
        have started : s'.started = s.started := by rw [← Option.some.inj moved]; rfl
        have inc : s'.incFinished = s.incFinished + 1 := by rw [← Option.some.inj moved]
        have := counted.running
        omega
      cases moved
      refine ⟨⟨fun x busy => ?_, counted.threads, ?_, total, counted.reaping⟩, running, rfl,
        rfl, rfl⟩
      · by_cases here : x = id
        · subst here
          exact counted.inside x before
        · exact counted.inside x (by simpa [State.setWriter, here] using busy)
      · have := counted.finished
        simp only [State.setWriter]
        omega
  · cases moved

/-! ## Handing a batch over -/

theorem spawn_running (counted : Counted s) : s.spawn.running = s.running + 1 := by
  have fresh : (s.writers (s.started + 1)).pc = .done := by
    by_contra busy
    have := counted.inside _ busy
    omega
  unfold State.running
  rw [show s.spawn.started = s.started + 1 from rfl, slots_succ]
  have same : slots s.started (fun x => (s.spawn.writers x).pc != .done) =
      slots s.started fun x => (s.writers x).pc != .done := by
    refine slots_congr fun x _ high => ?_
    have other : x ≠ s.started + 1 := by omega
    simp [State.spawn, State.setWriter, other]
  rw [same]
  simp [State.spawn, State.setWriter]

theorem Counted.spawn (counted : Counted s) : Counted s.spawn := by
  refine ⟨fun x busy => ?_, ?_, counted.finished, ?_, counted.reaping⟩
  · show 0 < x ∧ x ≤ s.started + 1
    by_cases here : x = s.started + 1
    · omega
    · have := counted.inside x (by simpa [State.spawn, State.setWriter, here] using busy)
      omega
  · have := counted.threads
    simp only [State.spawn, State.setWriter]
    omega
  · have := counted.running
    rw [spawn_running counted]
    simp only [State.spawn, State.setWriter]
    omega

theorem writeToDisk_game (s : State) : s.writeToDisk.1.game = s.game := by
  unfold State.writeToDisk
  split
  · rfl
  · split <;> split <;> rfl

theorem Counted.writeToDisk (counted : Counted s) : Counted s.writeToDisk.1 := by
  have productivity (n : Nat) : Counted { s with numProductivity := n } :=
    ⟨counted.inside, counted.threads, counted.finished, counted.running, counted.reaping⟩
  unfold State.writeToDisk
  split
  · exact counted
  · split
    · split
      · exact (productivity _).spawn
      · exact counted
    · split
      · exact (productivity _).spawn
      · exact counted.spawn

theorem writeFile_game (s : State) (amx : Nat) (time : Int) :
    (s.writeFile amx time).game = s.game := by
  have flushed := writeToDisk_game s
  unfold State.writeFile
  simp only
  split <;> split <;> simp_all

theorem Counted.writeFile (counted : Counted s) (amx : Nat) (time : Int) :
    Counted (s.writeFile amx time) := by
  have pushed {t : State} (counted : Counted t) (r : List Record) (n : Nat) :
      Counted { t with buffer := r, mSequence := n } :=
    ⟨counted.inside, counted.threads, counted.finished, counted.running, counted.reaping⟩
  unfold State.writeFile
  simp only
  split
  · split
    · exact pushed counted.writeToDisk _ _
    · exact counted.writeToDisk
  · exact pushed counted _ _

/-! ## Reaping -/

theorem Counted.reap (counted : Counted s) (moved : s.reap = some s') :
    Counted s' ∧ s'.running = s.running ∧ s'.started = s.started ∧
      s.decThreads ≤ s'.decThreads ∧ s'.game = s.game := by
  obtain ⟨inside, threads, finished, running, reaping⟩ := counted
  unfold State.reap at moved
  split at moved
  · next main =>
      cases moved
      simp only [main, MainPc.between] at reaping
      exact ⟨⟨inside, threads, finished, running, reaping⟩, rfl, rfl, Nat.le_refl _, rfl⟩
  · next key keys main =>
      simp only [main, MainPc.between, Bool.toNat_false] at reaping
      split at moved
      · cases moved
        refine ⟨⟨inside, ?_, finished, running, ?_⟩, rfl, rfl, Nat.le_succ _, rfl⟩
        · simp only
          omega
        · simp only [MainPc.between, Bool.toNat_true]
          omega
      · cases moved
        exact ⟨⟨inside, threads, finished, running, reaping⟩, rfl, rfl, Nat.le_refl _, rfl⟩
  · next keys main =>
      simp only [main, MainPc.between, Bool.toNat_true] at reaping
      cases moved
      refine ⟨⟨inside, threads, ?_, running, ?_⟩, rfl, rfl, Nat.le_refl _, rfl⟩
      · simp only
        omega
      · simp only [MainPc.between, Bool.toNat_false]
        omega
  · next main =>
      cases moved
      simp only [main, MainPc.between] at reaping
      exact ⟨⟨inside, threads, finished, running, reaping⟩, rfl, rfl, Nat.le_refl _, rfl⟩

/-! ## The wait -/

/-- At the second load of a turn: no writer runs, or more of them than the loads miss. -/
def Sees (s : State) : Action → Prop
  | .loadSecond => s.running = 0 ∨ s.lag < s.running
  | _ => True

/-- What one step keeps of the counters. -/
theorem counted_step (counted : Counted s) (loaded : Loaded s) (moved : step s a = some s') :
    Counted s' ∧ Loaded s' := by
  have quiet {id : Nat} (writer : WriterMove id a) : Counted s' ∧ Loaded s' := by
    have quiet := quiet_of_writerMove writer moved
    exact ⟨counted.of_quiet quiet,
      loaded.of_same quiet.started (Nat.le_of_eq quiet.decThreads.symm) quiet.game⟩
  have playing {game : GamePc} (counted : Counted s) : Counted { s with game := game } :=
    ⟨counted.inside, counted.threads, counted.finished, counted.running, counted.reaping⟩
  have unloaded {t : State} (game : t.game = .idle ∨ t.game = .wait ∨ t.game = .closing) :
      Loaded t := by
    rcases game with game | game | game <;> simp only [Loaded, game]
  cases a with
  | sort id order => exact quiet .sort
  | getFile id fileExists config => exact quiet .getFile
  | createFile id opens => exact quiet .createFile
  | lock id => exact quiet .lock
  | write id => exact quiet .write
  | unlock id => exact quiet .unlock
  | writeFile amx time =>
      simp only [step] at moved
      split at moved
      · next idle =>
          simp only [Bool.and_eq_true, beq_iff_eq] at idle
          cases moved
          split
          · exact ⟨counted, loaded⟩
          · exact ⟨counted.writeFile amx time, unloaded (.inl ((writeFile_game ..).trans idle.1))⟩
      · cases moved
  | flush =>
      simp only [step] at moved
      split at moved
      · next idle =>
          simp only [Bool.and_eq_true, beq_iff_eq] at idle
          cases moved
          exact ⟨counted.writeToDisk, unloaded (.inl ((writeToDisk_game s).trans idle.1))⟩
      · cases moved
  | closeAll =>
      simp only [step] at moved
      split at moved
      · cases moved
        obtain ⟨inside, threads, finished, running, reaping⟩ := counted.writeToDisk
        exact ⟨⟨inside, threads, finished, running, reaping⟩, unloaded (.inr (.inl rfl))⟩
      · cases moved
  | reap =>
      obtain ⟨counted, -, started, decThreads, game⟩ := counted.reap moved
      exact ⟨counted, loaded.of_same started decThreads game⟩
  | finish id =>
      obtain ⟨counted, -, started, decThreads, game⟩ := counted.finish moved
      exact ⟨counted, loaded.of_same started (Nat.le_of_eq decThreads.symm) game⟩
  | loadFirst threads =>
      simp only [step, State.loadFirst] at moved
      split at moved
      · cases moved
        refine ⟨playing counted, ?_⟩
        cases threads
        · exact counted.finished
        · exact ⟨counted.threads, Nat.le_refl _⟩
      · cases moved
  | loadSecond =>
      simp only [step, State.loadSecond] at moved
      obtain ⟨num, -, rfl⟩ := Option.map_eq_some_iff.1 moved
      refine ⟨playing counted, unloaded ?_⟩
      split
      · exact .inr (.inl rfl)
      · exact .inr (.inr rfl)
  | closeFiles =>
      simp only [step] at moved
      split at moved
      · cases moved
        exact ⟨⟨counted.inside, counted.threads, counted.finished, counted.running,
          counted.reaping⟩, unloaded (.inl rfl)⟩
      · cases moved

theorem counted_of_reachable (run : machine.Reachable s) : Counted s ∧ Loaded s := by
  refine Machine.Reaches.invariant (I := fun s => Counted s ∧ Loaded s) ?_
    (fun _ _ _ _ holds _ moved => counted_step holds.1 holds.2 moved) run
  rintro _ ⟨maxWriterThreads, batchSize, rfl⟩
  exact ⟨⟨fun id busy => absurd rfl busy, rfl, rfl,
      by simp [State.running, slots, State.zero], rfl⟩,
    trivial⟩

/-- The wait is left exactly when what a turn computes is not positive. -/
theorem leaves_iff (counted : Counted s) (loaded : Loaded s)
    (moved : step s .loadSecond = some s') :
    s'.running = s.running ∧ (s'.game = .closing ↔ (s.running : Int) ≤ s.lag) := by
  simp only [step, State.loadSecond] at moved
  obtain ⟨num, isNum, rfl⟩ := Option.map_eq_some_iff.1 moved
  have value := loadedNum_eq counted loaded isNum
  refine ⟨rfl, ?_⟩
  simp only
  split
  · next positive => exact ⟨fun same => (nomatch same), fun _ => by omega⟩
  · next positive => exact ⟨fun _ => by omega, fun _ => rfl⟩

/-- With `num_threads` loaded first a turn misses at most one writer, and that one only while
the main thread stands between its two decrements. -/
theorem lag_le_one {value : Int} {dec inc : Nat} (counted : Counted s) (loaded : Loaded s)
    (game : s.game = .loaded true value dec inc) :
    s.lag ≤ 1 ∧ (s.lag = 1 → s.main.between = true ∧ dec = s.decThreads) := by
  have reaping := counted.reaping
  simp only [Loaded, game] at loaded
  simp only [State.lag, game]
  cases between : s.main.between <;>
    simp only [between, Bool.toNat_true, Bool.toNat_false] at reaping
  · exact ⟨by omega, fun one => by omega⟩
  · exact ⟨by omega, fun one => ⟨rfl, by omega⟩⟩

/-- Nothing starts or goes on while `close_all` is past its wait. -/
theorem waited_step (counted : Counted s) (loaded : Loaded s)
    (waited : s.game = .closing → s.running = 0) (sees : Sees s a) (moved : step s a = some s') :
    s'.game = .closing → s'.running = 0 := by
  intro closing
  have quiet {id : Nat} (writer : WriterMove id a) : s'.running = 0 := by
    have quiet := quiet_of_writerMove writer moved
    rw [quiet.running]
    exact waited (quiet.game.symm.trans closing)
  cases a with
  | sort id order => exact quiet .sort
  | getFile id fileExists config => exact quiet .getFile
  | createFile id opens => exact quiet .createFile
  | lock id => exact quiet .lock
  | write id => exact quiet .write
  | unlock id => exact quiet .unlock
  | writeFile amx time =>
      simp only [step] at moved
      split at moved
      · next idle =>
          simp only [Bool.and_eq_true, beq_iff_eq] at idle
          cases moved
          split at closing
          · rw [idle.1] at closing
            cases closing
          · rw [writeFile_game, idle.1] at closing
            cases closing
      · cases moved
  | flush =>
      simp only [step] at moved
      split at moved
      · next idle =>
          simp only [Bool.and_eq_true, beq_iff_eq] at idle
          cases moved
          rw [writeToDisk_game, idle.1] at closing
          cases closing
      · cases moved
  | closeAll =>
      simp only [step] at moved
      split at moved
      · cases moved
        cases closing
      · cases moved
  | reap =>
      obtain ⟨-, running, -, -, game⟩ := counted.reap moved
      rw [running]
      exact waited (game.symm.trans closing)
  | finish id =>
      obtain ⟨-, running, -, -, game⟩ := counted.finish moved
      have := waited (game.symm.trans closing)
      omega
  | loadFirst threads =>
      simp only [step, State.loadFirst] at moved
      split at moved
      · cases moved
        cases threads <;> cases closing
      · cases moved
  | loadSecond =>
      obtain ⟨running, leaves⟩ := leaves_iff counted loaded moved
      have := leaves.1 closing
      simp only [Sees] at sees
      omega
  | closeFiles =>
      simp only [step] at moved
      split at moved
      · cases moved
        cases closing
      · cases moved

/-- **Leaving the wait.**  A turn that decides leaves the wait with no writer running, or
stays in it, precisely when its loads saw the writers that run; and where every turn does,
no writer runs once `close_all` is past its wait. -/
theorem waits_for_writers (s : State) :
    (∀ s', machine.Reachable s → machine.step s .loadSecond = some s' →
      ((s'.game = .closing → s'.running = 0) ↔ Sees s .loadSecond)) ∧
      (machine.Reaches Sees s → s.game = .closing → s.running = 0) := by
  constructor
  · intro s' run moved
    obtain ⟨counted, loaded⟩ := counted_of_reachable run
    obtain ⟨running, leaves⟩ := leaves_iff counted loaded moved
    rw [running, leaves]
    simp only [Sees]
    omega
  · intro run
    refine Machine.Reaches.invariant (I := fun s => s.game = .closing → s.running = 0) ?_
      (fun s a s' before waited sees moved => ?_) run
    · rintro _ ⟨maxWriterThreads, batchSize, rfl⟩ closing
      cases closing
    · obtain ⟨counted, loaded⟩ := counted_of_reachable before.reachable
      exact waited_step counted loaded waited sees moved

/-- `Sees`, to be tested. -/
def sees (s : State) : Action → Bool
  | .loadSecond => s.running == 0 || decide (s.lag < s.running)
  | _ => true

theorem sees_sound (s : State) (a : Action) (ok : sees s a = true) : Sees s a := by
  cases a with
  | loadSecond => simpa [sees, Sees] using ok
  | _ => trivial

/-- One line, one writer: the first turn waits for it, the second finds it finished. -/
theorem waits_for_writers_one : ∃ s : State,
    s.game = .closing ∧ s.started = 1 ∧ s.running = 0 := by
  have ends : (machine.execIf sees (.zero 4 100)
      [.writeFile 1 0, .closeAll, .loadFirst true, .loadSecond, .sort 1 [⟨1, 0, 0⟩],
        .getFile 1 false true, .createFile 1 true, .write 1, .unlock 1, .finish 1,
        .loadFirst true, .loadSecond]).map
        (fun s => s.game == .closing && s.started == 1) = some true := by decide
  obtain ⟨s, run, holds⟩ := Machine.exists_reaches (M := machine) sees_sound ⟨4, 100, rfl⟩ ends
  simp only [Bool.and_eq_true, beq_iff_eq] at holds
  exact ⟨s, holds.1, holds.2, (waits_for_writers s).2 run holds.1⟩

/-- Two writers; one has finished and is being reaped, and `close_all` does not wait for
the other. -/
theorem not_always_waits : ¬ ∀ s, machine.Reachable s → s.game = .closing → s.running = 0 := by
  intro always
  have ends : (machine.exec (.zero 4 100)
      [.writeFile 1 0, .flush, .writeFile 2 0, .sort 1 [⟨1, 0, 0⟩], .getFile 1 false true,
        .createFile 1 true, .write 1, .unlock 1, .finish 1, .closeAll, .reap, .reap,
        .loadFirst true, .loadSecond]).map
        (fun s => s.game == .closing && s.running == 1) = some true := by decide
  obtain ⟨s, run, holds⟩ := Machine.exists_reachable (M := machine) ⟨4, 100, rfl⟩ ends
  simp only [Bool.and_eq_true, beq_iff_eq] at holds
  have := always s run holds.1
  omega

end Refsapi.Log
