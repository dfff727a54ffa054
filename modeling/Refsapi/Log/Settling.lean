/-
# Log.Settling -- what the threads of the log manager wait for

A writer waits for the mutex of a file and, at its end, for the main thread; `close_all` waits
for the writers and for the mutexes of all files.  No circle comes of this: who has locked a
file waits for nothing (`Owned`), and who reaps waits for nothing either.

A step that goes on with what has begun takes something from `work`, so that all writers, a pass
of the main thread and `close_all` come to their end in every interleaving, whatever the disk
answers (`writers_come_to_rest`), unless a second file of a plugin is created next.
-/
import Mathlib
import Refsapi.Lib.Settling
import Refsapi.Log.Files
import Refsapi.Log.Shutdown

namespace Refsapi.Log

set_option autoImplicit false

variable {s s' : State} {a : Action}

/-! ## Who has locked a file -/

/-- The mutex of an open file is held by a writer that has locked it and is about to go on. -/
def Owned (s : State) : Prop :=
  ∀ file h, (s.heap file).isOpen = true → (s.heap file).holder = some h →
    (s.writers h).pc.locked = some file

theorem Owned.setWriter (owned : Owned s) (id : Nat) (w : Writer)
    (keeps : ∀ file, (s.writers id).pc.locked = some file → w.pc.locked = some file) :
    Owned (s.setWriter id w) := by
  intro file h isOpen holds
  have locked := owned file h isOpen holds
  by_cases here : h = id
  · subst here
    simpa [State.setWriter] using keeps file locked
  · simpa [State.setWriter, here] using locked

/-- A writer that has locked nothing. -/
theorem Owned.setWriter_free (owned : Owned s) (id : Nat) (w : Writer)
    (free : (s.writers id).pc.locked = none) : Owned (s.setWriter id w) :=
  owned.setWriter id w fun file locked => by rw [free] at locked; cases locked

theorem Owned.closeFile (owned : Owned s) (amx file : Nat) : Owned (s.closeFile amx file) := by
  intro f h isOpen holds
  by_cases same : f = file
  · subst same
    simp [State.closeFile, State.setFile] at isOpen
  · simp only [State.closeFile, State.setFile, Function.update_of_ne same] at isOpen holds ⊢
    exact owned f h isOpen holds

theorem Owned.noFile (owned : Owned s) {id : Nat} (free : (s.writers id).pc.locked = none)
    (config : Bool) : Owned (s.noFile id config) := by
  unfold State.noFile State.skip
  split
  · exact owned.setWriter_free id _ free
  · exact owned.setWriter_free id _ free

/-- A file changes, and only a writer that has locked nothing else may hold it then. -/
theorem Owned.setFile (owned : Owned s) (file : Nat) (f : File)
    (holds : f.isOpen = true → ∀ h, f.holder = some h → (s.writers h).pc.locked = some file) :
    Owned (s.setFile file f) := by
  intro x h isOpen holder
  by_cases same : x = file
  · subst same
    simp only [State.setFile, Function.update_self] at isOpen holder
    exact holds isOpen h holder
  · simp only [State.setFile, Function.update_of_ne same] at isOpen holder ⊢
    exact owned x h isOpen holder

/-! ## What is left to do -/

/-- The writer is at a record. -/
def WriterPc.atRecord : WriterPc → Bool
  | .getFile | .createFile | .lock _ | .write _ => true
  | _ => false

def Writer.Fed (w : Writer) : Prop := w.pc.atRecord = true → w.buff ≠ []

def WriterPc.work : WriterPc → Nat
  | .sort | .unlock _ => 12
  | .getFile => 11
  | .createFile | .lock _ => 10
  | .write _ => 9
  | .finish => 7
  | .done => 0

/-- What a writer has left to do: every turn takes a record at least. -/
def Writer.work (w : Writer) : Nat := w.pc.work + 5 * w.buff.length

/-- Every finished writer is looked at, and taken off both counters. -/
def State.mainWork (s : State) : Nat :=
  match s.main with
  | .idle => 6 * s.mFinished.length
  | .reap keys => 4 * keys.length + 1
  | .reapFinished keys => 4 * keys.length + 4

/-- A turn of the wait that ends it is one step shorter than one that goes on. -/
def State.gameWork (s : State) : Nat :=
  match s.loadedNum with
  | some num => if num > 0 then 4 else 2
  | none => match s.game with
    | .wait => 3
    | .closing => 1
    | _ => 0

def work (s : State) : Nat :=
  ∑ id ∈ Finset.range (s.started + 1), (s.writers id).work + s.mainWork + s.gameWork

theorem fed_next (buff : List Record) (capacity : Nat) :
    Writer.Fed ⟨State.next buff, buff, capacity⟩ := by
  rintro atRecord rfl
  cases atRecord

theorem work_next (buff : List Record) : (State.next buff).work ≤ 11 := by
  unfold State.next
  split <;> decide

theorem continues_nil (buff : List Record) : State.continues buff [] = false := by
  cases buff <;> rfl

/-- A turn takes a record at least. -/
theorem batch_pos {w : Writer} (sized : 0 < w.capacity) (left : w.buff ≠ []) :
    0 < (State.batch w).length := by
  unfold State.batch
  split
  · next none => exact absurd none left
  · next record rest buff =>
      rw [buff, List.length_take, List.takeWhile_cons_of_pos (by simp), List.length_cons]
      omega

/-! ## A step of a writer -/

/-- A writer has moved on. -/
structure Advances (s s' : State) (id : Nat) (w : Writer) : Prop where
  writers : s'.writers = Function.update s.writers id w
  batchSize : s'.batchSize = s.batchSize
  mFinished : s'.mFinished = s.mFinished
  mThreads : s'.mThreads = s.mThreads
  capacity : w.capacity = (s.writers id).capacity
  fed : (s.writers id).Fed → w.Fed
  less : 0 < (s.writers id).capacity → (s.writers id).Fed → w.work < (s.writers id).work
  owned : Owned s → Owned s'

theorem advances_noFile {id : Nat} {t : State} {record : Record} {rest : List Record}
    (config : Bool) (same : t.writers id = s.writers id) (writers : t.writers = s.writers)
    (batchSize : t.batchSize = s.batchSize) (mFinished : t.mFinished = s.mFinished)
    (mThreads : t.mThreads = s.mThreads) (pc : (s.writers id).pc = .getFile)
    (buff : (s.writers id).buff = record :: rest) (owned : Owned s → Owned t) :
    ∃ w, Advances s (t.noFile id config) id w := by
  have free : (t.writers id).pc.locked = none := by rw [same, pc]; rfl
  cases config with
  | true =>
      refine ⟨{ s.writers id with pc := .createFile }, ?_, batchSize, mFinished, mThreads, rfl,
        ?_, ?_, fun owned' => (owned owned').noFile free true⟩
      · simp [State.noFile, State.setWriter, writers]
      · intro _ _
        simp [buff]
      · intro _ _
        simp [Writer.work, WriterPc.work, pc]
  | false =>
      refine ⟨{ s.writers id with pc := State.next rest, buff := rest }, ?_, batchSize,
        mFinished, mThreads, rfl, fun _ => fed_next rest _, ?_,
        fun owned' => (owned owned').noFile free false⟩
      · simp [State.noFile, State.skip, State.setWriter, writers, buff]
      · intro _ _
        have before : (s.writers id).work = 11 + 5 * (rest.length + 1) := by
          rw [Writer.work, pc, buff]
          rfl
        have next := work_next rest
        rw [before]
        simp only [Writer.work]
        omega

theorem advances_of_writerMove {id : Nat} (writer : WriterMove id a)
    (moved : step s a = some s') : ∃ w, Advances s s' id w := by
  cases writer with
  | @sort order =>
      simp only [step, State.sort] at moved
      split at moved
      · next sorts =>
          cases moved
          simp only [Bool.and_eq_true, beq_iff_eq, List.isPerm_iff] at sorts
          have pc := sorts.1.1
          refine ⟨_, rfl, rfl, rfl, rfl, rfl, fun _ atRecord => ?_, fun _ _ => ?_,
            fun owned => owned.setWriter_free id _ (by rw [pc]; rfl)⟩
          · have left := fed_next order 0 atRecord
            simpa using left
          · have before : (s.writers id).work = 12 + 5 * order.length := by
              rw [Writer.work, pc, sorts.1.2.length_eq]
              rfl
            have next := work_next order
            rw [before]
            simp only [Writer.work, List.length_reverse]
            omega
      · cases moved
  | @getFile fileExists config =>
      simp only [step, State.getFile] at moved
      split at moved
      · next record rest pc buff =>
          split at moved
          · cases moved
            exact advances_noFile config rfl rfl rfl rfl rfl pc buff fun owned => owned
          · next file found =>
            split at moved
            · cases moved
            · split at moved
              · split at moved
                · cases moved
                  exact advances_noFile config rfl rfl rfl rfl rfl pc buff fun owned =>
                    owned.closeFile _ _
                · cases moved
              · cases moved
                refine ⟨_, rfl, rfl, rfl, rfl, rfl, fun _ _ => ?_, fun _ _ => ?_,
                  fun owned => owned.setWriter_free id _ (by rw [pc]; rfl)⟩
                · simp [buff]
                · simp [Writer.work, WriterPc.work, pc]
      · cases moved
  | @createFile opens =>
      simp only [step, State.createFile] at moved
      split at moved
      · next record rest pc buff =>
          have free : (s.writers id).pc.locked = none := by rw [pc]; rfl
          split at moved
          · next opened =>
              cases moved
              refine ⟨{ s.writers id with pc := .write s.nextFile }, rfl, rfl, rfl, rfl, rfl,
                fun _ _ => ?_, fun _ _ => ?_, fun owned => ?_⟩
              · simp [buff]
              · simp [Writer.work, WriterPc.work, pc]
              · have placed := (owned.setWriter_free id
                  { s.writers id with pc := .write s.nextFile } free).setFile
                    s.nextFile ⟨record.amx, opens, some id, false⟩
                    fun _ h holder => by
                      obtain rfl := Option.some.inj holder
                      simp [State.setWriter, WriterPc.locked]
                exact placed
          · next closed =>
              cases moved
              refine ⟨{ s.writers id with pc := State.next rest, buff := rest }, ?_, rfl, rfl,
                rfl, rfl, fun _ => fed_next rest _, fun _ _ => ?_, fun owned => ?_⟩
              · simp [State.skip, State.setWriter, State.setFile, buff]
              · have before : (s.writers id).work = 10 + 5 * (rest.length + 1) := by
                  rw [Writer.work, pc, buff]
                  rfl
                have next := work_next rest
                rw [before]
                simp only [Writer.work]
                omega
              · have placed := (owned.setFile s.nextFile
                  ⟨record.amx, opens, some id, false⟩
                  fun isOpen => absurd isOpen closed).setWriter_free id
                    { s.writers id with pc := State.next rest, buff := rest } free
                intro file h
                simpa [State.skip, State.setWriter, State.setFile, buff] using placed file h
      · cases moved
  | lock =>
      simp only [step, State.lock] at moved
      split at moved
      · next file pc =>
          split at moved
          · cases moved
          · cases moved
            refine ⟨_, rfl, rfl, rfl, rfl, rfl, fun fed _ => ?_, fun _ _ => ?_, fun owned => ?_⟩
            · exact fed (by rw [pc]; rfl)
            · simp [Writer.work, WriterPc.work, pc]
            · have placed := (owned.setWriter_free id { s.writers id with pc := .write file }
                (by rw [pc]; rfl)).setFile file
                  { s.heap file with holder := some id } fun _ h holder => by
                    obtain rfl := Option.some.inj holder
                    simp [State.setWriter, WriterPc.locked]
              exact placed
      · cases moved
  | write =>
      simp only [step, State.write] at moved
      split at moved
      · next file pc =>
          split at moved
          · cases moved
          · cases moved
            refine ⟨_, rfl, rfl, rfl, rfl, rfl, fun _ atRecord => ?_, fun sized fed => ?_,
              fun owned => ?_⟩
            · intro none
              change List.drop _ _ = [] at none
              simp only [none, continues_nil, Bool.false_eq_true, if_false] at atRecord
              cases atRecord
            · have left := fed (by rw [pc]; rfl)
              have taken := batch_pos sized left
              have nonempty := List.length_pos_iff.2 left
              simp only [Writer.work, List.length_drop, pc]
              split <;> simp only [WriterPc.work] <;> omega
            · refine owned.setWriter id _ fun f locked => ?_
              rw [pc] at locked
              obtain rfl : file = f := Option.some.inj locked
              simp only
              split <;> rfl
      · cases moved
  | unlock =>
      simp only [step, State.unlock] at moved
      split at moved
      · next file pc =>
          split at moved
          · cases moved
          · cases moved
            refine ⟨_, rfl, rfl, rfl, rfl, rfl, fun _ => fed_next _ _, fun _ _ => ?_,
              fun owned => ?_⟩
            · have before : (s.writers id).work = 12 + 5 * (s.writers id).buff.length := by
                rw [Writer.work, pc]
                rfl
              have next := work_next (s.writers id).buff
              rw [before]
              simp only [Writer.work]
              omega
            · intro f h isOpen holds
              by_cases same : f = file
              · subst same
                simp [State.setWriter, State.setFile] at holds
              · simp only [State.setWriter, State.setFile, Function.update_of_ne same]
                  at isOpen holds ⊢
                have locked := owned f h isOpen holds
                have other : h ≠ id := by
                  rintro rfl
                  rw [pc] at locked
                  exact same (Option.some.inj locked).symm
                rwa [Function.update_of_ne other]
      · cases moved

/-! ## What holds in every run -/

/-- The writers that the main thread has still to look at. -/
def State.toReap (s : State) : List Nat :=
  match s.main with
  | .idle => s.mFinished
  | .reap keys | .reapFinished keys => keys

/-- A thread that has not been joined runs, or will be looked at. -/
structure Joined (s : State) : Prop where
  number : s.numThreads = s.mThreads.length
  nodup : s.mThreads.Nodup
  inside : ∀ id ∈ s.mThreads, id ≤ s.started
  awaited : ∀ id ∈ s.mThreads, (s.writers id).pc = .done → id ∈ s.toReap

theorem Joined.spawn (joined : Joined s) : Joined s.spawn := by
  have fresh : s.started + 1 ∉ s.mThreads := fun member =>
    absurd (joined.inside _ member) (Nat.not_succ_le_self _)
  refine ⟨?_, ?_, fun id member => ?_, fun id member done => ?_⟩
  · simp [State.spawn, State.setWriter, joined.number]
  · exact List.nodup_append.2 ⟨joined.nodup, List.nodup_singleton _, fun x old y new same =>
      fresh (List.mem_singleton.1 new ▸ same ▸ old)⟩
  · rcases List.mem_append.1 member with old | new
    · exact Nat.le_succ_of_le (joined.inside id old)
    · exact Nat.le_of_eq (List.mem_singleton.1 new)
  · rcases List.mem_append.1 member with old | new
    · have other : id ≠ s.started + 1 := fun same => fresh (same ▸ old)
      refine joined.awaited id old ?_
      simpa [State.spawn, State.setWriter, other] using done
    · obtain rfl := List.mem_singleton.1 new
      simp [State.spawn, State.setWriter] at done

theorem Joined.reap (joined : Joined s) (moved : s.reap = some s') : Joined s' := by
  obtain ⟨number, nodup, inside, awaited⟩ := joined
  unfold State.toReap at awaited
  unfold State.reap at moved
  split at moved
  · next main =>
      cases moved
      exact ⟨number, nodup, inside, by simpa [State.toReap, main] using awaited⟩
  · next key keys main =>
      split at moved
      · next member =>
          cases moved
          refine ⟨?_, nodup.erase key, fun id kept => inside id (List.mem_of_mem_erase kept),
            fun id kept done => ?_⟩
          · have length := List.length_erase_of_mem member
            have nonempty := List.length_pos_of_mem member
            simp only [number]
            omega
          · obtain ⟨other, old⟩ := (nodup.mem_erase_iff).1 kept
            have pending := awaited id old done
            rw [main] at pending
            exact (List.mem_cons.1 pending).resolve_left other
      · next gone =>
          cases moved
          refine ⟨number, nodup, inside, fun id old done => ?_⟩
          have pending := awaited id old done
          rw [main] at pending
          exact (List.mem_cons.1 pending).resolve_left fun same => gone (same ▸ old)
  · next keys main =>
      cases moved
      exact ⟨number, nodup, inside, by simpa [State.toReap, main] using awaited⟩
  · next main =>
      cases moved
      exact ⟨number, nodup, inside, by simpa [State.toReap, main] using awaited⟩

/-- Every writer has a record where it needs one and room for it, and is joined in the end. -/
structure Supplied (s : State) : Prop where
  fed : ∀ id, (s.writers id).Fed
  sized : ∀ id, (s.writers id).pc ≠ .done → s.batchSize ≤ (s.writers id).capacity
  owned : Owned s
  joined : Joined s

theorem Supplied.of_same (supplied : Supplied s) (writers : s'.writers = s.writers)
    (heap : s'.heap = s.heap) (batchSize : s'.batchSize = s.batchSize)
    (joined : Joined s') : Supplied s' := by
  refine ⟨fun id => ?_, fun id busy => ?_, fun file h isOpen holder => ?_, joined⟩
  · rw [writers]
    exact supplied.fed id
  · rw [writers] at busy ⊢
    rw [batchSize]
    exact supplied.sized id busy
  · rw [heap] at isOpen holder
    rw [writers]
    exact supplied.owned file h isOpen holder

theorem Supplied.spawn (supplied : Supplied s) (counted : Counted s) : Supplied s.spawn := by
  have fresh : (s.writers (s.started + 1)).pc = .done := by
    by_contra busy
    have := counted.inside _ busy
    omega
  refine ⟨fun id => ?_, fun id busy => ?_, ?_, supplied.joined.spawn⟩
  · by_cases here : id = s.started + 1
    · subst here
      intro atRecord
      simp [State.spawn, State.setWriter, WriterPc.atRecord] at atRecord
    · simpa [State.spawn, State.setWriter, here] using supplied.fed id
  · by_cases here : id = s.started + 1
    · subst here
      simp only [State.spawn, State.setWriter, Function.update_self, Nat.shiftLeft_eq]
      exact Nat.le_mul_of_pos_right _ (Nat.two_pow_pos _)
    · simp only [State.spawn, State.setWriter, Function.update_of_ne here] at busy ⊢
      exact supplied.sized id busy
  · exact supplied.owned.setWriter_free (s.started + 1) _ (by rw [fresh]; rfl)

theorem Supplied.writeToDisk (supplied : Supplied s) (counted : Counted s) :
    Supplied s.writeToDisk.1 := by
  obtain ⟨number, nodup, inside, awaited⟩ := supplied.joined
  have productivity (n : Nat) : Supplied ({ s with numProductivity := n } : State).spawn := by
    have changed : Supplied { s with numProductivity := n } :=
      supplied.of_same rfl rfl rfl ⟨number, nodup, inside, awaited⟩
    exact changed.spawn
      ⟨counted.inside, counted.threads, counted.finished, counted.running, counted.reaping⟩
  unfold State.writeToDisk
  split
  · exact supplied
  · split
    · split
      · exact productivity _
      · exact supplied
    · split
      · exact productivity _
      · exact supplied.spawn counted

theorem Supplied.writeFile (supplied : Supplied s) (counted : Counted s) (amx : Nat) (time : Int) :
    Supplied (s.writeFile amx time) := by
  have pushed {t : State} (supplied : Supplied t) (r : List Record) (n : Nat) :
      Supplied { t with buffer := r, mSequence := n } := by
    obtain ⟨number, nodup, inside, awaited⟩ := supplied.joined
    exact supplied.of_same rfl rfl rfl ⟨number, nodup, inside, awaited⟩
  unfold State.writeFile
  simp only
  split
  · split
    · exact pushed (supplied.writeToDisk counted) _ _
    · exact supplied.writeToDisk counted
  · exact pushed supplied _ _

theorem Supplied.advance (supplied : Supplied s) {id : Nat} (writer : WriterMove id a)
    (moved : step s a = some s') : Supplied s' := by
  obtain ⟨w, advances⟩ := advances_of_writerMove writer moved
  have quiet := quiet_of_writerMove writer moved
  obtain ⟨number, nodup, inside, awaited⟩ := supplied.joined
  have joined : Joined s' := by
    refine ⟨?_, ?_, ?_, ?_⟩
    · rw [quiet.numThreads, advances.mThreads]
      exact number
    · rw [advances.mThreads]
      exact nodup
    · rw [advances.mThreads, quiet.started]
      exact inside
    · rw [advances.mThreads]
      unfold State.toReap at awaited ⊢
      rw [quiet.main, advances.mFinished]
      exact fun x member done => awaited x member ((quiet.done x).1 done)
  refine ⟨fun x => ?_, fun x busy => ?_, advances.owned supplied.owned, joined⟩
  · rw [advances.writers]
    by_cases here : x = id
    · subst here
      rw [Function.update_self]
      exact advances.fed (supplied.fed x)
    · rw [Function.update_of_ne here]
      exact supplied.fed x
  · have sized := supplied.sized x (mt (quiet.done x).2 busy)
    rw [advances.batchSize, advances.writers]
    by_cases here : x = id
    · subst here
      rwa [Function.update_self, advances.capacity]
    · rwa [Function.update_of_ne here]

theorem writeToDisk_batchSize (s : State) : s.writeToDisk.1.batchSize = s.batchSize := by
  unfold State.writeToDisk
  split
  · rfl
  · split <;> split <;> rfl

theorem reap_same (moved : s.reap = some s') :
    s'.writers = s.writers ∧ s'.heap = s.heap ∧ s'.batchSize = s.batchSize := by
  unfold State.reap at moved
  split at moved
  · cases moved
    exact ⟨rfl, rfl, rfl⟩
  · split at moved <;> cases moved <;> exact ⟨rfl, rfl, rfl⟩
  · cases moved
    exact ⟨rfl, rfl, rfl⟩
  · cases moved
    exact ⟨rfl, rfl, rfl⟩

theorem Supplied.step (supplied : Supplied s) (counted : Counted s)
    (moved : Log.step s a = some s') : Supplied s' ∧ s'.batchSize = s.batchSize := by
  obtain ⟨number, nodup, inside, awaited⟩ := supplied.joined
  have advanced {id : Nat} (writer : WriterMove id a) :
      Supplied s' ∧ s'.batchSize = s.batchSize := by
    obtain ⟨w, advances⟩ := advances_of_writerMove writer moved
    exact ⟨supplied.advance writer moved, advances.batchSize⟩
  cases a with
  | writeFile amx time =>
      simp only [Log.step] at moved
      split at moved
      · cases moved
        split
        · exact ⟨supplied, rfl⟩
        · refine ⟨supplied.writeFile counted amx time, ?_⟩
          have flushed := writeToDisk_batchSize s
          unfold State.writeFile
          simp only
          split
          · split
            · exact flushed
            · exact flushed
          · rfl
      · cases moved
  | flush =>
      simp only [Log.step] at moved
      split at moved
      · cases moved
        exact ⟨supplied.writeToDisk counted, writeToDisk_batchSize s⟩
      · cases moved
  | reap =>
      obtain ⟨writers, heap, batchSize⟩ := reap_same moved
      exact ⟨supplied.of_same writers heap batchSize (supplied.joined.reap moved), batchSize⟩
  | closeAll =>
      simp only [Log.step] at moved
      split at moved
      · cases moved
        have written := supplied.writeToDisk counted
        obtain ⟨number, nodup, inside, awaited⟩ := written.joined
        exact ⟨written.of_same rfl rfl rfl ⟨number, nodup, inside, awaited⟩,
          writeToDisk_batchSize s⟩
      · cases moved
  | loadFirst threads =>
      simp only [Log.step, State.loadFirst] at moved
      split at moved
      · cases moved
        exact ⟨supplied.of_same rfl rfl rfl ⟨number, nodup, inside, awaited⟩, rfl⟩
      · cases moved
  | loadSecond =>
      simp only [Log.step, State.loadSecond] at moved
      obtain ⟨num, -, rfl⟩ := Option.map_eq_some_iff.1 moved
      exact ⟨supplied.of_same rfl rfl rfl ⟨number, nodup, inside, awaited⟩, rfl⟩
  | closeFiles =>
      simp only [Log.step] at moved
      split at moved
      · cases moved
        refine ⟨⟨supplied.fed, supplied.sized, fun file h isOpen holder => ?_,
          ⟨number, nodup, inside, awaited⟩⟩, rfl⟩
        simp only [State.closeFiles] at isOpen holder
        split at isOpen
        · cases isOpen
        · next unlisted =>
            rw [if_neg unlisted] at holder
            exact supplied.owned file h isOpen holder
      · cases moved
  | sort id order => exact advanced .sort
  | getFile id fileExists config => exact advanced .getFile
  | createFile id opens => exact advanced .createFile
  | lock id => exact advanced .lock
  | write id => exact advanced .write
  | unlock id => exact advanced .unlock
  | finish id =>
      simp only [Log.step, State.finish] at moved
      split at moved
      · next last =>
          cases moved
          simp only [Bool.and_eq_true, beq_iff_eq] at last
          have free : (s.writers id).pc.locked = none := by rw [last.1]; rfl
          refine ⟨⟨fun x => ?_, fun x busy => ?_,
            supplied.owned.setWriter_free id { s.writers id with pc := .done } free,
            ⟨number, nodup, inside, fun x member done => ?_⟩⟩, rfl⟩
          · by_cases here : x = id
            · subst here
              intro atRecord
              simp [State.setWriter, WriterPc.atRecord] at atRecord
            · simpa [State.setWriter, here] using supplied.fed x
          · by_cases here : x = id
            · subst here
              simp [State.setWriter] at busy
            · simp only [State.setWriter, Function.update_of_ne here] at busy ⊢
              exact supplied.sized x busy
          · have before := awaited x member
            simp only [State.toReap, State.setWriter, last.2, List.mem_append,
              List.mem_singleton] at before done ⊢
            by_cases here : x = id
            · exact .inr here
            · rw [Function.update_of_ne here] at done
              exact .inl (before done)
      · cases moved

theorem supplied_of_reachable (run : machine.Reachable s) : Supplied s := by
  refine Machine.Reaches.invariant ?_
    (fun _ _ _ run supplied _ moved => (supplied.step (counted_of_reachable run).1 moved).1) run
  rintro _ ⟨maxWriterThreads, batchSize, rfl⟩
  exact ⟨fun id atRecord => (nomatch atRecord), fun id busy => absurd rfl busy,
    fun file h isOpen => (nomatch isOpen), ⟨rfl, List.nodup_nil, fun id member => (nomatch member),
      fun id member => (nomatch member)⟩⟩

/-! ## Steps that go on -/

/-- The step brings in no work: it is not of the game thread outside `close_all`, nor begins a
pass of the main thread with nothing to reap, or a turn of the wait that cannot end it. -/
def GoesOn (s : State) : Action → Prop
  | .writeFile .. | .flush | .closeAll => False
  | .reap => s.main ≠ .idle ∨ s.mFinished ≠ []
  | .loadFirst _ => s.getNumThreads ≤ 0
  | _ => True

/-- What the disk and the table of plugins answer. -/
structure Disk where
  fileExists : State → Nat → Bool
  config : State → Nat → Bool
  opens : State → Nat → Bool

def Disk.Answers (disk : Disk) (s : State) : Action → Prop
  | .getFile id fileExists config => fileExists = disk.fileExists s id ∧ config = disk.config s id
  | .createFile id opens => opens = disk.opens s id
  | _ => True

/-- A careful step that goes on, with the answers of the disk. -/
structure Proceeds (disk : Disk) (s : State) (a : Action) : Prop where
  goesOn : GoesOn s a
  answers : disk.Answers s a
  careful : Careful s a

theorem mainWork_of_same (main : s'.main = s.main) (finished : s'.mFinished = s.mFinished) :
    s'.mainWork = s.mainWork := by
  simp only [State.mainWork, main, finished]

theorem gameWork_of_same (s s' : State) (game : s'.game = s.game)
    (threads : s'.numThreads = s.numThreads) (finished : s'.numFinished = s.numFinished) :
    s'.gameWork = s.gameWork := by
  simp only [State.gameWork, State.loadedNum, game, threads, finished]

/-- A turn of the wait is no longer when there are fewer threads, and is never much longer. -/
theorem gameWork_le (s s' : State) (game : s'.game = s.game) :
    (s'.numThreads ≤ s.numThreads → s.numFinished ≤ s'.numFinished →
      s'.gameWork ≤ s.gameWork) ∧ s'.gameWork ≤ s.gameWork + 2 := by
  simp only [State.gameWork, State.loadedNum, game]
  cases s.game with
  | idle | wait | closing => exact ⟨fun _ _ => Nat.le_refl _, Nat.le_add_right _ _⟩
  | loaded threads value dec inc =>
      cases threads <;> simp only <;> split <;> split <;> omega

theorem work_advance {id : Nat} (supplied : Supplied s) (counted : Counted s)
    (sized : 0 < s.batchSize) (writer : WriterMove id a) (moved : step s a = some s') :
    work s' < work s := by
  obtain ⟨w, advances⟩ := advances_of_writerMove writer moved
  have quiet := quiet_of_writerMove writer moved
  have busy : (s.writers id).pc ≠ .done := by
    intro done
    cases writer <;> simp [step, State.sort, State.getFile, State.createFile, State.lock,
      State.write, State.unlock, done] at moved
  have member : id ∈ Finset.range (s.started + 1) :=
    Finset.mem_range.2 (Nat.lt_succ_of_le (counted.inside id busy).2)
  have sum := Machine.sum_moved (f := fun x => (s.writers x).work)
    (g := fun x => (s'.writers x).work) member fun x other => by
      rw [advances.writers, Function.update_of_ne other]
  have less := advances.less (Nat.lt_of_lt_of_le sized (supplied.sized id busy)) (supplied.fed id)
  have here : (s'.writers id).work = w.work := by rw [advances.writers, Function.update_self]
  rw [work, work, quiet.started, mainWork_of_same quiet.main advances.mFinished,
    gameWork_of_same _ _ quiet.game quiet.numThreads quiet.numFinished]
  omega

theorem work_reap (goesOn : GoesOn s .reap) (moved : s.reap = some s') : work s' < work s := by
  unfold State.reap at moved
  split at moved
  · next main =>
      cases moved
      have game := gameWork_of_same s { s with main := .idle, mFinished := [] } rfl rfl rfl
      simp only [work, State.mainWork, main, game, List.length_nil]
      omega
  · next key keys main =>
      split at moved
      · cases moved
        have game := (gameWork_le s { s with
          main := .reapFinished keys
          mThreads := s.mThreads.erase key
          numThreads := s.numThreads - 1
          decThreads := s.decThreads + 1 } rfl).1 (by simp) (Int.le_refl _)
        simp only [work, State.mainWork, main, List.length_cons]
        omega
      · cases moved
        have game := gameWork_of_same s { s with main := .reap keys } rfl rfl rfl
        simp only [work, State.mainWork, main, game, List.length_cons]
        omega
  · next keys main =>
      cases moved
      have game := (gameWork_le s { s with
        main := .reap keys
        numFinished := s.numFinished - 1
        decFinished := s.decFinished + 1 } rfl).2
      simp only [work, State.mainWork, main]
      omega
  · next main =>
      cases moved
      have game := gameWork_of_same s { s with main := .reap s.mFinished } rfl rfl rfl
      have nonempty : 0 < s.mFinished.length :=
        List.length_pos_iff.2 (goesOn.resolve_left fun busy => busy main)
      simp only [work, State.mainWork, main, game]
      omega

theorem work_finish {id : Nat} (counted : Counted s) (moved : s.finish id = some s') :
    work s' < work s := by
  unfold State.finish at moved
  simp only at moved
  split at moved
  · next last =>
      cases moved
      simp only [Bool.and_eq_true, beq_iff_eq] at last
      have busy : (s.writers id).pc ≠ .done := by simp [last.1]
      have member : id ∈ Finset.range (s.started + 1) :=
        Finset.mem_range.2 (Nat.lt_succ_of_le (counted.inside id busy).2)
      have sum := Machine.sum_moved (f := fun x => (s.writers x).work)
        (g := fun x => (Function.update s.writers id { s.writers id with pc := .done } x).work)
        member fun x other => by rw [Function.update_of_ne other]
      have before : (s.writers id).work = 7 + 5 * (s.writers id).buff.length := by
        rw [Writer.work, last.1]
        rfl
      have after : Writer.work { s.writers id with pc := .done } =
          0 + 5 * (s.writers id).buff.length := rfl
      let t : State := { s.setWriter id { s.writers id with pc := .done } with
        mFinished := s.mFinished ++ [id]
        numFinished := s.numFinished + 1
        incFinished := s.incFinished + 1 }
      have game : t.gameWork ≤ s.gameWork :=
        (gameWork_le s t rfl).1 (Int.le_refl _) (Int.le_add_one (Int.le_refl _))
      have mainBefore : s.mainWork = 6 * s.mFinished.length := by simp only [State.mainWork, last.2]
      have mainAfter : t.mainWork = 6 * (s.mFinished.length + 1) := by
        rw [State.mainWork, show t.main = .idle from last.2]
        simp only [t, List.length_append, List.length_singleton]
      have sum' : ∑ x ∈ Finset.range (s.started + 1), (t.writers x).work + (s.writers id).work =
          ∑ x ∈ Finset.range (s.started + 1), (s.writers x).work +
            (Function.update s.writers id { s.writers id with pc := .done } id).work := sum
      rw [Function.update_self, after, before] at sum'
      show ∑ x ∈ Finset.range (s.started + 1), (t.writers x).work + t.mainWork + t.gameWork < work s
      rw [work, mainBefore, mainAfter]
      omega
  · cases moved

/-- **A step that goes on takes something from the work.** -/
theorem work_lt (run : machine.Reachable s) (sized : 0 < s.batchSize) (goesOn : GoesOn s a)
    (moved : step s a = some s') : work s' < work s := by
  have supplied := supplied_of_reachable run
  have counted := (counted_of_reachable run).1
  have advanced {id : Nat} (writer : WriterMove id a) : work s' < work s :=
    work_advance supplied counted sized writer moved
  cases a with
  | writeFile | flush | closeAll => exact goesOn.elim
  | reap => exact work_reap goesOn moved
  | loadFirst threads =>
      simp only [step, State.loadFirst] at moved
      split at moved
      · next game =>
          cases moved
          have before : s.gameWork = 3 := by simp [State.gameWork, State.loadedNum, game]
          have none : ¬ s.numThreads - s.numFinished > 0 := Int.not_lt.2 goesOn
          have after : State.gameWork { s with
              game :=
                if threads then .loaded true s.numThreads s.decThreads s.incFinished
                else .loaded false s.numFinished s.decFinished s.incFinished } = 2 := by
            cases threads <;> exact if_neg none
          simp only [work, State.mainWork, before, after]
          omega
      · cases moved
  | loadSecond =>
      simp only [step, State.loadSecond] at moved
      obtain ⟨num, isNum, rfl⟩ := Option.map_eq_some_iff.1 moved
      have before : s.gameWork = if num > 0 then 4 else 2 := by
        simp only [State.gameWork, isNum]
      have after : State.gameWork { s with game := if num > 0 then .wait else .closing } =
          if num > 0 then 3 else 1 := by
        by_cases positive : num > 0 <;> simp [State.gameWork, State.loadedNum, positive]
      have fewer : (if num > 0 then 3 else 1) < if num > 0 then 4 else 2 := by
        by_cases positive : num > 0 <;> simp [positive]
      simp only [work, before, after]
      exact Nat.add_lt_add_left fewer _
  | closeFiles =>
      simp only [step] at moved
      split at moved
      · next free =>
          cases moved
          simp only [Bool.and_eq_true, beq_iff_eq] at free
          have before : s.gameWork = 1 := by simp [State.gameWork, State.loadedNum, free.1]
          have after : work s.closeFiles =
              ∑ id ∈ Finset.range (s.started + 1), (s.writers id).work + s.mainWork + 0 := rfl
          rw [after, work, before]
          exact Nat.add_lt_add_left Nat.one_pos _
      · cases moved
  | sort id order => exact advanced .sort
  | getFile id fileExists config => exact advanced .getFile
  | createFile id opens => exact advanced .createFile
  | lock id => exact advanced .lock
  | write id => exact advanced .write
  | unlock id => exact advanced .unlock
  | finish id => exact work_finish counted moved

/-! ## Where no step is left -/

theorem exists_sorted (buff : List Record) :
    ∃ order : List Record, order.Perm buff ∧ order.Pairwise fun a b => less b a = false := by
  have trans (a b c : Record) : (!less b a) = true → (!less c b) = true → (!less c a) = true := by
    simp only [less, Bool.not_eq_true', Bool.or_eq_false_iff, Bool.and_eq_false_iff,
      decide_eq_false_iff_not, beq_eq_false_iff_ne]
    omega
  have total (a b : Record) : ((!less b a) || (!less a b)) = true := by
    simp only [less, Bool.or_eq_true, Bool.not_eq_true', Bool.or_eq_false_iff,
      Bool.and_eq_false_iff, decide_eq_false_iff_not, beq_eq_false_iff_ne]
    omega
  refine ⟨buff.mergeSort fun a b => !less b a, List.mergeSort_perm _ _, ?_⟩
  exact (List.pairwise_mergeSort trans total buff).imp fun sorted => by simpa using sorted

/-- Every writer has returned and was joined, and `close_all` has returned. -/
structure AtRest (s : State) : Prop where
  writers : ∀ id, (s.writers id).pc = .done
  main : s.main = .idle
  finished : s.mFinished = [] ∧ s.numFinished = 0
  threads : s.mThreads = [] ∧ s.numThreads = 0
  game : s.game = .idle

/-- A writer that has found no file for its plugin creates one, and the plugin has got one since. -/
def CreatesAgain (disk : Disk) (s : State) : Prop :=
  ∃ id record, (s.writers id).pc = .createFile ∧ record ∈ (s.writers id).buff.head? ∧
    disk.opens s id = true ∧ s.plugins record.amx ≠ none

section Stuck

variable {disk : Disk} (stuck : machine.Stuck (Proceeds disk) s) (table : Table s)
  (supplied : Supplied s)

include stuck table

theorem not_locked_of_stuck (id file : Nat) :
    (s.writers id).pc.locked ≠ some file := by
  intro locked
  have live := table.safe.live id file (pointer_of_locked locked)
  cases pc : (s.writers id).pc with
  | write f =>
      rw [pc] at locked
      obtain rfl : f = file := Option.some.inj locked
      have none := stuck (.write id) ⟨trivial, trivial, trivial⟩
      simp [machine, step, State.write, pc, live] at none
  | unlock f =>
      rw [pc] at locked
      obtain rfl : f = file := Option.some.inj locked
      have none := stuck (.unlock id) ⟨trivial, trivial, trivial⟩
      simp [machine, step, State.unlock, pc, live] at none
  | _ => simp [pc, WriterPc.locked] at locked

include supplied

theorem unheld_of_stuck {file : Nat} (isOpen : (s.heap file).isOpen = true) :
    (s.heap file).holder = none := by
  cases holder : (s.heap file).holder with
  | none => rfl
  | some h =>
      exact absurd (supplied.owned file h isOpen holder) (not_locked_of_stuck stuck table h file)

theorem not_lock_of_stuck (id file : Nat) : (s.writers id).pc ≠ .lock file := by
  intro pc
  have points : (s.writers id).pc.pointer = some file := by rw [pc]; rfl
  have live := table.safe.live id file points
  have unheld := unheld_of_stuck stuck table supplied (table.pointed id file points)
  have none := stuck (.lock id) ⟨trivial, trivial, trivial⟩
  simp [machine, step, State.lock, pc, live, unheld] at none

omit table supplied in
theorem reaped_of_stuck : s.main = .idle ∧ s.mFinished = [] := by
  by_contra busy
  have goesOn : GoesOn s .reap := by
    by_cases main : s.main = .idle
    · exact .inr fun none => busy ⟨main, none⟩
    · exact .inl main
  have none := stuck .reap ⟨goesOn, trivial, trivial⟩
  simp only [machine, step, State.reap] at none
  split at none
  · cases none
  · split at none <;> cases none
  · cases none
  · cases none

theorem done_of_stuck (once : ¬ CreatesAgain disk s) (id : Nat) : (s.writers id).pc = .done := by
  cases pc : (s.writers id).pc with
  | sort =>
      obtain ⟨order, perm, sorted⟩ := exists_sorted (s.writers id).buff
      have none := stuck (.sort id order) ⟨trivial, trivial, trivial⟩
      simp [machine, step, State.sort, pc, List.isPerm_iff.2 perm, sorted] at none
  | getFile =>
      obtain ⟨record, rest, buff⟩ := List.exists_cons_of_ne_nil
        (supplied.fed id (by rw [pc]; rfl))
      have none := stuck (.getFile id (disk.fileExists s id) (disk.config s id))
        ⟨trivial, ⟨rfl, rfl⟩, fun _ _ _ file _ x => not_lock_of_stuck stuck table supplied x file⟩
      simp only [machine, step, State.getFile, pc, buff] at none
      split at none
      · cases none
      · next file found =>
          obtain ⟨-, live, isOpen, -⟩ := table.listed _ _ found
          rw [live, unheld_of_stuck stuck table supplied isOpen] at none
          simp only [Bool.false_eq_true, if_false] at none
          split at none <;> cases none
  | createFile =>
      obtain ⟨record, rest, buff⟩ := List.exists_cons_of_ne_nil
        (supplied.fed id (by rw [pc]; rfl))
      have first : Careful s (.createFile id (disk.opens s id)) := by
        intro opens record head
        by_contra found
        exact once ⟨id, record, pc, head, opens, found⟩
      have none := stuck (.createFile id (disk.opens s id)) ⟨trivial, rfl, first⟩
      simp only [machine, step, State.createFile, pc, buff] at none
      split at none <;> cases none
  | lock file => exact absurd pc (not_lock_of_stuck stuck table supplied id file)
  | write file | unlock file =>
      have locked : (s.writers id).pc.locked = some file := by rw [pc]; rfl
      exact absurd locked (not_locked_of_stuck stuck table id file)
  | finish =>
      have none := stuck (.finish id) ⟨trivial, trivial, trivial⟩
      simp [machine, step, State.finish, pc, (reaped_of_stuck stuck).1] at none
  | done => rfl

theorem atRest_of_stuck (counted : Counted s) (once : ¬ CreatesAgain disk s) : AtRest s := by
  have done := done_of_stuck stuck table supplied once
  obtain ⟨main, reaped⟩ := reaped_of_stuck stuck
  have running : s.running = 0 := by
    refine slots_eq_zero fun id _ _ => ?_
    simp [done id]
  have getNumThreads : s.numThreads - s.numFinished = 0 := by
    obtain ⟨-, threads, finished, all, reaping⟩ := counted
    simp only [main, MainPc.between, Bool.toNat_false] at reaping
    omega
  have mThreads : s.mThreads = [] := by
    refine List.eq_nil_iff_forall_not_mem.2 fun id member => ?_
    have pending := supplied.joined.awaited id member (done id)
    simp [State.toReap, main, reaped] at pending
  have numThreads : s.numThreads = 0 := by rw [supplied.joined.number, mThreads]; rfl
  refine ⟨done, main, ⟨reaped, by omega⟩, ⟨mThreads, numThreads⟩, ?_⟩
  cases game : s.game with
  | idle => rfl
  | wait =>
      have none := stuck (.loadFirst true) ⟨Int.le_of_eq getNumThreads, trivial, trivial⟩
      simp [machine, step, State.loadFirst, game] at none
  | loaded threads value dec inc =>
      have none := stuck .loadSecond ⟨trivial, trivial, trivial⟩
      cases threads <;> simp [machine, step, State.loadSecond, State.loadedNum, game] at none
  | closing =>
      have none := stuck .closeFiles
        ⟨trivial, trivial, fun id file => not_lock_of_stuck stuck table supplied id file⟩
      have filesFree : s.filesFree = true := by
        refine List.all_eq_true.2 fun file _ => ?_
        by_cases listed : s.plugins (s.heap file).amx = some file
        · have isOpen := (table.listed _ _ listed).2.2.1
          simp [unheld_of_stuck stuck table supplied isOpen]
        · simp [listed]
      simp [machine, step, game, filesFree] at none

end Stuck

/-- **The log manager comes to rest.**  From every state that careful steps lead to, in every
interleaving of the writers, the main thread and `close_all`, and whatever the disk answers, what
has begun comes to its end: not more than `work s` steps are left, and where no step is left all
writers have returned and were joined and `close_all` has returned, unless a writer creates a
file for a plugin that has got one since it looked. -/
theorem writers_come_to_rest (disk : Disk) (run : machine.Reaches Careful s)
    (sized : 0 < s.batchSize) :
    (∀ n t, machine.Runs (Proceeds disk) n s t → n ≤ work s ∧
      (machine.Stuck (Proceeds disk) t → AtRest t ∨ CreatesAgain disk t)) ∧
    ∃ n t, machine.Runs (Proceeds disk) n s t ∧ (AtRest t ∨ CreatesAgain disk t) := by
  let good (s : State) : Prop := machine.Reaches Careful s ∧ 0 < s.batchSize
  have keep : ∀ s a s', good s → Proceeds disk s a → machine.step s a = some s' → good s' := by
    intro s a s' holds proceeds moved
    have reachable := holds.1.reachable
    have same := ((supplied_of_reachable reachable).step (counted_of_reachable reachable).1 moved).2
    exact ⟨holds.1.step proceeds.careful moved, Nat.lt_of_lt_of_eq holds.2 same.symm⟩
  have less : ∀ s a s', good s → Proceeds disk s a → machine.step s a = some s' →
      work s' < work s := fun s a s' holds proceeds moved =>
    work_lt holds.1.reachable holds.2 proceeds.goesOn moved
  have rests {n : Nat} {t : State} (runs : machine.Runs (Proceeds disk) n s t)
      (stuck : machine.Stuck (Proceeds disk) t) : AtRest t ∨ CreatesAgain disk t := by
    have reached := (runs.keeps keep ⟨run, sized⟩).1
    by_cases again : CreatesAgain disk t
    · exact .inr again
    · exact .inl (atRest_of_stuck stuck (table_of_reaches reached)
        (supplied_of_reachable reached.reachable) (counted_of_reachable reached.reachable).1 again)
  refine ⟨fun n t runs => ⟨?_, rests runs⟩, ?_⟩
  · have bound := runs.length_le keep less ⟨run, sized⟩
    omega
  · obtain ⟨n, t, runs, stuck⟩ := Machine.exists_stuck keep less ⟨run, sized⟩
    exact ⟨n, t, runs, rests runs stuck⟩

/-- Every file is there, every plugin is known and every file can be opened. -/
def Disk.plain : Disk := ⟨fun _ _ => true, fun _ _ => true, fun _ _ => true⟩

/-- A writer writes, another waits for its file, and `close_all` waits for both. -/
def bothAtWork : List Action :=
  [.writeFile 1 0, .flush, .writeFile 1 1, .flush, .sort 1 [⟨1, 0, 0⟩], .sort 2 [⟨1, 1, 1⟩],
    .getFile 1 true true, .createFile 1 true, .getFile 2 true true, .closeAll]

theorem writers_come_to_rest_waiting : ∃ s : State,
    ((s.writers 1).pc = .write 0 ∧ (s.writers 2).pc = .lock 0 ∧ s.game = .wait) ∧
      (∀ n t, machine.Runs (Proceeds .plain) n s t → n ≤ 32) ∧
      ∃ n t, machine.Runs (Proceeds .plain) n s t ∧ (AtRest t ∨ CreatesAgain .plain t) := by
  have ends : (machine.execIf careful (.zero 4 100) bothAtWork).map (fun s =>
      (s.writers 1).pc == .write 0 && (s.writers 2).pc == .lock 0 && s.game == .wait &&
        work s == 32 && s.batchSize == 100) = some true := by decide +kernel
  obtain ⟨s, run, holds⟩ := Machine.exists_reaches (M := machine) careful_sound ⟨4, 100, rfl⟩ ends
  simp only [Bool.and_eq_true, beq_iff_eq] at holds
  obtain ⟨bound, rests⟩ := writers_come_to_rest .plain run (by rw [holds.2]; decide)
  exact ⟨s, ⟨holds.1.1.1.1, holds.1.1.1.2, holds.1.1.2⟩,
    fun n t runs => holds.1.2 ▸ (bound n t runs).1, rests⟩

end Refsapi.Log
