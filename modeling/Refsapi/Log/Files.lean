/-
# Log.Files -- the table of open log files

A writer finds the file of a plugin, creates it if there is none, and locks it,
in steps of its own.  The table is right as long as the file that is open for a
plugin is the one in `plugins`, and no writer points to a file that has been
deleted (`Safe`).  Two steps break it: creating a file for a plugin that has got
one since the writer looked, and closing a file that another writer has looked up
and not yet locked.  Every other step keeps it (`Table.step`).
-/
import Refsapi.Log.Model

namespace Refsapi.Log

set_option autoImplicit false

variable {s s' : State} {a : Action}

/-! ## The invariant -/

/-- The file that the next step of a writer touches. -/
def WriterPc.pointer : WriterPc → Option Nat
  | .lock file | .write file | .unlock file => some file
  | _ => none

/-- The file that a writer has locked. -/
def WriterPc.locked : WriterPc → Option Nat
  | .write file | .unlock file => some file
  | _ => none

/-- The open file of a plugin is the one in `plugins`, and nothing that may still be
touched has been deleted. -/
structure Safe (s : State) : Prop where
  only : ∀ file, (s.heap file).isOpen = true → s.plugins (s.heap file).amx = some file
  listed : ∀ amx file, s.plugins amx = some file → (s.heap file).deleted = false
  live : ∀ id file, (s.writers id).pc.pointer = some file → (s.heap file).deleted = false

/-- At most one file is open for a plugin. -/
theorem Safe.unique (safe : Safe s) {f g : Nat} (openF : (s.heap f).isOpen = true)
    (openG : (s.heap g).isOpen = true) (same : (s.heap f).amx = (s.heap g).amx) : f = g := by
  have listedF := safe.only f openF
  rw [same, safe.only g openG] at listedF
  exact (Option.some.inj listedF).symm

/-- What the table and the writers that use it have to do with each other. -/
structure Table (s : State) : Prop where
  only : ∀ file, (s.heap file).isOpen = true → s.plugins (s.heap file).amx = some file
  listed : ∀ amx file, s.plugins amx = some file → file < s.nextFile ∧
    (s.heap file).deleted = false ∧ (s.heap file).isOpen = true ∧ (s.heap file).amx = amx
  pointed : ∀ id file, (s.writers id).pc.pointer = some file → (s.heap file).isOpen = true
  held : ∀ id file, (s.writers id).pc.locked = some file → (s.heap file).holder = some id

theorem Table.safe (table : Table s) : Safe s where
  only := table.only
  listed amx file isListed := (table.listed amx file isListed).2.1
  live id file points :=
    (table.listed _ _ (table.only file (table.pointed id file points))).2.1

theorem pointer_of_locked {pc : WriterPc} {file : Nat} (locked : pc.locked = some file) :
    pc.pointer = some file := by
  cases pc <;> simp_all [WriterPc.locked, WriterPc.pointer]

theorem locked_or_lock {pc : WriterPc} {file : Nat} (points : pc.pointer = some file) :
    pc = .lock file ∨ pc.locked = some file := by
  cases pc <;> simp_all [WriterPc.locked, WriterPc.pointer]

@[simp] theorem pointer_next (buff : List Record) : (State.next buff).pointer = none := by
  unfold State.next
  split <;> rfl

/-- An open file has been created. -/
theorem Table.lt (table : Table s) {file : Nat} (isOpen : (s.heap file).isOpen = true) :
    file < s.nextFile :=
  (table.listed _ _ (table.only file isOpen)).1

/-! ## Steps that leave the table alone -/

/-- Nothing but writers has changed, and what they point to was pointed to before. -/
structure Unfiled (s s' : State) : Prop where
  heap : s'.heap = s.heap
  plugins : s'.plugins = s.plugins
  nextFile : s'.nextFile = s.nextFile
  pointed : ∀ id file, (s'.writers id).pc.pointer = some file →
    (s.writers id).pc.pointer = some file
  held : ∀ id file, (s'.writers id).pc.locked = some file → (s.writers id).pc.locked = some file

theorem Table.of_unfiled (table : Table s) (same : Unfiled s s') : Table s' := by
  obtain ⟨heap, plugins, nextFile, pointed, held⟩ := same
  refine ⟨?_, ?_, fun id file points => ?_, fun id file locks => ?_⟩
  · rw [heap, plugins]
    exact table.only
  · rw [heap, plugins, nextFile]
    exact table.listed
  · rw [heap]
    exact table.pointed id file (pointed id file points)
  · rw [heap]
    exact table.held id file (held id file locks)

/-- A writer that no longer points to a file. -/
theorem unfiled_setWriter (id : Nat) (w : Writer) (free : w.pc.pointer = none) :
    Unfiled s (s.setWriter id w) := by
  have unlocked : w.pc.locked = none := by
    cases locked : w.pc.locked with
    | none => rfl
    | some file =>
        rw [pointer_of_locked locked] at free
        cases free
  refine ⟨rfl, rfl, rfl, fun x file points => ?_, fun x file locks => ?_⟩
  · by_cases here : x = id
    · subst here
      simp [State.setWriter, free] at points
    · simpa [State.setWriter, here] using points
  · by_cases here : x = id
    · subst here
      simp [State.setWriter, unlocked] at locks
    · simpa [State.setWriter, here] using locks

theorem unfiled_noFile (id : Nat) (config : Bool) : Unfiled s (s.noFile id config) := by
  unfold State.noFile State.skip
  split
  · exact unfiled_setWriter id _ rfl
  · exact unfiled_setWriter id _ (pointer_next _)

theorem unfiled_writeToDisk (s : State) : Unfiled s s.writeToDisk.1 := by
  have spawned (n : Nat) : Unfiled s ({ s with numProductivity := n } : State).spawn :=
    have same := unfiled_setWriter (s := s) (s.started + 1)
      ⟨.sort, s.buffer, s.batchSize <<< (s.maxProductivity - n)⟩ rfl
    ⟨rfl, rfl, rfl, same.pointed, same.held⟩
  have unchanged : Unfiled s s := ⟨rfl, rfl, rfl, fun _ _ => id, fun _ _ => id⟩
  unfold State.writeToDisk
  split
  · exact unchanged
  · split
    · split
      · exact spawned _
      · exact unchanged
    · split
      · exact spawned _
      · exact spawned s.numProductivity

theorem unfiled_writeFile (s : State) (amx : Nat) (time : Int) :
    Unfiled s (s.writeFile amx time) := by
  obtain ⟨heap, plugins, nextFile, pointed, held⟩ := unfiled_writeToDisk s
  unfold State.writeFile
  simp only
  split
  · split
    · exact ⟨heap, plugins, nextFile, pointed, held⟩
    · exact ⟨heap, plugins, nextFile, pointed, held⟩
  · exact ⟨rfl, rfl, rfl, fun _ _ => id, fun _ _ => id⟩

theorem unfiled_reap (moved : s.reap = some s') : Unfiled s s' := by
  unfold State.reap at moved
  split at moved
  · cases moved
    exact ⟨rfl, rfl, rfl, fun _ _ => id, fun _ _ => id⟩
  · split at moved <;> cases moved <;> exact ⟨rfl, rfl, rfl, fun _ _ => id, fun _ _ => id⟩
  · cases moved
    exact ⟨rfl, rfl, rfl, fun _ _ => id, fun _ _ => id⟩
  · cases moved
    exact ⟨rfl, rfl, rfl, fun _ _ => id, fun _ _ => id⟩

/-! ## Looking a file up and creating it -/

/-- A file that is listed, and that nobody waits for or holds, may go. -/
theorem Table.closeFile (table : Table s) {amx file : Nat} (listed : s.plugins amx = some file)
    (free : (s.heap file).holder = none) (alone : ∀ id, (s.writers id).pc ≠ .lock file) :
    Table (s.closeFile amx file) := by
  have other {f : Nat} (isOpen : ((s.closeFile amx file).heap f).isOpen = true) : f ≠ file := by
    rintro rfl
    simp [State.closeFile, State.setFile] at isOpen
  refine ⟨fun f isOpen => ?_, fun amx' f isListed => ?_, fun id f points => ?_,
    fun id f locks => ?_⟩
  · have ne := other isOpen
    simp only [State.closeFile, State.setFile, Function.update_of_ne ne] at isOpen ⊢
    have found := table.only f isOpen
    rw [Function.update_of_ne]
    · exact found
    · intro same
      rw [same, listed] at found
      exact ne (Option.some.inj found).symm
  · simp only [State.closeFile] at isListed
    by_cases same : amx' = amx
    · subst same
      simp at isListed
    · rw [Function.update_of_ne same] at isListed
      obtain ⟨low, kept, isOpen, owner⟩ := table.listed amx' f isListed
      have ne : f ≠ file := by
        rintro rfl
        exact same (owner.symm.trans (table.listed amx f listed).2.2.2)
      simp only [State.closeFile, State.setFile, Function.update_of_ne ne]
      exact ⟨low, kept, isOpen, owner⟩
  · have ne : f ≠ file := by
      rintro rfl
      rcases locked_or_lock points with waits | locked
      · exact alone id waits
      · rw [table.held id f locked] at free
        cases free
    simp only [State.closeFile, State.setFile, Function.update_of_ne ne]
    exact table.pointed id f points
  · have holds := table.held id f locks
    have ne : f ≠ file := by
      rintro rfl
      rw [holds] at free
      cases free
    simp only [State.closeFile, State.setFile, Function.update_of_ne ne]
    exact holds

/-- A writer comes to point to a file that is open, and has locked it or not. -/
theorem Table.point (table : Table s) (id : Nat) (w : Writer) {file : Nat}
    (isOpen : (s.heap file).isOpen = true) (points : w.pc.pointer = some file)
    (holds : w.pc.locked = some file → (s.heap file).holder = some id) :
    Table (s.setWriter id w) := by
  refine ⟨table.only, table.listed, fun x f pointsX => ?_, fun x f locks => ?_⟩
  · by_cases here : x = id
    · subst here
      simp only [State.setWriter, Function.update_self, points, Option.some.injEq] at pointsX
      exact pointsX ▸ isOpen
    · exact table.pointed x f (by simpa [State.setWriter, here] using pointsX)
  · by_cases here : x = id
    · subst here
      simp only [State.setWriter, Function.update_self] at locks
      have same := pointer_of_locked locks
      rw [points] at same
      obtain rfl := Option.some.inj same
      exact holds locks
    · exact table.held x f (by simpa [State.setWriter, here] using locks)

/-- A new file in a place that nothing refers to. -/
theorem Table.setFile_new (table : Table s) (f : File) (isClosed : f.isOpen = false) :
    Table { s.setFile s.nextFile f with nextFile := s.nextFile + 1 } := by
  have old {file : Nat} (isOpen : (s.heap file).isOpen = true) : file ≠ s.nextFile :=
    Nat.ne_of_lt (table.lt isOpen)
  refine ⟨fun file isOpen => ?_, fun amx file listed => ?_, fun id file points => ?_,
    fun id file locks => ?_⟩
  · by_cases new : file = s.nextFile
    · subst new
      simp [State.setFile, isClosed] at isOpen
    · simp only [State.setFile, Function.update_of_ne new] at isOpen ⊢
      exact table.only file isOpen
  · obtain ⟨low, kept, isOpen, owner⟩ := table.listed amx file listed
    simp only [State.setFile, Function.update_of_ne (old isOpen)]
    exact ⟨Nat.lt_succ_of_lt low, kept, isOpen, owner⟩
  · have isOpen := table.pointed id file points
    simpa only [State.setFile, Function.update_of_ne (old isOpen)] using isOpen
  · have isOpen := table.pointed id file (pointer_of_locked locks)
    simpa only [State.setFile, Function.update_of_ne (old isOpen)] using table.held id file locks

/-- The new file is open, and is the first of its plugin. -/
theorem Table.setFile_open (table : Table s) (id : Nat) {amx : Nat} (first : s.plugins amx = none) :
    Table { s.setFile s.nextFile ⟨amx, true, some id, false⟩ with
      nextFile := s.nextFile + 1
      plugins := Function.update s.plugins amx (some ((s.plugins amx).getD s.nextFile)) } := by
  rw [first, Option.getD_none]
  have old {file : Nat} (isOpen : (s.heap file).isOpen = true) : file ≠ s.nextFile :=
    Nat.ne_of_lt (table.lt isOpen)
  refine ⟨fun file isOpen => ?_, fun amx' file listed => ?_, fun x file points => ?_,
    fun x file locks => ?_⟩
  · by_cases new : file = s.nextFile
    · subst new
      simp [State.setFile]
    · simp only [State.setFile, Function.update_of_ne new] at isOpen ⊢
      have found := table.only file isOpen
      rw [Function.update_of_ne]
      · exact found
      · intro same
        rw [same, first] at found
        cases found
  · by_cases same : amx' = amx
    · subst same
      simp only [Function.update_self, Option.some.injEq] at listed
      subst listed
      simp [State.setFile]
    · simp only [Function.update_of_ne same] at listed
      obtain ⟨low, kept, isOpen, owner⟩ := table.listed amx' file listed
      simp only [State.setFile, Function.update_of_ne (old isOpen)]
      exact ⟨Nat.lt_succ_of_lt low, kept, isOpen, owner⟩
  · have isOpen := table.pointed x file points
    simpa only [State.setFile, Function.update_of_ne (old isOpen)] using isOpen
  · have isOpen := table.pointed x file (pointer_of_locked locks)
    simpa only [State.setFile, Function.update_of_ne (old isOpen)] using table.held x file locks

/-! ## Locking and unlocking -/

/-- A mutex that no writer holds changes its holder. -/
theorem Table.setHolder (table : Table s) {file : Nat} (holder : Option Nat)
    (free : ∀ id, (s.writers id).pc.locked ≠ some file) :
    Table (s.setFile file { s.heap file with holder := holder }) := by
  have amx (f : Nat) : ((s.setFile file { s.heap file with holder := holder }).heap f).amx =
      (s.heap f).amx := by
    by_cases same : f = file
    · subst same
      simp [State.setFile]
    · simp [State.setFile, same]
  have isOpen (f : Nat) : ((s.setFile file { s.heap file with holder := holder }).heap f).isOpen =
      (s.heap f).isOpen := by
    by_cases same : f = file
    · subst same
      simp [State.setFile]
    · simp [State.setFile, same]
  have deleted (f : Nat) : ((s.setFile file { s.heap file with holder := holder }).heap f).deleted =
      (s.heap f).deleted := by
    by_cases same : f = file
    · subst same
      simp [State.setFile]
    · simp [State.setFile, same]
  refine ⟨fun f opens => ?_, fun plugin f listed => ?_, fun id f points => ?_,
    fun id f locks => ?_⟩
  · rw [amx]
    exact table.only f ((isOpen f).symm.trans opens)
  · rw [amx, isOpen, deleted]
    exact table.listed plugin f listed
  · rw [isOpen]
    exact table.pointed id f points
  · have ne : f ≠ file := fun same => free id (same ▸ locks)
    simpa only [State.setFile, Function.update_of_ne ne] using table.held id f locks

theorem Table.lock (table : Table s) {id : Nat} (moved : s.lock id = some s') : Table s' := by
  simp only [State.lock] at moved
  split at moved
  · next file pc =>
      split at moved
      · cases moved
      · next free =>
          cases moved
          simp only [Bool.or_eq_true, not_or] at free
          have isOpen := table.pointed id file (by rw [pc]; rfl)
          have unheld (x : Nat) : (s.writers x).pc.locked ≠ some file := by
            intro locks
            rw [table.held x file locks] at free
            exact free.2 rfl
          exact (table.setHolder (some id) unheld).point id _
            (by simpa [State.setFile] using isOpen) rfl
            fun _ => by simp [State.setFile]
  · cases moved

theorem Table.unlock (table : Table s) {id : Nat} (moved : s.unlock id = some s') : Table s' := by
  simp only [State.unlock] at moved
  split at moved
  · next file pc =>
      split at moved
      · cases moved
      · cases moved
        have holds := table.held id file (by rw [pc]; rfl)
        have left := table.of_unfiled (unfiled_setWriter id
          { s.writers id with pc := State.next (s.writers id).buff } (pointer_next _))
        refine left.setHolder none fun x locks => ?_
        by_cases here : x = id
        · subst here
          have points := pointer_of_locked locks
          simp [State.setWriter] at points
        · simp only [State.setWriter, Function.update_of_ne here] at locks
          rw [table.held x file locks] at holds
          exact here (Option.some.inj holds)
  · cases moved

theorem Table.write (table : Table s) {id : Nat} (moved : s.write id = some s') : Table s' := by
  simp only [State.write] at moved
  split at moved
  · next file pc =>
      split at moved
      · cases moved
      · cases moved
        have isOpen := table.pointed id file (by rw [pc]; rfl)
        have holds := table.held id file (by rw [pc]; rfl)
        obtain ⟨only, listed, pointed, held⟩ := table.point id { s.writers id with
          pc := if State.continues (s.writers id).buff ((s.writers id).buff.drop
            (State.batch (s.writers id)).length) then .write file else .unlock file,
          buff := (s.writers id).buff.drop (State.batch (s.writers id)).length }
          isOpen (by split <;> rfl) fun _ => holds
        exact ⟨only, listed, pointed, held⟩
  · cases moved

/-! ## One step -/

/-- A file is created open only for a plugin that has none, and closed only when no writer
waits to lock it. -/
def Careful (s : State) : Action → Prop
  | .getFile id fileExists _ => fileExists = false → ∀ record ∈ (s.writers id).buff.head?,
      ∀ file, s.plugins record.amx = some file → ∀ x, (s.writers x).pc ≠ .lock file
  | .createFile id opens => opens = true → ∀ record ∈ (s.writers id).buff.head?,
      s.plugins record.amx = none
  | .closeFiles => ∀ id file, (s.writers id).pc ≠ .lock file
  | _ => True

theorem Table.getFile (table : Table s) {id : Nat} {fileExists config : Bool}
    (careful : Careful s (.getFile id fileExists config))
    (moved : s.getFile id fileExists config = some s') : Table s' := by
  simp only [State.getFile] at moved
  split at moved
  · next record rest pc buff =>
      split at moved
      · cases moved
        exact table.of_unfiled (unfiled_noFile id config)
      · next file found =>
        split at moved
        · cases moved
        · split at moved
          · next gone =>
              simp only [Bool.and_eq_true, Bool.not_eq_eq_eq_not, Bool.not_true] at gone
              split at moved
              · next free =>
                  cases moved
                  have alone := careful gone.2 record (by simp [buff]) file found
                  exact (table.closeFile found free alone).of_unfiled (unfiled_noFile id config)
              · cases moved
          · cases moved
            exact table.point id _ (table.listed _ _ found).2.2.1 rfl fun locks => nomatch locks
  · cases moved

theorem Table.createFile (table : Table s) {id : Nat} {opens : Bool}
    (careful : Careful s (.createFile id opens)) (moved : s.createFile id opens = some s') :
    Table s' := by
  simp only [State.createFile] at moved
  split at moved
  · next record rest pc buff =>
      cases opens with
      | true =>
          have first := careful rfl record (by simp [buff])
          cases moved
          obtain ⟨only, listed, pointed, held⟩ := (table.setFile_open id first).point id
            { s.writers id with pc := .write s.nextFile }
            (by simp [State.setFile]) rfl
            fun _ => by simp [State.setFile]
          exact ⟨only, listed, pointed, held⟩
      | false =>
          cases moved
          exact (table.setFile_new ⟨record.amx, false, some id, false⟩ rfl).of_unfiled
            (unfiled_setWriter id _ (pointer_next _))
  · cases moved

theorem Table.closeFiles (table : Table s) (careful : Careful s .closeFiles)
    (free : s.filesFree = true) : Table s.closeFiles := by
  have closed {file : Nat} (isOpen : (s.heap file).isOpen = true) :
      (s.closeFiles.heap file).isOpen = false := by
    simp [State.closeFiles, table.only file isOpen]
  have points {id file : Nat} : (s.writers id).pc.pointer ≠ some file := by
    intro points
    rcases locked_or_lock points with waits | locked
    · exact careful id file waits
    · have listed := table.only file (table.pointed id file points)
      have low := (table.listed _ _ listed).1
      have := List.all_eq_true.1 free file (List.mem_range.2 low)
      simp [listed, table.held id file locked] at this
  refine ⟨fun file isOpen => ?_, fun amx file listed => ?_, fun id file points' => ?_,
    fun id file locks => ?_⟩
  · cases before : (s.heap file).isOpen with
    | true =>
        rw [closed before] at isOpen
        cases isOpen
    | false =>
        simp only [State.closeFiles] at isOpen
        split at isOpen
        · cases isOpen
        · rw [before] at isOpen
          cases isOpen
  · cases listed
  · exact absurd points' points
  · exact absurd (pointer_of_locked locks) points

/-- Every careful step keeps the table. -/
theorem Table.step (table : Table s) (careful : Careful s a) (moved : step s a = some s') :
    Table s' := by
  cases a with
  | writeFile amx time =>
      simp only [Log.step] at moved
      split at moved
      · cases moved
        split
        · exact table
        · exact table.of_unfiled (unfiled_writeFile s amx time)
      · cases moved
  | flush =>
      simp only [Log.step] at moved
      split at moved
      · cases moved
        exact table.of_unfiled (unfiled_writeToDisk s)
      · cases moved
  | reap => exact table.of_unfiled (unfiled_reap moved)
  | closeAll =>
      simp only [Log.step] at moved
      split at moved
      · cases moved
        obtain ⟨only, listed, pointed, held⟩ := table.of_unfiled (unfiled_writeToDisk s)
        exact ⟨only, listed, pointed, held⟩
      · cases moved
  | loadFirst threads =>
      simp only [Log.step, State.loadFirst] at moved
      split at moved
      · cases moved
        exact ⟨table.only, table.listed, table.pointed, table.held⟩
      · cases moved
  | loadSecond =>
      simp only [Log.step, State.loadSecond] at moved
      obtain ⟨num, -, rfl⟩ := Option.map_eq_some_iff.1 moved
      exact ⟨table.only, table.listed, table.pointed, table.held⟩
  | closeFiles =>
      simp only [Log.step] at moved
      split at moved
      · next free =>
          cases moved
          exact table.closeFiles careful (by simp only [Bool.and_eq_true] at free; exact free.2)
      · cases moved
  | sort id order =>
      simp only [Log.step, State.sort] at moved
      split at moved
      · cases moved
        exact table.of_unfiled (unfiled_setWriter id _ (pointer_next _))
      · cases moved
  | getFile id fileExists config => exact table.getFile careful moved
  | createFile id opens => exact table.createFile careful moved
  | lock id => exact table.lock moved
  | write id => exact table.write moved
  | unlock id => exact table.unlock moved
  | finish id =>
      simp only [Log.step, State.finish] at moved
      split at moved
      · cases moved
        obtain ⟨only, listed, pointed, held⟩ := table.of_unfiled
          (unfiled_setWriter id { s.writers id with pc := .done } rfl)
        exact ⟨only, listed, pointed, held⟩
      · cases moved

/-! ## Every run -/

/-- A step that is not careful shows at once. -/
theorem Table.not_safe (table : Table s) (careless : ¬ Careful s a)
    (moved : Log.step s a = some s') : ¬ Safe s' := by
  intro safe
  cases a with
  | getFile id fileExists config =>
      simp only [Careful, Classical.not_imp, not_forall, not_not] at careless
      obtain ⟨gone, record, head, file, listed, x, waits⟩ := careless
      obtain ⟨rest, buff⟩ := List.head?_eq_some_iff.1 head
      have isOpen := (table.listed _ _ listed).2.2.1
      have ne : x ≠ id := by
        rintro rfl
        simp only [Log.step, State.getFile, waits] at moved
        cases moved
      simp only [Log.step, State.getFile, buff, gone] at moved
      split at moved
      · next hBuff =>
          obtain ⟨rfl, rfl⟩ := List.cons.inj hBuff
          simp only [listed, isOpen, (table.listed _ _ listed).2.1, Bool.false_eq_true, if_false,
            Bool.not_false, Bool.and_self, if_true] at moved
          split at moved
          · cases moved
            have live := safe.live x file
            have same : ((s.closeFile record.amx file).noFile id config).writers x =
                s.writers x := by
              unfold State.noFile State.skip
              split <;> simp [State.setWriter, State.closeFile, State.setFile, ne]
            rw [same, waits] at live
            have deleted :
                (((s.closeFile record.amx file).noFile id config).heap file).deleted = true := by
              unfold State.noFile State.skip
              split <;> simp [State.setWriter, State.closeFile, State.setFile]
            rw [deleted] at live
            cases live rfl
          · cases moved
      · cases moved
  | createFile id opens =>
      simp only [Careful, Classical.not_imp, not_forall] at careless
      obtain ⟨rfl, record, head, listed⟩ := careless
      obtain ⟨rest, buff⟩ := List.head?_eq_some_iff.1 head
      obtain ⟨file, listed⟩ := Option.ne_none_iff_exists'.1 listed
      have low := (table.listed _ _ listed).1
      simp only [Log.step, State.createFile, buff] at moved
      split at moved
      · next hBuff =>
          obtain ⟨rfl, rfl⟩ := List.cons.inj hBuff
          cases moved
          have only := safe.only s.nextFile (by simp [State.setWriter, State.setFile])
          simp only [State.setWriter, State.setFile, Function.update_self, listed, Option.getD_some,
            Option.some.injEq] at only
          omega
      · cases moved
  | closeFiles =>
      simp only [Careful, not_forall, not_not] at careless
      obtain ⟨id, file, waits⟩ := careless
      have isOpen := table.pointed id file (by rw [waits]; rfl)
      have listed := table.only file isOpen
      simp only [Log.step] at moved
      split at moved
      · cases moved
        have live := safe.live id file (by simp [State.closeFiles, waits, WriterPc.pointer])
        simp [State.closeFiles, listed] at live
      · cases moved
  | _ => exact careless trivial

theorem table_of_reaches (run : machine.Reaches Careful s) : Table s := by
  refine Machine.Reaches.invariant ?_
    (fun _ _ _ _ table careful moved => table.step careful moved) run
  rintro _ ⟨maxWriterThreads, batchSize, rfl⟩
  exact ⟨fun file isOpen => (nomatch isOpen), fun amx file listed => (nomatch listed),
    fun id file points => (nomatch points), fun id file locks => (nomatch locks)⟩

/-- **The table of log files.**  Out of a state that only careful steps have led to, a step
keeps the table safe precisely when it is careful; and in every state that careful steps
lead to the table is safe. -/
theorem file_table_safe (s : State) :
    (∀ a s', machine.Reaches Careful s → machine.step s a = some s' → (Safe s' ↔ Careful s a)) ∧
      (machine.Reaches Careful s → Safe s) := by
  refine ⟨fun a s' run moved => ⟨fun safe => ?_, fun careful => ?_⟩,
    fun run => (table_of_reaches run).safe⟩
  · by_contra careless
    exact (table_of_reaches run).not_safe careless moved safe
  · exact ((table_of_reaches run).step careful moved).safe

/-- `Careful`, to be tested where no file is closed. -/
def careful (s : State) : Action → Bool
  | .getFile _ fileExists _ => fileExists
  | .createFile id _ => match (s.writers id).buff with
    | record :: _ => (s.plugins record.amx).isNone
    | [] => true
  | .closeFiles => false
  | _ => true

theorem careful_sound (s : State) (a : Action) (ok : careful s a = true) : Careful s a := by
  cases a with
  | getFile id fileExists config =>
      rintro rfl
      cases ok
  | createFile id opens =>
      intro _ record head
      obtain ⟨rest, buff⟩ := List.head?_eq_some_iff.1 head
      simpa [careful, buff] using ok
  | closeFiles => cases ok
  | _ => trivial

/-- Two writers of one plugin; the second waits for the file that the first is writing. -/
theorem file_table_safe_waiting : ∃ s : State,
    ((s.writers 1).pc = .write 0 ∧ (s.writers 2).pc = .lock 0) ∧ Safe s := by
  have ends : (machine.execIf careful (.zero 4 100)
      [.writeFile 1 0, .flush, .writeFile 1 1, .flush, .sort 1 [⟨1, 0, 0⟩], .sort 2 [⟨1, 1, 1⟩],
        .getFile 1 true true, .createFile 1 true, .getFile 2 true true]).map
        (fun s => (s.writers 1).pc == .write 0 && (s.writers 2).pc == .lock 0) = some true := by
    decide
  obtain ⟨s, run, holds⟩ := Machine.exists_reaches (M := machine) careful_sound ⟨4, 100, rfl⟩ ends
  simp only [Bool.and_eq_true, beq_iff_eq] at holds
  exact ⟨s, holds, (file_table_safe s).2 run⟩

/-- Two writers of one plugin find no file, and both create one. -/
theorem not_always_safe : ¬ ∀ s, machine.Reachable s → Safe s := by
  intro always
  have ends : (machine.exec (.zero 4 100)
      [.writeFile 1 0, .flush, .writeFile 1 1, .flush, .sort 1 [⟨1, 0, 0⟩], .sort 2 [⟨1, 1, 1⟩],
        .getFile 1 true true, .getFile 2 true true, .createFile 1 true, .createFile 2 true]).map
        (fun s => (s.heap 1).isOpen && s.plugins (s.heap 1).amx == some 0) = some true := by decide
  obtain ⟨s, run, holds⟩ := Machine.exists_reachable (M := machine) ⟨4, 100, rfl⟩ ends
  simp only [Bool.and_eq_true, beq_iff_eq] at holds
  have only := (always s run).only 1 holds.1
  rw [holds.2] at only
  cases only

end Refsapi.Log
