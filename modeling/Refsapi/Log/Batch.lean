/-
# Log.Batch -- one batch of one writer

`writer_thread` as it goes through its batch: the record at hand is a local that is moved from
and loaded again, the mutex of a file is locked in `open_file` and unlocked after the last
record of the plugin, and a record whose file does not open is dropped.

Every record comes off once, in order, and is handed to `write` for the file that `open_file`
returned for its plugin, or dropped after `open_file` returned null for it.  But `create_file`
locks the new file before it opens the stream, and returns null with the mutex locked if that
fails; and `close_file` deletes a file that has vanished from the disk with its mutex locked.
`writer_conserves_iff` says that nothing else goes wrong.
-/
import Refsapi.Log.Order

namespace Refsapi.Log

set_option autoImplicit false

/-! ## `open_file` -/

/-- What the disk and the settings answer during a call of `open_file`. -/
structure Answer where
  fileExists : Bool
  /-- `get_config` finds settings with a path and a name -/
  config : Bool
  /-- the stream of a new file opens -/
  opens : Bool
  deriving DecidableEq, Repr

/-- The files, as one writer sees them. -/
structure Files where
  plugins : Nat → Option Nat
  isOpen : Nat → Bool
  nextFile : Nat

inductive Event where
  /-- a call of `open_file` begins -/
  | openFile (amx : Nat)
  | lock (file : Nat)
  | delete (file : Nat)
  /-- what `open_file` returns -/
  | opened (amx : Nat) (file : Option Nat)
  | write (file : Nat) (batch : List Record)
  | unlock (file : Nat)
  | drop (record : Record)
  deriving DecidableEq, Repr

/-- The end of a call. -/
structure Opened where
  files : Files
  events : List Event
  file : Option Nat

/-- `create_file`, and the test of the settings before it. -/
def Files.createFile (files : Files) (answer : Answer) (amx : Nat) : Opened :=
  if answer.config then
    let file := files.nextFile
    if answer.opens then
      { files :=
          { plugins := Function.update files.plugins amx (some ((files.plugins amx).getD file))
            isOpen := Function.update files.isOpen file true
            nextFile := file + 1 }
        events := [.lock file]
        file := some file }
    else ⟨{ files with nextFile := file + 1 }, [.lock file], none⟩
  else ⟨files, [], none⟩

/-- `close_file`: the file is locked, taken out and deleted. -/
def Files.closeFile (files : Files) (amx file : Nat) : Files :=
  { files with
    plugins := Function.update files.plugins amx none
    isOpen := Function.update files.isOpen file false }

/-- `open_file`; the null `AMX *` is 0. -/
def Files.openFile (files : Files) (answer : Answer) (amx : Nat) : Opened :=
  if amx == 0 then ⟨files, [], none⟩
  else match files.plugins amx with
    | none => files.createFile answer amx
    | some file =>
        if files.isOpen file && !answer.fileExists then
          let created := (files.closeFile amx file).createFile answer amx
          { created with events := .lock file :: .delete file :: created.events }
        else ⟨files, [.lock file], some file⟩

/-! ## `writer_thread` -/

/-- The locals of `writer_thread`.  `buff` is `*buff` from back to front; `local_batch` is empty
between the turns. -/
structure Thread where
  buff : List Record
  /-- the record at hand, of which a move leaves the `amx` -/
  it : Record
  amxPrev : Nat
  file : Option Nat
  files : Files
  calls : Nat
  trace : List Event

/-- The inner loop: `local_batch`, the record at hand and the buffer that it leaves. -/
def fill (capacity amxPrev : Nat) : List Record → Record → List Record →
    List Record × Record × List Record
  | [], it, batch => (batch, it, [])
  | back :: rest, it, batch =>
      if batch.length < capacity && it.amx == amxPrev then
        match rest with
        | [] => (batch ++ [it], it, [])
        | next :: more => fill capacity amxPrev (next :: more) next (batch ++ [it])
      else (batch, it, back :: rest)

namespace Thread

/-- The rest of a turn, once the file is there.  Without a file `unlock` is undefined. -/
def handOver (capacity : Nat) (t : Thread) : Option Thread :=
  match t.file with
  | none => none
  | some file =>
      let filled := fill capacity t.amxPrev t.buff t.it []
      let unlocks := filled.2.2.isEmpty || filled.2.1.amx != t.amxPrev
      some { t with
        buff := filled.2.2
        it := filled.2.1
        trace := t.trace ++ Event.write file filled.1 :: if unlocks then [.unlock file] else [] }

/-- One turn. -/
def turn (capacity : Nat) (answers : Nat → Answer) (t : Thread) : Option Thread :=
  match t.buff with
  | [] => some t
  | back :: rest =>
      if t.amxPrev == 0 || t.it.amx != t.amxPrev then
        let opened := t.files.openFile (answers t.calls) back.amx
        let t := { t with
          it := back
          file := opened.file
          files := opened.files
          calls := t.calls + 1
          trace := t.trace ++ Event.openFile back.amx :: opened.events ++
            [Event.opened back.amx opened.file] }
        if opened.file.isNone then
          some { t with buff := rest, trace := t.trace ++ [Event.drop back] }
        else handOver capacity { t with amxPrev := back.amx }
      else handOver capacity t

/-- The loop; `none` when the turns run out. -/
def loop (capacity : Nat) (answers : Nat → Answer) : Nat → Thread → Option Thread
  | n, t =>
      if t.buff.isEmpty then some t
      else match n with
        | 0 => none
        | n + 1 => (t.turn capacity answers).bind (loop capacity answers n)

/-- `writer_thread`, at the loop, when the batch has been sorted.  `it` is not initialised. -/
def start (order : List Record) (it : Record) (files : Files) : Thread :=
  ⟨order.reverse, it, 0, none, files, 0, []⟩

end Thread

/-- The vector is sorted. -/
def Sorts (buffer order : List Record) : Prop :=
  order.Perm buffer ∧ order.Pairwise fun a b => less b a = false

/-! ## What it is for -/

/-- The records that have come off, in order. -/
def recordsOf : List Event → List Record
  | [] => []
  | .write _ batch :: rest => batch ++ recordsOf rest
  | .drop record :: rest => record :: recordsOf rest
  | _ :: rest => recordsOf rest

/-- The records that have been handed to `write`. -/
def handedOf : List Event → List Record
  | [] => []
  | .write _ batch :: rest => batch ++ handedOf rest
  | _ :: rest => handedOf rest

/-- Batches are of one plugin, no longer than the capacity, and for the file that the last
`open_file` returned for it; and a record is dropped when that returned null for its plugin. -/
def Filed (capacity : Nat) : Option (Nat × Option Nat) → List Event → Prop
  | _, [] => True
  | _, .openFile _ :: rest => Filed capacity none rest
  | _, .opened amx file :: rest => Filed capacity (some (amx, file)) rest
  | current, .write file batch :: rest =>
      (∃ amx, current = some (amx, some file) ∧ ∀ r ∈ batch, r.amx = amx) ∧
        batch.length ≤ capacity ∧ Filed capacity current rest
  | current, .drop record :: rest => current = some (record.amx, none) ∧ Filed capacity current rest
  | current, _ :: rest => Filed capacity current rest

/-- Each mutex that is locked is unlocked once before the next file is opened or the thread
ends, and not deleted meanwhile. -/
def Balanced : Option Nat → List Event → Prop
  | held, [] => held = none
  | held, .openFile _ :: rest => held = none ∧ Balanced held rest
  | held, .lock file :: rest => held = none ∧ Balanced (some file) rest
  | held, .unlock file :: rest => held = some file ∧ Balanced none rest
  | held, .delete file :: rest => held ≠ some file ∧ Balanced held rest
  | held, _ :: rest => Balanced held rest

/-- What a batch should come to. -/
structure Conserved (capacity : Nat) (buffer order : List Record) (trace : List Event) : Prop where
  once : ∀ r, (recordsOf trace).count r = buffer.count r
  inOrder : recordsOf trace = order.reverse
  handed : ∀ amx, .opened amx none ∉ trace →
    (handedOf trace).filter (fun r => r.amx == amx) = order.reverse.filter fun r => r.amx == amx
  filed : Filed capacity none trace
  balanced : Balanced none trace

/-- A call of `open_file` finds that the file has vanished, or cannot open a new one. -/
def Files.Loses (files : Files) (answer : Answer) (amx : Nat) : Prop :=
  amx ≠ 0 ∧ match files.plugins amx with
    | none => answer.config = true ∧ answer.opens = false
    | some file => files.isOpen file = true ∧ answer.fileExists = false

/-- None of the calls does so: they are made for the first record of a plugin, and for each
further one as long as they return null. -/
def Calm (answers : Nat → Answer) : Option Nat → Nat → Files → List Record → Prop
  | _, _, _, [] => True
  | prev, calls, files, r :: rest =>
      if prev = some r.amx then Calm answers prev calls files rest
      else
        let opened := files.openFile (answers calls) r.amx
        ¬ files.Loses (answers calls) r.amx ∧
          Calm answers (opened.file.map fun _ => r.amx) (calls + 1) opened.files rest

variable {capacity : Nat} {answers : Nat → Answer} {t : Thread}

/-! ## The inner loop -/

/-- The inner loop stops at once. -/
theorem fill_stop {amx : Nat} {it : Record} {batch : List Record}
    (stops : ¬ (it.amx = amx ∧ batch.length < capacity)) (back : Record) (rest : List Record) :
    fill capacity amx (back :: rest) it batch = (batch, it, back :: rest) := by
  have test : ¬ (decide (batch.length < capacity) && it.amx == amx) = true := by
    simpa [Bool.and_eq_true, and_comm] using stops
  cases rest with
  | nil => simp only [fill, if_neg test]
  | cons next more => simp only [fill, if_neg test]

/-- The inner loop takes the batch off, and has the next record at hand if there is one. -/
theorem fill_spec {amx : Nat} (batch rest : List Record) {it : Record} (same : it.amx = amx)
    (room : batch.length < capacity) :
    ∃ taken back, (fill capacity amx (it :: rest) it batch).1 = batch ++ taken ∧
      taken = ((it :: rest).takeWhile fun r => r.amx == amx).take (capacity - batch.length) ∧
      it :: rest = taken ++ back ∧ (fill capacity amx (it :: rest) it batch).2.2 = back ∧
      ∀ r ∈ back.head?, (fill capacity amx (it :: rest) it batch).2.1 = r := by
  induction rest generalizing it batch with
  | nil =>
      refine ⟨[it], [], ?_⟩
      obtain ⟨k, isK⟩ := Nat.exists_eq_add_one_of_ne_zero
        (show capacity - batch.length ≠ 0 by omega)
      simp [fill, same, room, isK]
  | cons next more ih =>
      have turn : fill capacity amx (it :: next :: more) it batch =
          fill capacity amx (next :: more) next (batch ++ [it]) := by
        simp [fill, same, room]
      obtain ⟨k, isK⟩ := Nat.exists_eq_add_one_of_ne_zero
        (show capacity - batch.length ≠ 0 by omega)
      have isK' : capacity - (batch ++ [it]).length = k := by
        rw [List.length_append, List.length_singleton]
        omega
      have first : (it :: next :: more).takeWhile (fun r => r.amx == amx) =
          it :: (next :: more).takeWhile fun r => r.amx == amx :=
        List.takeWhile_cons_of_pos (by simpa using same)
      rw [turn, first, isK, List.take_succ_cons]
      by_cases stays : next.amx = amx ∧ (batch ++ [it]).length < capacity
      · obtain ⟨taken, back, isTaken, isBatch, splits, isBack, head⟩ := ih _ stays.1 stays.2
        refine ⟨it :: taken, back, ?_, ?_, ?_, isBack, head⟩
        · rw [isTaken, List.append_assoc, List.singleton_append]
        · rw [isBatch, isK']
        · rw [splits, List.cons_append]
      · rw [fill_stop stays]
        refine ⟨[it], next :: more, rfl, ?_, rfl, rfl, fun r isHead => Option.some.inj isHead⟩
        rcases not_and_or.1 stays with other | full
        · rw [List.takeWhile_cons_of_neg (by simpa using other), List.take_nil]
        · rw [show k = 0 by omega, List.take_zero]

/-! ## One turn -/

namespace Thread

/-- The record at hand is of the plugin whose file is locked. -/
def isOpen (t : Thread) : Bool :=
  !t.buff.isEmpty && !(t.amxPrev == 0 || t.it.amx != t.amxPrev)

/-- The file whose mutex is held. -/
def held (t : Thread) : Option Nat := if t.isOpen then t.file else none

/-- The plugin whose file is locked. -/
def prev (t : Thread) : Option Nat := if t.isOpen then some t.amxPrev else none

/-- What is true between two turns. -/
structure Inv (t : Thread) : Prop where
  sorted : t.buff.Pairwise fun a b => a.amx ≤ b.amx
  hand : t.isOpen = true → t.buff.head? = some t.it ∧ t.file.isSome = true
  beyond : t.isOpen = false → t.amxPrev = 0 ∨ ∀ r ∈ t.buff, t.amxPrev < r.amx

/-- What follows a state that has no file: the next call of `open_file`, or nothing. -/
def Begins (t : Thread) (events : List Event) : Prop :=
  t.isOpen = false → events = [] ∨ ∃ amx more, events = .openFile amx :: more

end Thread

theorem recordsOf_append (front back : List Event) :
    recordsOf (front ++ back) = recordsOf front ++ recordsOf back := by
  induction front with
  | nil => rfl
  | cons e rest ih => cases e <;> simp [recordsOf, ih]

/-- What `open_file` does to the mutexes, but for the two slips. -/
theorem openFile_events {files : Files} {answer : Answer} {amx : Nat}
    (kept : ¬ files.Loses answer amx) :
    ((files.openFile answer amx).events = [] ∧ (files.openFile answer amx).file = none) ∨
      ∃ file, (files.openFile answer amx).events = [.lock file] ∧
        (files.openFile answer amx).file = some file := by
  unfold Files.Loses at kept
  unfold Files.openFile
  by_cases null : amx = 0
  · simp [null]
  · rw [if_neg (by simpa using null)]
    cases found : files.plugins amx with
    | none =>
        simp only [found, null, ne_eq, not_false_eq_true, true_and, not_and] at kept
        unfold Files.createFile
        cases config : answer.config with
        | false => exact .inl ⟨rfl, rfl⟩
        | true =>
            have opens := kept config
            simp [opens]
    | some file =>
        simp only [found, null, ne_eq, not_false_eq_true, true_and, not_and] at kept
        simp only
        rw [if_neg]
        · exact .inr ⟨file, rfl, rfl⟩
        · simpa using kept

/-- And with them. -/
theorem openFile_lost {files : Files} {answer : Answer} {amx : Nat}
    (lost : files.Loses answer amx) :
    (∃ file, (files.openFile answer amx).events = [.lock file] ∧
      (files.openFile answer amx).file = none) ∨
      ∃ file more, (files.openFile answer amx).events = .lock file :: .delete file :: more := by
  obtain ⟨null, lost⟩ := lost
  unfold Files.openFile
  rw [if_neg (by simpa using null)]
  cases found : files.plugins amx with
  | none =>
      rw [found] at lost
      refine .inl ⟨files.nextFile, ?_⟩
      simp [Files.createFile, lost.1, lost.2]
  | some file =>
      rw [found] at lost
      refine .inr ⟨file, ((files.closeFile amx file).createFile answer amx).events, ?_⟩
      simp [lost.1, lost.2]

/-- Locking, unlocking and deleting. -/
def Event.isMutex : Event → Bool
  | .lock _ => true
  | .unlock _ => true
  | .delete _ => true
  | _ => false

theorem isMutex_openFile (files : Files) (answer : Answer) (amx : Nat) :
    ∀ e ∈ (files.openFile answer amx).events, e.isMutex = true := by
  have created (files : Files) : ∀ e ∈ (files.createFile answer amx).events, e.isMutex = true := by
    unfold Files.createFile
    split
    · split
      · exact List.forall_mem_singleton.2 rfl
      · exact List.forall_mem_singleton.2 rfl
    · exact fun e member => by cases member
  unfold Files.openFile
  split
  · exact fun e member => by cases member
  · split
    · exact created files
    · split
      · exact List.forall_mem_cons.2 ⟨rfl, List.forall_mem_cons.2 ⟨rfl, created _⟩⟩
      · exact List.forall_mem_singleton.2 rfl

/-- They concern no records. -/
theorem recordsOf_isMutex {events : List Event} (mutex : ∀ e ∈ events, e.isMutex = true) :
    recordsOf events = [] := by
  induction events with
  | nil => rfl
  | cons e rest ih =>
      obtain ⟨first, others⟩ := List.forall_mem_cons.1 mutex
      cases e with
      | lock file => exact ih others
      | unlock file => exact ih others
      | delete file => exact ih others
      | _ => cases first

theorem filed_isMutex {events : List Event} (mutex : ∀ e ∈ events, e.isMutex = true)
    (current : Option (Nat × Option Nat)) (rest : List Event) :
    Filed capacity current (events ++ rest) ↔ Filed capacity current rest := by
  induction events with
  | nil => rfl
  | cons e events ih =>
      obtain ⟨first, others⟩ := List.forall_mem_cons.1 mutex
      cases e with
      | lock file => exact ih others
      | unlock file => exact ih others
      | delete file => exact ih others
      | _ => cases first

theorem calm_batch {amx : Nat} {batch : List Record} (same : ∀ r ∈ batch, r.amx = amx)
    (calls : Nat) (files : Files) (rest : List Record) :
    Calm answers (some amx) calls files (batch ++ rest) ↔
      Calm answers (some amx) calls files rest := by
  induction batch with
  | nil => rfl
  | cons r batch ih =>
      obtain ⟨first, others⟩ := List.forall_mem_cons.1 same
      rw [List.cons_append, Calm, if_pos (by rw [first])]
      exact ih others

theorem calm_other {amx : Nat} {rest : List Record} (other : ∀ r ∈ rest.head?, r.amx ≠ amx)
    (calls : Nat) (files : Files) :
    Calm answers (some amx) calls files rest ↔ Calm answers none calls files rest := by
  cases rest with
  | nil => rfl
  | cons r rest =>
      have differs : some amx ≠ some r.amx := fun same => other r rfl (Option.some.inj same).symm
      rw [Calm, Calm, if_neg differs, if_neg (by simp)]

/-- `Calm`, of what a thread still has to do. -/
def Thread.CalmAhead (answers : Nat → Answer) (t : Thread) : Prop :=
  Calm answers t.prev t.calls t.files t.buff

/-- What a turn does. -/
structure Turns (capacity : Nat) (answers : Nat → Answer) (t t' : Thread) (events : List Event) :
    Prop where
  trace : t'.trace = t.trace ++ events
  inv : t'.Inv
  records : t.buff = recordsOf events ++ t'.buff
  shorter : t'.buff.length < t.buff.length
  begins : ∀ rest, t.Begins (events ++ rest)
  filed : ∀ rest, t'.Begins rest → Filed capacity (some (t'.amxPrev, t'.file)) rest →
    Filed capacity (some (t.amxPrev, t.file)) (events ++ rest)
  balanced : ∀ rest, t'.Begins rest → (Balanced t'.held rest ↔ t'.CalmAhead answers) →
    (Balanced t.held (events ++ rest) ↔ t.CalmAhead answers)

theorem Thread.isOpen_iff {t : Thread} :
    t.isOpen = true ↔ t.buff ≠ [] ∧ t.amxPrev ≠ 0 ∧ t.it.amx = t.amxPrev := by
  simp [Thread.isOpen]

variable (answers) in
/-- The rest of a turn hands a batch over, and unlocks the file after the last of the plugin. -/
theorem handOver_turns (positive : 0 < capacity) (isOpen : t.isOpen = true)
    (sorted : t.buff.Pairwise fun a b => a.amx ≤ b.amx) (hand : t.buff.head? = some t.it)
    {file : Nat} (hasFile : t.file = some file) :
    ∃ t' events, t.handOver capacity = some t' ∧ Turns capacity answers t t' events := by
  obtain ⟨rest, whole⟩ := List.head?_eq_some_iff.1 hand
  obtain ⟨-, notNull, same⟩ := Thread.isOpen_iff.1 isOpen
  obtain ⟨batch, back, isBatch, isTaken, splits, isBack, head⟩ :=
    fill_spec [] rest same positive
  rw [← whole] at isBatch isTaken splits isBack head
  rw [List.nil_append] at isBatch
  have ofPlugin : ∀ r ∈ batch, r.amx = t.amxPrev := by
    intro r member
    rw [isTaken] at member
    simpa using List.mem_takeWhile_imp (List.mem_of_mem_take member)
  have short : batch.length ≤ capacity := by
    rw [isTaken]
    exact List.length_take_le _ _
  have some : batch ≠ [] := by
    obtain ⟨k, isK⟩ := Nat.exists_eq_add_one_of_ne_zero positive.ne'
    rw [isTaken, whole, List.takeWhile_cons_of_pos (by simpa using same), List.length_nil,
      Nat.sub_zero, isK, List.take_succ_cons]
    exact List.cons_ne_nil _ _
  have ascending : back.Pairwise fun a b => a.amx ≤ b.amx :=
    (List.pairwise_append.1 (splits ▸ sorted)).2.1
  have above : ∀ r ∈ back, t.amxPrev ≤ r.amx := by
    intro r member
    obtain ⟨first, more, isFirst⟩ := List.exists_cons_of_ne_nil some
    have inBatch : first ∈ batch := by simp [isFirst]
    have le := (List.pairwise_append.1 (splits ▸ sorted)).2.2 first inBatch r member
    rwa [ofPlugin first inBatch] at le
  have held : t.held = Option.some file := by rw [Thread.held, if_pos isOpen, hasFile]
  have calm : t.CalmAhead answers ↔
      Calm answers (Option.some t.amxPrev) t.calls t.files back := by
    rw [Thread.CalmAhead, Thread.prev, if_pos isOpen, splits]
    exact calm_batch ofPlugin _ _ _
  have shorter : back.length < t.buff.length := by
    rw [splits, List.length_append]
    have := List.length_pos_iff.2 some
    omega
  generalize isHand : (fill capacity t.amxPrev t.buff t.it []).2.1 = next at head
  have runs : t.handOver capacity = Option.some { t with
      buff := back
      it := next
      trace := t.trace ++ Event.write file batch ::
        if back.isEmpty || next.amx != t.amxPrev then [Event.unlock file] else [] } := by
    simp only [Thread.handOver, hasFile, isBatch, isBack, isHand]
  have null : (t.amxPrev == 0) = false := by simpa using notNull
  cases ends : (back.isEmpty || next.amx != t.amxPrev) with
  | true =>
      rw [ends, if_pos rfl] at runs
      have closed : ∀ trace, Thread.isOpen { t with buff := back, it := next, trace := trace } =
          false := by
        intro trace
        simp only [Thread.isOpen, null, Bool.false_or, ← Bool.not_or, ends, Bool.not_true]
      have other : ∀ r ∈ back.head?, r.amx ≠ t.amxPrev := by
        intro r isFirst
        obtain ⟨more, isBack⟩ := List.head?_eq_some_iff.1 isFirst
        rw [isBack, head r isFirst] at ends
        simpa using ends
      refine ⟨_, _, runs, rfl, ⟨ascending, fun opens => ?_, fun _ => .inr fun r member => ?_⟩, ?_,
        shorter, fun _ closed => ?_, fun more begins filed => ?_, fun more _ rest => ?_⟩
      · rw [closed] at opens
        cases opens
      · cases back with
        | nil => cases member
        | cons first more =>
            have least : first.amx ≤ r.amx := by
              rcases List.mem_cons.1 member with rfl | inMore
              · exact Nat.le_refl _
              · exact (List.pairwise_cons.1 ascending).1 r inMore
            have differs := other first rfl
            have le := above first List.mem_cons_self
            simp only
            omega
      · simpa [recordsOf] using splits
      · rw [isOpen] at closed
        cases closed
      · rw [hasFile] at filed ⊢
        exact ⟨⟨t.amxPrev, rfl, ofPlugin⟩, short, filed⟩
      · rw [Thread.held, if_neg (by simp [closed]), Thread.CalmAhead, Thread.prev,
          if_neg (by simp [closed])] at rest
        rw [calm, calm_other other, ← rest, held]
        exact and_iff_right rfl
  | false =>
      rw [ends, if_neg Bool.false_ne_true] at runs
      have opens : ∀ trace, Thread.isOpen { t with buff := back, it := next, trace := trace } =
          true := by
        intro trace
        simp only [Thread.isOpen, null, Bool.false_or, ← Bool.not_or, ends, Bool.not_false]
      refine ⟨_, _, runs, rfl, ⟨ascending, fun _ => ⟨?_, ?_⟩, fun closed => ?_⟩, ?_, shorter,
        fun _ closed => ?_, fun more begins filed => ?_, fun more _ rest => ?_⟩
      · obtain ⟨nonempty, -⟩ := Thread.isOpen_iff.1 (opens t.trace)
        obtain ⟨first, more, isBack⟩ := List.exists_cons_of_ne_nil nonempty
        have isBack : back = first :: more := isBack
        subst isBack
        simp [head first rfl]
      · simp [hasFile]
      · rw [opens] at closed
        cases closed
      · simpa [recordsOf] using splits
      · rw [isOpen] at closed
        cases closed
      · rw [hasFile] at filed ⊢
        exact ⟨⟨t.amxPrev, rfl, ofPlugin⟩, short, filed⟩
      · rw [Thread.held, if_pos (opens _), Thread.CalmAhead, Thread.prev, if_pos (opens _)] at rest
        rw [calm, ← rest, held, hasFile]
        rfl

/-- What a held mutex makes of the calls that follow a state without a file. -/
theorem not_balanced_of_begins {t : Thread} (closed : t.isOpen = false) {events : List Event}
    (begins : t.Begins events) (file : Nat) : ¬ Balanced (some file) events := by
  rcases begins closed with rfl | ⟨amx, more, rfl⟩
  · exact fun balanced => Option.some_ne_none file balanced
  · exact fun balanced => Option.some_ne_none file balanced.1

theorem filed_of_begins {t : Thread} (closed : t.isOpen = false) {events : List Event}
    (begins : t.Begins events) {current : Option (Nat × Option Nat)}
    (filed : Filed capacity current events) (other : Option (Nat × Option Nat)) :
    Filed capacity other events := by
  rcases begins closed with rfl | ⟨amx, more, rfl⟩
  · trivial
  · exact filed

/-- The mutexes over a call of `open_file`: it goes on from what is returned, or is lost. -/
theorem balanced_opened (files : Files) (answer : Answer) (amx : Nat) (events : List Event)
    (after : ∀ file, (files.openFile answer amx).file = none → ¬ Balanced (some file) events) :
    Balanced none ((files.openFile answer amx).events ++ events) ↔
      ¬ files.Loses answer amx ∧ Balanced (files.openFile answer amx).file events := by
  by_cases lost : files.Loses answer amx
  · refine iff_of_false ?_ fun kept => kept.1 lost
    rcases openFile_lost lost with ⟨file, isEvents, none⟩ | ⟨file, more, isEvents⟩
    · rw [isEvents]
      exact fun balanced => after file none balanced.2
    · rw [isEvents]
      exact fun balanced => balanced.2.1 rfl
  · rw [and_iff_right lost]
    rcases openFile_events lost with ⟨isEvents, isFile⟩ | ⟨file, isEvents, isFile⟩
    · rw [isEvents, isFile]
      rfl
    · rw [isEvents, isFile]
      exact and_iff_right rfl

theorem openFile_zero (files : Files) (answer : Answer) :
    (files.openFile answer 0).file = none := rfl

/-- A turn that drops a record. -/
theorem dropped_turns {back : Record} {rest : List Record} (inv : t.Inv)
    (whole : t.buff = back :: rest) (closed : t.isOpen = false)
    (null : (t.files.openFile (answers t.calls) back.amx).file = none) :
    ∃ t' events, t.turn capacity answers = some t' ∧ Turns capacity answers t t' events := by
  have fresh : (t.amxPrev == 0 || t.it.amx != t.amxPrev) = true := by
    simpa [Thread.isOpen, whole, or_iff_not_imp_left] using closed
  have ascending : (back :: rest).Pairwise fun a b => a.amx ≤ b.amx := whole ▸ inv.sorted
  have beyond := inv.beyond closed
  rw [whole] at beyond
  have mutex := isMutex_openFile t.files (answers t.calls) back.amx
  have balanced := balanced_opened t.files (answers t.calls) back.amx
  have calm : t.CalmAhead answers ↔ ¬ t.files.Loses (answers t.calls) back.amx ∧
      Calm answers none (t.calls + 1) (t.files.openFile (answers t.calls) back.amx).files rest := by
    rw [Thread.CalmAhead, Thread.prev, if_neg (by simp [closed]), whole, Calm,
      if_neg (by simp)]
    simp only [null]
    rfl
  have held : t.held = none := by rw [Thread.held, if_neg (by simp [closed])]
  generalize isOpened : t.files.openFile (answers t.calls) back.amx = opened at *
  have runs : t.turn capacity answers = some { t with
      buff := rest
      it := back
      file := none
      files := opened.files
      calls := t.calls + 1
      trace := t.trace ++ Event.openFile back.amx :: opened.events ++
        [Event.opened back.amx none] ++ [Event.drop back] } := by
    rw [Thread.turn, whole]
    simp only [isOpened, null]
    rw [if_pos fresh]
    rfl
  have stays : ∀ files calls trace, Thread.isOpen { t with
      buff := rest, it := back, file := none, files := files, calls := calls, trace := trace } =
        false := by
    intro files calls trace
    rcases beyond with isNull | above
    · simp [Thread.isOpen, isNull]
    · have other : back.amx ≠ t.amxPrev := (above back List.mem_cons_self).ne'
      simp [Thread.isOpen, other]
  refine ⟨_, Event.openFile back.amx :: opened.events ++ [Event.opened back.amx none] ++
    [Event.drop back], runs, ?_, ⟨?_, fun opens => ?_, fun _ => ?_⟩, ?_, ?_, fun more _ => ?_,
    fun more begins filed => ?_, fun more begins later => ?_⟩
  · simp
  · exact (List.pairwise_cons.1 ascending).2
  · rw [stays] at opens
    cases opens
  · exact beyond.imp id fun above r member => above r (List.mem_cons_of_mem _ member)
  · rw [recordsOf_append, recordsOf_append, whole]
    simp [recordsOf, recordsOf_isMutex mutex]
  · rw [whole]
    exact Nat.lt_succ_self _
  · exact .inr ⟨back.amx, _, rfl⟩
  · simp only [List.cons_append, List.append_assoc, Filed]
    rw [filed_isMutex mutex]
    exact ⟨rfl, filed_of_begins (stays _ _ _) begins filed _⟩
  · rw [Thread.held, if_neg (by simp [stays]), Thread.CalmAhead, Thread.prev,
      if_neg (by simp [stays])] at later
    simp only [List.cons_append, List.append_assoc, Balanced, held]
    rw [true_and, balanced, null, calm]
    · exact and_congr_right fun _ => later
    · exact fun file _ broken => not_balanced_of_begins (stays _ _ _) begins file broken

/-- A turn that opens a file. -/
theorem opened_turns (positive : 0 < capacity) {back : Record} {rest : List Record} (inv : t.Inv)
    (whole : t.buff = back :: rest) (closed : t.isOpen = false) {file : Nat}
    (found : (t.files.openFile (answers t.calls) back.amx).file = some file) :
    ∃ t' events, t.turn capacity answers = some t' ∧ Turns capacity answers t t' events := by
  have fresh : (t.amxPrev == 0 || t.it.amx != t.amxPrev) = true := by
    simpa [Thread.isOpen, whole, or_iff_not_imp_left] using closed
  have notNull : back.amx ≠ 0 := by
    intro null
    rw [null, openFile_zero] at found
    cases found
  have mutex := isMutex_openFile t.files (answers t.calls) back.amx
  have balanced := balanced_opened t.files (answers t.calls) back.amx
  have calm : t.CalmAhead answers ↔ ¬ t.files.Loses (answers t.calls) back.amx ∧
      Calm answers (some back.amx) (t.calls + 1)
        (t.files.openFile (answers t.calls) back.amx).files rest := by
    rw [Thread.CalmAhead, Thread.prev, if_neg (by simp [closed]), whole, Calm,
      if_neg (by simp)]
    simp only [found]
    rfl
  have held : t.held = none := by rw [Thread.held, if_neg (by simp [closed])]
  generalize isOpened : t.files.openFile (answers t.calls) back.amx = opened at *
  let ready : Thread := { t with
    it := back
    amxPrev := back.amx
    file := some file
    files := opened.files
    calls := t.calls + 1
    trace := t.trace ++ Event.openFile back.amx :: opened.events ++
      [Event.opened back.amx (some file)] }
  have runs : t.turn capacity answers = ready.handOver capacity := by
    rw [Thread.turn]
    split
    · next empty =>
        rw [whole] at empty
        cases empty
    · next first more isBuff =>
        obtain ⟨rfl, rfl⟩ := List.cons.inj (whole.symm.trans isBuff)
        simp only [isOpened, found]
        rw [if_pos fresh]
        rfl
  have isOpen : ready.isOpen = true :=
    Thread.isOpen_iff.2 ⟨by simp [ready, whole], notNull, rfl⟩
  obtain ⟨t', events, hands, turns⟩ := handOver_turns answers (t := ready) positive
    isOpen inv.sorted (by simp [ready, whole]) (rfl : ready.file = some file)
  have readyHeld : ready.held = some file := by rw [Thread.held, if_pos isOpen]
  have readyCalm : ready.CalmAhead answers ↔
      Calm answers (some back.amx) (t.calls + 1) opened.files rest := by
    rw [Thread.CalmAhead, Thread.prev, if_pos isOpen]
    show Calm answers (some back.amx) (t.calls + 1) opened.files t.buff ↔ _
    rw [whole, Calm, if_pos rfl]
  refine ⟨t', Event.openFile back.amx :: opened.events ++ [Event.opened back.amx (some file)] ++
    events, runs.trans hands, ?_, turns.inv, ?_, turns.shorter, fun more _ => ?_,
    fun more begins filed => ?_, fun more begins later => ?_⟩
  · rw [turns.trace]
    simp [ready]
  · rw [recordsOf_append, recordsOf_append]
    simpa [recordsOf, recordsOf_isMutex mutex] using turns.records
  · exact .inr ⟨back.amx, _, rfl⟩
  · simp only [List.cons_append, List.append_assoc, Filed]
    rw [filed_isMutex mutex]
    exact turns.filed more begins filed
  · simp only [List.cons_append, List.append_assoc, Balanced, held]
    rw [true_and, balanced, found, calm, ← readyCalm]
    · refine and_congr_right fun _ => ?_
      have ahead := turns.balanced more begins later
      rw [readyHeld] at ahead
      exact ahead
    · intro other null
      rw [found] at null
      cases null

variable (answers) in
/-- One turn. -/
theorem turn_turns (positive : 0 < capacity) (inv : t.Inv) (more : t.buff ≠ []) :
    ∃ t' events, t.turn capacity answers = some t' ∧ Turns capacity answers t t' events := by
  obtain ⟨back, rest, whole⟩ := List.exists_cons_of_ne_nil more
  cases isOpen : t.isOpen with
  | true =>
      obtain ⟨hand, hasFile⟩ := inv.hand isOpen
      obtain ⟨file, hasFile⟩ := Option.isSome_iff_exists.1 hasFile
      obtain ⟨-, notNull, same⟩ := Thread.isOpen_iff.1 isOpen
      have runs : t.turn capacity answers = t.handOver capacity := by
        rw [Thread.turn, whole]
        simp only
        rw [if_neg (by simp [notNull, same])]
      rw [runs]
      exact handOver_turns answers positive isOpen inv.sorted hand hasFile
  | false =>
      cases found : (t.files.openFile (answers t.calls) back.amx).file with
      | none => exact dropped_turns inv whole isOpen found
      | some file => exact opened_turns positive inv whole isOpen found

/-- The inner loop takes the batch that a writer of the machine takes, and the mutex is unlocked
when that writer does not go on with the file. -/
theorem fill_eq_batch {w : Writer} {it : Record} {rest : List Record} (buff : w.buff = it :: rest)
    (positive : 0 < w.capacity) :
    (fill w.capacity it.amx w.buff it []).1 = State.batch w ∧
      (fill w.capacity it.amx w.buff it []).2.2 = w.buff.drop (State.batch w).length ∧
      ((fill w.capacity it.amx w.buff it []).2.2.isEmpty ||
        (fill w.capacity it.amx w.buff it []).2.1.amx != it.amx) =
          !State.continues w.buff (w.buff.drop (State.batch w).length) := by
  obtain ⟨taken, back, isBatch, isTaken, splits, isBack, head⟩ :=
    fill_spec [] rest (rfl : it.amx = it.amx) positive
  rw [← buff] at isBatch isTaken splits isBack head
  have batch : taken = State.batch w := by
    rw [isTaken, State.batch, buff]
    rfl
  have dropped : w.buff.drop (State.batch w).length = back := by
    rw [← batch, splits, List.drop_left]
  rw [isBatch, isBack, dropped, List.nil_append]
  refine ⟨batch, rfl, ?_⟩
  cases back with
  | nil => simp [State.continues, buff]
  | cons first more =>
      rw [head first rfl]
      simp [State.continues, buff, bne]

/-! ## The run -/

variable (answers) in
theorem loop_spec (positive : 0 < capacity) (n : Nat) (inv : t.Inv) (enough : t.buff.length ≤ n) :
    ∃ t' events, t.loop capacity answers n = some t' ∧ t'.trace = t.trace ++ events ∧
      recordsOf events = t.buff ∧ t.Begins events ∧
      Filed capacity (some (t.amxPrev, t.file)) events ∧
      (Balanced t.held events ↔ t.CalmAhead answers) := by
  induction n generalizing t with
  | zero =>
      have empty : t.buff = [] := List.length_eq_zero_iff.1 (Nat.le_zero.1 enough)
      refine ⟨t, [], ?_, (List.append_nil _).symm, empty.symm, fun _ => .inl rfl, trivial, ?_⟩
      · simp [Thread.loop, empty]
      · simp [Balanced, Thread.held, Thread.isOpen, Thread.CalmAhead, empty, Calm]
  | succ n ih =>
      by_cases empty : t.buff = []
      · refine ⟨t, [], ?_, (List.append_nil _).symm, empty.symm, fun _ => .inl rfl, trivial, ?_⟩
        · simp [Thread.loop, empty]
        · simp [Balanced, Thread.held, Thread.isOpen, Thread.CalmAhead, empty, Calm]
      · obtain ⟨next, events, runs, turns⟩ := turn_turns answers positive inv empty
        obtain ⟨last, more, ends, trace, records, begins, filed, balanced⟩ :=
          ih turns.inv (Nat.le_of_lt_succ (turns.shorter.trans_le enough))
        refine ⟨last, events ++ more, ?_, ?_, ?_, turns.begins more, turns.filed more begins filed,
          turns.balanced more begins balanced⟩
        · simp [Thread.loop, empty, runs, ends]
        · rw [trace, turns.trace, List.append_assoc]
        · rw [recordsOf_append, records, ← turns.records]

/-- What is not dropped is handed to `write`. -/
theorem handed_filter {amx : Nat} {events : List Event} {current : Option (Nat × Option Nat)}
    (filed : Filed capacity current events) (opens : .opened amx none ∉ events)
    (now : current ≠ some (amx, none)) :
    (handedOf events).filter (fun r => r.amx == amx) =
      (recordsOf events).filter fun r => r.amx == amx := by
  induction events generalizing current with
  | nil => rfl
  | cons e rest ih =>
      have later : .opened amx none ∉ rest := fun member => opens (List.mem_cons_of_mem _ member)
      cases e with
      | openFile a => exact ih filed later (by simp)
      | lock file => exact ih filed later now
      | delete file => exact ih filed later now
      | unlock file => exact ih filed later now
      | opened a file =>
          refine ih filed later fun same => opens ?_
          cases Option.some.inj same
          exact List.mem_cons_self
      | write file batch =>
          simp only [handedOf, recordsOf, List.filter_append]
          rw [ih filed.2.2 later now]
      | drop record =>
          have other : record.amx ≠ amx := by
            rintro rfl
            exact now filed.1
          simp only [handedOf, recordsOf]
          rw [List.filter_cons_of_neg (by simpa using other), ih filed.2 later now]

/-- **One batch is conserved.**  The writer gets to the end of its batch and every record is
handed over or dropped as described; and every mutex is unlocked, if and only if no call of
`open_file` finds that its file has vanished or cannot open a new one. -/
theorem writer_conserves_iff {buffer order : List Record} (sorts : Sorts buffer order)
    (positive : 0 < capacity) (answers : Nat → Answer) (it : Record) (files : Files) (n : Nat)
    (enough : buffer.length ≤ n) :
    (∃ t, (Thread.start order it files).loop capacity answers n = some t ∧
      Conserved capacity buffer order t.trace) ↔ Calm answers none 0 files order.reverse := by
  have ascending : order.reverse.Pairwise fun a b => a.amx ≤ b.amx := by
    refine List.pairwise_reverse.2 (sorts.2.imp fun {a b} sorted => ?_)
    simp only [less, Bool.or_eq_false_iff, decide_eq_false_iff_not] at sorted
    exact Nat.le_of_not_lt sorted.1
  have closed : (Thread.start order it files).isOpen = false := by
    simp [Thread.isOpen, Thread.start]
  have inv : (Thread.start order it files).Inv :=
    ⟨ascending, fun opens => absurd opens (by simp [closed]), fun _ => .inl rfl⟩
  obtain ⟨t, events, runs, trace, records, begins, filed, balanced⟩ :=
    loop_spec answers positive n inv
      (by rw [Thread.start, List.length_reverse, sorts.1.length_eq]; exact enough)
  have isTrace : t.trace = events := trace
  have isOrder : recordsOf events = order.reverse := records
  have isFiled : Filed capacity none events := filed_of_begins closed begins filed none
  have isBalanced : Balanced none events ↔ Calm answers none 0 files order.reverse := by
    rw [Thread.held, if_neg (by simp [closed]), Thread.CalmAhead, Thread.prev,
      if_neg (by simp [closed])] at balanced
    exact balanced
  rw [← isBalanced]
  constructor
  · rintro ⟨other, isOther, conserved⟩
    obtain rfl : t = other := Option.some.inj (runs.symm.trans isOther)
    exact isTrace ▸ conserved.balanced
  · intro unlocks
    refine ⟨t, runs, ?_⟩
    rw [isTrace]
    refine ⟨fun r => ?_, isOrder, fun amx opens => ?_, isFiled, unlocks⟩
    · rw [isOrder, List.count_reverse, sorts.1.count_eq]
    · rw [handed_filter isFiled opens (by simp), isOrder]

/-- No files. -/
def noFiles : Files := ⟨fun _ => none, fun _ => false, 0⟩

/-- Two lines of one plugin and one of another, in batches of one. -/
theorem writer_conserves_iff_three : ∃ t,
    (Thread.start [⟨7, 2, 2⟩, ⟨5, 1, 1⟩, ⟨5, 0, 0⟩] ⟨0, 0, 0⟩ noFiles).loop 1
      (fun _ => ⟨true, true, true⟩) 3 = some t ∧
    Conserved 1 [⟨5, 0, 0⟩, ⟨5, 1, 1⟩, ⟨7, 2, 2⟩] [⟨7, 2, 2⟩, ⟨5, 1, 1⟩, ⟨5, 0, 0⟩] t.trace :=
  (writer_conserves_iff ⟨by decide, by decide⟩ (by decide : 0 < 1)
    (fun _ => ⟨true, true, true⟩) ⟨0, 0, 0⟩ noFiles 3 (by decide)).2
    (by simp [Calm, Files.Loses, Files.openFile, Files.createFile, noFiles])

/-- The file of a plugin does not open; its mutex stays locked. -/
theorem not_always_conserves : ¬ ∀ (buffer order : List Record), Sorts buffer order →
    ∀ capacity, 0 < capacity → ∀ answers it files n, buffer.length ≤ n →
      ∃ t, (Thread.start order it files).loop capacity answers n = some t ∧
        Conserved capacity buffer order t.trace := by
  intro always
  obtain ⟨t, runs, conserved⟩ := always [⟨5, 0, 0⟩] [⟨5, 0, 0⟩] ⟨by decide, by decide⟩ 1 (by decide)
    (fun _ => ⟨false, true, false⟩) ⟨0, 0, 0⟩ noFiles 1 (by decide)
  have trace : ((Thread.start [⟨5, 0, 0⟩] ⟨0, 0, 0⟩ noFiles).loop 1
      (fun _ => ⟨false, true, false⟩) 1).map Thread.trace =
        some [.openFile 5, .lock 0, .opened 5 none, .drop ⟨5, 0, 0⟩] := by decide
  rw [runs] at trace
  have balanced := conserved.balanced
  rw [Option.some.inj trace] at balanced
  exact Option.some_ne_none _ balanced.2.2

end Refsapi.Log
