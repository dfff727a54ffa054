/-
# Log.Model -- `log_mngr` as its threads run it

Lines go into one buffer; a batch of them is handed to a writer thread of its
own, which sorts it and writes each plugin's lines into that plugin's file.
Three kinds of thread take the steps.

* The game thread accepts lines (`write_file`) and closes everything
  (`close_all`).  It holds `buffer_mutex` all through `close_all`, and reads the
  two thread counters without any mutex while it waits.
* The main thread hands batches over and reaps finished writers, which it does
  under `thread_mutex`.
* Writers look a file up, create it, lock it, write and unlock, each one step;
  `data_mutex` makes looking up and creating steps that exclude each other.

A `file_t` is its place in the heap.  To touch one that has been deleted is not
a step.  The counters `decThreads`, `decFinished`, `incFinished` and the list
`written` record what a run has done; the code never reads them.
-/
import Mathlib.Logic.Function.Basic
import Refsapi.Lib.Count
import Refsapi.Lib.Transition

namespace Refsapi.Log

set_option autoImplicit false

/-! ## Data -/

def maxLogBufferSize : Nat := 8192

/-- `data_t`, without the text of the line. -/
structure Record where
  amx : Nat
  seq : Nat
  time : Int
  deriving DecidableEq, Repr

/-- The comparator that `writer_thread` sorts with. -/
def less (a b : Record) : Bool := a.amx > b.amx || (a.amx == b.amx && a.time > b.time)

/-- `file_t`.  `isOpen` is that `s` is not null and is open, `holder` the writer that
has locked `m`. -/
structure File where
  amx : Nat
  isOpen : Bool
  holder : Option Nat
  deleted : Bool
  deriving DecidableEq, Repr

/-- Where a writer is in `writer_thread`. -/
inductive WriterPc where
  | sort
  | getFile
  | createFile
  | lock (file : Nat)
  | write (file : Nat)
  | unlock (file : Nat)
  | finish
  | done
  deriving DecidableEq, Repr

/-- A writer.  Before the sort `buff` is `*buff` from front to back, then from back to
front: the next record to come off is its head. -/
structure Writer where
  pc : WriterPc
  buff : List Record
  capacity : Nat
  deriving DecidableEq, Repr

/-- Where the main thread is; it holds `thread_mutex` while it reaps. -/
inductive MainPc where
  | idle
  | reap (keys : List Nat)
  | reapFinished (keys : List Nat)
  deriving DecidableEq, Repr

/-- Where the game thread is in `close_all`.  `loaded` comes between the two loads of
`get_num_threads`: `threads` says which counter was loaded first, `value` what it
was; `dec` and `inc` record how often it had been decremented, and `num_finished`
incremented. -/
inductive GamePc where
  | idle
  | wait
  | loaded (threads : Bool) (value : Int) (dec inc : Nat)
  | closing
  deriving DecidableEq, Repr

structure State where
  maxWriterThreads : Nat
  batchSize : Nat
  buffer : List Record
  mSequence : Nat
  numProductivity : Nat
  numThreads : Int
  numFinished : Int
  mFinished : List Nat
  mThreads : List Nat
  /-- the writers, whose thread ids are `1, …, started` -/
  writers : Nat → Writer
  started : Nat
  main : MainPc
  game : GamePc
  heap : Nat → File
  nextFile : Nat
  plugins : Nat → Option Nat
  written : List Record
  decThreads : Nat
  decFinished : Nat
  incFinished : Nat

namespace State

def zero (maxWriterThreads batchSize : Nat) : State where
  maxWriterThreads := maxWriterThreads
  batchSize := batchSize
  buffer := []
  mSequence := 0
  numProductivity := maxWriterThreads <<< 1
  numThreads := 0
  numFinished := 0
  mFinished := []
  mThreads := []
  writers := fun _ => ⟨.done, [], 0⟩
  started := 0
  main := .idle
  game := .idle
  heap := fun _ => ⟨0, false, none, true⟩
  nextFile := 0
  plugins := fun _ => none
  written := []
  decThreads := 0
  decFinished := 0
  incFinished := 0

def maxProductivity (s : State) : Nat := s.maxWriterThreads <<< 1

def getNumThreads (s : State) : Int := s.numThreads - s.numFinished

def setWriter (s : State) (id : Nat) (w : Writer) : State :=
  { s with writers := Function.update s.writers id w }

def setFile (s : State) (file : Nat) (f : File) : State :=
  { s with heap := Function.update s.heap file f }

/-! ## Handing a batch over -/

/-- The writer thread for the buffer. -/
def spawn (s : State) : State :=
  let id := s.started + 1
  let capacity := s.batchSize <<< (s.maxProductivity - s.numProductivity)
  { s.setWriter id ⟨.sort, s.buffer, capacity⟩ with
    buffer := []
    started := id
    mThreads := s.mThreads ++ [id]
    numThreads := s.numThreads + 1 }

/-- `write_to_disk`, with what it returns. -/
def writeToDisk (s : State) : State × Bool :=
  if s.buffer.isEmpty then (s, true)
  else if s.getNumThreads ≥ s.maxWriterThreads then
    if s.numProductivity > 0 then
      (({ s with numProductivity := s.numProductivity - 1 } : State).spawn, true)
    else (s, false)
  else if s.numProductivity < s.maxProductivity then
    (({ s with numProductivity := s.numProductivity + 1 } : State).spawn, true)
  else (s.spawn, true)

/-- `write_file` once it has `buffer_mutex`. -/
def writeFile (s : State) (amx : Nat) (time : Int) : State :=
  let flushed := if s.buffer.length ≥ maxLogBufferSize then s.writeToDisk else (s, true)
  let s := flushed.1
  if flushed.2 then
    { s with buffer := s.buffer ++ [⟨amx, s.mSequence, time⟩], mSequence := s.mSequence + 1 }
  else s

/-! ## A writer -/

/-- The top of the loop: what is left needs a file, or the writer finishes. -/
def next (buff : List Record) : WriterPc := if buff.isEmpty then .finish else .getFile

/-- `open_file` returned null: the record is dropped. -/
def skip (s : State) (id : Nat) : State :=
  let w := s.writers id
  s.setWriter id { w with pc := next w.buff.tail, buff := w.buff.tail }

def sort (s : State) (id : Nat) (order : List Record) : Option State :=
  let w := s.writers id
  if w.pc == .sort && order.isPerm w.buff &&
      decide (order.Pairwise fun a b => less b a = false) then
    some (s.setWriter id { w with pc := next order, buff := order.reverse })
  else none

/-- `close_file`, in `get_file`: the file has been locked, and is taken out and deleted. -/
def closeFile (s : State) (amx file : Nat) : State :=
  { s.setFile file { s.heap file with isOpen := false, deleted := true } with
    plugins := Function.update s.plugins amx none }

/-- What `open_file` does when `get_file` has returned null. -/
def noFile (s : State) (id : Nat) (config : Bool) : State :=
  if config then s.setWriter id { s.writers id with pc := .createFile } else s.skip id

/-- `get_file`.  `fileExists` is what the disk says, `config` whether `get_config` finds
the plugin. -/
def getFile (s : State) (id : Nat) (fileExists config : Bool) : Option State :=
  let w := s.writers id
  match w.pc, w.buff with
  | .getFile, record :: _ =>
      match s.plugins record.amx with
      | none => some (s.noFile id config)
      | some file =>
          if (s.heap file).deleted then none
          else if (s.heap file).isOpen && !fileExists then
            match (s.heap file).holder with
            | none => some ((s.closeFile record.amx file).noFile id config)
            | some _ => none
          else some (s.setWriter id { w with pc := .lock file })
  | _, _ => none

/-- `create_file`.  The new file is locked before anyone can see it; the map keeps an
entry that is there already. -/
def createFile (s : State) (id : Nat) (opens : Bool) : Option State :=
  let w := s.writers id
  match w.pc, w.buff with
  | .createFile, record :: _ =>
      let file := s.nextFile
      let s := { s.setFile file ⟨record.amx, opens, some id, false⟩ with nextFile := file + 1 }
      if opens then
        some { s.setWriter id { w with pc := .write file } with
          plugins := Function.update s.plugins record.amx
            (some ((s.plugins record.amx).getD file)) }
      else some (s.skip id)
  | _, _ => none

/-- `file->m.lock()`. -/
def lock (s : State) (id : Nat) : Option State :=
  let w := s.writers id
  match w.pc with
  | .lock file =>
      if (s.heap file).deleted || (s.heap file).holder.isSome then none
      else
        some ((s.setFile file { s.heap file with holder := some id }).setWriter id
          { w with pc := .write file })
  | _ => none

/-- The records that one turn moves to `local_batch`. -/
def batch (w : Writer) : List Record :=
  match w.buff with
  | [] => []
  | record :: _ => (w.buff.takeWhile fun r => r.amx == record.amx).take w.capacity

/-- Whether the next record is of the same plugin as the one before. -/
def continues (buff rest : List Record) : Bool :=
  match buff, rest with
  | record :: _, r :: _ => r.amx == record.amx
  | _, _ => false

/-- `write`, and whether the file is kept for the next turn. -/
def write (s : State) (id : Nat) : Option State :=
  let w := s.writers id
  match w.pc with
  | .write file =>
      if (s.heap file).deleted then none
      else
        let rest := w.buff.drop (batch w).length
        let pc := if continues w.buff rest then .write file else .unlock file
        some { s.setWriter id { w with pc := pc, buff := rest } with
          written := if (s.heap file).isOpen then s.written ++ batch w else s.written }
  | _ => none

/-- `file->m.unlock()`. -/
def unlock (s : State) (id : Nat) : Option State :=
  let w := s.writers id
  match w.pc with
  | .unlock file =>
      if (s.heap file).deleted then none
      else
        some ((s.setFile file { s.heap file with holder := none }).setWriter id
          { w with pc := next w.buff })
  | _ => none

/-- The end of `writer_thread`, under `thread_mutex`. -/
def finish (s : State) (id : Nat) : Option State :=
  let w := s.writers id
  if w.pc == .finish && s.main == .idle then
    some { s.setWriter id { w with pc := .done } with
      mFinished := s.mFinished ++ [id]
      numFinished := s.numFinished + 1
      incFinished := s.incFinished + 1 }
  else none

/-! ## The main thread -/

/-- One step of the reaping loop; the thread it joins has returned. -/
def reap (s : State) : Option State :=
  match s.main with
  | .reap [] => some { s with main := .idle, mFinished := [] }
  | .reap (key :: keys) =>
      if key ∈ s.mThreads then
        some { s with
          main := .reapFinished keys
          mThreads := s.mThreads.erase key
          numThreads := s.numThreads - 1
          decThreads := s.decThreads + 1 }
      else some { s with main := .reap keys }
  | .reapFinished keys =>
      some { s with
        main := .reap keys
        numFinished := s.numFinished - 1
        decFinished := s.decFinished + 1 }
  | .idle => some { s with main := .reap s.mFinished }

/-! ## `close_all` -/

/-- The first load of a turn of the wait. -/
def loadFirst (s : State) (threads : Bool) : Option State :=
  match s.game with
  | .wait =>
      some { s with game :=
        if threads then .loaded true s.numThreads s.decThreads s.incFinished
        else .loaded false s.numFinished s.decFinished s.incFinished }
  | _ => none

/-- The number of threads that the turn computes. -/
def loadedNum (s : State) : Option Int :=
  match s.game with
  | .loaded true value _ _ => some (value - s.numFinished)
  | .loaded false value _ _ => some (s.numThreads - value)
  | _ => none

/-- The second load, and the test of the wait. -/
def loadSecond (s : State) : Option State :=
  s.loadedNum.map fun (num : Int) => { s with game := if num > 0 then .wait else .closing }

/-- No writer has locked the file of a plugin. -/
def filesFree (s : State) : Bool :=
  (List.range s.nextFile).all fun file =>
    s.plugins (s.heap file).amx != some file || (s.heap file).holder.isNone

/-- The files of all plugins are locked, closed and deleted. -/
def closeFiles (s : State) : State :=
  { s with
    game := .idle
    heap := fun file =>
      if s.plugins (s.heap file).amx = some file then
        { s.heap file with isOpen := false, deleted := true }
      else s.heap file
    plugins := fun _ => none }

end State

/-! ## Runs -/

inductive Action where
  | writeFile (amx : Nat) (time : Int)
  | flush
  | reap
  | closeAll
  | loadFirst (threads : Bool)
  | loadSecond
  | closeFiles
  | sort (id : Nat) (order : List Record)
  | getFile (id : Nat) (fileExists config : Bool)
  | createFile (id : Nat) (opens : Bool)
  | lock (id : Nat)
  | write (id : Nat)
  | unlock (id : Nat)
  | finish (id : Nat)
  deriving DecidableEq

/-- One action.  `buffer_mutex` is held by the game thread in `close_all`, and
`thread_mutex` by the main thread while it reaps; `write_to_disk` takes both. -/
def step (s : State) : Action → Option State
  | .writeFile amx time =>
      if s.game == .idle && (s.main == .idle || s.buffer.length < maxLogBufferSize) then
        some (if amx == 0 then s else s.writeFile amx time)
      else none
  | .flush => if s.game == .idle && s.main == .idle then some s.writeToDisk.1 else none
  | .reap => s.reap
  | .closeAll =>
      if s.game == .idle && (s.main == .idle || s.buffer.isEmpty) then
        some { s.writeToDisk.1 with game := .wait }
      else none
  | .loadFirst threads => s.loadFirst threads
  | .loadSecond => s.loadSecond
  | .closeFiles => if s.game == .closing && s.filesFree then some s.closeFiles else none
  | .sort id order => s.sort id order
  | .getFile id fileExists config => s.getFile id fileExists config
  | .createFile id opens => s.createFile id opens
  | .lock id => s.lock id
  | .write id => s.write id
  | .unlock id => s.unlock id
  | .finish id => s.finish id

def machine : Machine State Action where
  init s := ∃ maxWriterThreads batchSize, s = .zero maxWriterThreads batchSize
  step := step

/-- How many writers have been started and have not yet counted themselves finished. -/
def State.running (s : State) : Nat := slots s.started fun id => (s.writers id).pc != .done

end Refsapi.Log
