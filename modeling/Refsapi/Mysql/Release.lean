/-
# Mysql.Release -- what a query owns is released with it

A query owns its data block, its result set and, if it is asynchronous, its
connection.  `Ledger` counts what the steps of a run do to them: a step that leaves
a query with less has freed it, and one that leaves it with more has obtained it.

`free_query` only marks a synchronous query that is not finished, and `poll_query`
deletes it all the same when `stop` has aborted it.  The main result is
`released_of_finished`: where the cleaner meets no such query, each resource has been
freed exactly once when the query is deleted.
-/
import Refsapi.Mysql.Connects
import Refsapi.Mysql.Frames

namespace Refsapi.Mysql

set_option autoImplicit false

variable {s s' : State} {v v' : Slice}

/-! ## The ledger of a query -/

/-- How often the data block was freed, a result set was stored and freed, and a connection
was opened and closed. -/
structure Ledger where
  dataFreed : Nat
  resultStored : Nat
  resultFreed : Nat
  connOpened : Nat
  connClosed : Nat
  deriving DecidableEq

def Ledger.empty : Ledger := ⟨0, 0, 0, 0, 0⟩

/-- A step brings a query from one value to another. -/
def Ledger.enter (l : Ledger) (q q' : Query) : Ledger where
  dataFreed := l.dataFreed + (q.data && !q'.data).toNat
  resultStored := l.resultStored + (!q.result && q'.result).toNat
  resultFreed := l.resultFreed + (q.result && !q'.result).toNat
  connOpened := l.connOpened + (q.conn.isNone && q'.conn.isSome).toNat
  connClosed := l.connClosed + (q.conn.isSome && q'.conn.isNone).toNat

/-- A query that a step makes or deletes brings and takes what it has: neither is a release. -/
def Ledger.next (l : Ledger) : Option Query → Option Query → Ledger
  | some q, some q' => l.enter q q'
  | _, _ => l

/-- The ledgers of all queries after a step. -/
def record (ledger : Nat → Ledger) (s s' : State) : Nat → Ledger :=
  fun id => (ledger id).next (s.mQueries id) (s'.mQueries id)

/-- The machine and its ledgers. -/
abbrev accounted : Machine (State × (Nat → Ledger)) Action :=
  machine.recorded (fun _ => .empty) record

theorem Ledger.enter_of_kept (l : Ledger) {q q' : Query} (data : q'.data = q.data)
    (result : q'.result = q.result) (conn : q'.conn = q.conn) : l.enter q q' = l := by
  cases isConn : q.conn <;> simp [Ledger.enter, data, result, conn, isConn]

@[simp] theorem Ledger.next_self (l : Ledger) (q : Option Query) : l.next q q = l := by
  cases q with
  | none => rfl
  | some q => exact l.enter_of_kept rfl rfl rfl

/-- Result sets are counted where the result changes, connections where the handle does. -/
theorem Ledger.enter_stored (l : Ledger) {q p : Query}
    (result : p.result = true → q.result = true) :
    (l.enter q p).resultStored = l.resultStored := by
  cases before : q.result <;> cases after : p.result <;> simp_all [Ledger.enter]

theorem Ledger.enter_opened (l : Ledger) {q p : Query} (conn : q.conn = none → p.conn = none) :
    (l.enter q p).connOpened = l.connOpened := by
  cases before : q.conn <;> cases after : p.conn <;> simp_all [Ledger.enter]

theorem Ledger.enter_stored_le (l : Ledger) (q q' : Query) :
    (l.enter q q').resultStored ≤ l.resultStored + 1 :=
  Nat.add_le_add_left (Bool.toNat_le _) _

theorem Ledger.enter_opened_le (l : Ledger) (q q' : Query) :
    (l.enter q q').connOpened ≤ l.connOpened + 1 :=
  Nat.add_le_add_left (Bool.toNat_le _) _

theorem Ledger.next_of_kept (l : Ledger) {q q' : Query} {before : Option Query}
    (query : before = some q) (data : q'.data = q.data) (result : q'.result = q.result)
    (conn : q'.conn = q.conn) : l.next before (some q') = l := by
  rw [query]
  exact l.enter_of_kept data result conn

@[simp] theorem Ledger.next_none (l : Ledger) (q : Option Query) : l.next q none = l := by
  cases q <;> rfl

/-! ## What a query owns -/

/-- Nothing of the query is left to release. -/
structure Query.Bare (q : Query) : Prop where
  data : q.data = false
  result : q.result = false
  conn : q.async = true → q.conn = none

theorem Query.Bare.of_less {q q' : Query} (bare : q.Bare) (data : q'.data = true → q.data = true)
    (result : q'.result = true → q.result = true) (conn : q.conn = none → q'.conn = none)
    (async : q'.async = q.async) : q'.Bare := by
  obtain ⟨noData, noResult, noConn⟩ := bare
  refine ⟨?_, ?_, fun isAsync => conn (noConn (async ▸ isAsync))⟩
  · simpa [noData] using data
  · simpa [noResult] using result

theorem Query.Bare.of_kept {q q' : Query} (bare : q.Bare) (data : q'.data = q.data)
    (result : q'.result = q.result) (conn : q'.conn = q.conn) (async : q'.async = q.async) :
    q'.Bare :=
  bare.of_less (data ▸ fun held => held) (result ▸ fun held => held) (conn ▸ fun none => none) async

/-- Each resource that the query had was released exactly once. -/
structure Ledger.Settled (l : Ledger) : Prop where
  data : l.dataFreed = 1
  result : l.resultFreed = l.resultStored ∧ l.resultStored ≤ 1
  conn : l.connClosed = l.connOpened ∧ l.connOpened ≤ 1

/-- What the ledger says of a query that exists. -/
structure Owes (q : Query) (l : Ledger) : Prop where
  data : l.dataFreed + q.data.toNat = 1
  result : l.resultFreed + q.result.toNat = l.resultStored
  conn : l.connClosed + (q.async && q.conn.isSome).toNat = l.connOpened

theorem Owes.enter {q p : Query} {l : Ledger} (owes : Owes q l)
    (data : p.data = true → q.data = true) (async : p.async = q.async)
    (own : q.async = false → p.conn = q.conn) : Owes p (l.enter q p) := by
  obtain ⟨isData, isResult, isConn⟩ := owes
  constructor
  · cases before : q.data <;> cases after : p.data <;> simp_all [Ledger.enter]
  · cases before : q.result <;> cases after : p.result <;> simp_all [Ledger.enter]
  · cases isAsync : q.async with
    | false =>
        have same := own isAsync
        cases conn : q.conn <;> simp_all [Ledger.enter]
    | true =>
        cases before : q.conn <;> cases after : p.conn <;> simp_all [Ledger.enter]

theorem Owes.of_kept {q q' : Query} {l : Ledger} (owes : Owes q l) (data : q'.data = q.data)
    (result : q'.result = q.result) (conn : q'.conn = q.conn) (async : q'.async = q.async) :
    Owes q' l := by
  obtain ⟨isData, isResult, isConn⟩ := owes
  exact ⟨by rw [data]; exact isData, by rw [result]; exact isResult,
    by rw [conn, async]; exact isConn⟩

/-- What a query that is bare owes has been released. -/
theorem Owes.settled {q : Query} {l : Ledger} (owes : Owes q l) (bare : q.Bare)
    (stored : l.resultStored ≤ 1) (opened : l.connOpened ≤ 1) : l.Settled := by
  obtain ⟨data, result, conn⟩ := owes
  have closed : (q.async && q.conn.isSome) = false := by
    cases async : q.async with
    | false => rfl
    | true => simp [bare.conn async]
  rw [bare.data] at data
  rw [bare.result] at result
  rw [closed] at conn
  exact ⟨by simpa using data, ⟨by simpa using result, stored⟩, ⟨by simpa using conn, opened⟩⟩

/-! ## What the uninterrupted functions do to it -/

/-- `mysql_init` is called for a query without a handle only. -/
theorem enterAttempt_conn (connPrms : List FwdPrms) (q : Query) (attempt : Attempt) :
    (enterAttempt connPrms q attempt).1.conn = q.conn ∧
        ((enterAttempt connPrms q attempt).2 = .fresh → False) ∨
      q.conn = none ∧ (enterAttempt connPrms q attempt).1.conn = some ⟨false⟩ := by
  simp only [enterAttempt]
  split
  · exact .inl ⟨rfl, by simp⟩
  split
  · exact .inl ⟨rfl, by simp⟩
  next handle =>
  split
  · exact .inl ⟨rfl, by simp⟩
  split
  · exact .inr ⟨by simpa using handle, rfl⟩
  · exact .inl ⟨rfl, by simp⟩

/-- The rest of an attempt keeps the handle, and a result set comes with a success. -/
theorem finishAttempt_owned (stopThreads : Bool) (q : Query) (way : Way) (attempt : Attempt)
    (fresh : way = .fresh → q.conn ≠ none) :
    ((finishAttempt stopThreads q way attempt).conn = none ↔ q.conn = none) ∧
      ((finishAttempt stopThreads q way attempt).result = q.result ∨
        (finishAttempt stopThreads q way attempt).successful = true) := by
  have conn : (execAttempt q way attempt).conn = none ↔ q.conn = none := by
    cases way with
    | refused => exact Iff.rfl
    | reuse => exact Iff.rfl
    | fresh =>
        simp only [execAttempt]
        split
        · simp [fresh rfl]
        · exact Iff.rfl
  have result : (execAttempt q way attempt).result = q.result := by
    obtain ⟨_, _, same⟩ := execAttempt_control q way attempt
    rw [same]
  simp only [finishAttempt]
  split
  · next success =>
      obtain ⟨kept, same⟩ := getResult_control stopThreads { execAttempt q way attempt with
        successful := (execAttempt q way attempt).failstate == tquerySuccess } attempt.stores
      rw [same]
      exact ⟨conn, .inr success⟩
  · exact ⟨conn, .inl result⟩

/-- `free_query` takes from a query and gives it nothing. -/
theorem freeQuery_less (stopThreads : Bool) (q : Query) :
    ((freeQuery stopThreads q).data = true → q.data = true) ∧
      ((freeQuery stopThreads q).result = true → q.result = true) ∧
      (q.async = false → (freeQuery stopThreads q).conn = q.conn) ∧
      (q.conn = none → (freeQuery stopThreads q).conn = none) ∧
      (freeQuery stopThreads q).async = q.async := by
  grind -ring -linarith [freeQuery]

/-- A query that has ended is bare after `free_query`. -/
theorem freeQuery_bare (stopThreads : Bool) {q : Query}
    (ended : q.finished = true ∨ q.aborted = true)
    (sync : q.async = true ∨ q.finished = true) : (freeQuery stopThreads q).Bare := by
  have data : (freeQuery stopThreads q).data = false := by grind -ring -linarith [freeQuery]
  have result : (freeQuery stopThreads q).result = false := by grind -ring -linarith [freeQuery]
  exact ⟨data, result, fun _ => by grind -ring -linarith [freeQuery]⟩

/-- A result set of `exec_query` is that of its only call. -/
theorem execQuery_owned (stopThreads : Bool) (q : Query) (err stores : Bool) :
    execQuery stopThreads q err stores = q ∨
      q.started = false ∧ q.finished = false ∧
        (execQuery stopThreads q err stores).started = true ∧
        ((execQuery stopThreads q err stores).result = false → q.result = false) := by
  simp only [execQuery]
  split
  · exact .inl rfl
  next valid =>
  refine .inr ?_
  simp only [isValidConn, Bool.or_eq_true, not_or, Bool.not_eq_true] at valid
  have idle : q.started = false ∧ q.finished = false := by
    simp_all
  split
  · exact ⟨idle.1, idle.2, rfl, fun none => none⟩
  · refine ⟨idle.1, idle.2, ?_, ?_⟩ <;> unfold getResult <;> split <;> simp +contextual

/-! ## The invariant -/

structure Owned (v : Slice) (l : Ledger) : Prop where
  unmade : ¬ v.made → l = .empty
  once : l.resultStored ≤ 1 ∧ l.connOpened ≤ 1
  owes : ∀ q, v.query = some q → Owes q l
  stored : ∀ q, v.query = some q → 0 < l.resultStored →
    if q.async then q.successful = true else q.started = true
  opened : ∀ q, v.query = some q → 0 < l.connOpened →
    q.conn ≠ none ∨ q.framed = true ∨ v.visit = .erase
  fresh : ∀ tid q, v.threads = [⟨tid, .exec .fresh⟩] → v.query = some q → q.conn ≠ none
  swept : v.visit = .erase → ∀ q, v.query = some q → q.Bare ∧ (q.async = false → q.finished = true)
  freed : ∀ q, .freed v.id q ∈ v.history → v.query = none ∧ v.made ∧ q.Bare ∧ l.Settled

/-- The step frees no synchronous query that is not finished. -/
def Sweeps (v v' : Slice) : Prop :=
  v.visit = .none → v'.visit = .erase → ∀ q, v.query = some q → q.async = true ∨ q.finished = true

attribute [grind cases] Owned

/-- A step that takes nothing from a query and gives it nothing. -/
theorem Owned.of_kept {l : Ledger} {q q' : Query} (owned : Owned v l) (made : v'.made)
    (query : v.query = some q) (after : v'.query = some q')
    (same : q'.data = q.data ∧ q'.result = q.result ∧ q'.conn = q.conn ∧ q'.async = q.async)
    (stored : if q.async then q.successful = true → q'.successful = true
      else q.started = true → q'.started = true)
    (opened : q.framed = true ∨ v.visit = .erase → q'.framed = true ∨ v'.visit = .erase)
    (fresh : ∀ tid, v'.threads = [⟨tid, .exec .fresh⟩] → v.threads = [⟨tid, .exec .fresh⟩])
    (swept : v'.visit = .erase → v.visit = .erase ∧ (q.finished = true → q'.finished = true))
    (freed : ∀ p, .freed v'.id p ∈ v'.history → .freed v.id p ∈ v.history) : Owned v' l := by
  obtain ⟨data, result, conn, async⟩ := same
  refine ⟨fun unmade => absurd made unmade, owned.once, ?_, ?_, ?_, ?_, ?_, fun p isFreed => ?_⟩
  · intro p isP
    obtain rfl : q' = p := Option.some.inj (after.symm.trans isP)
    exact (owned.owes q query).of_kept data result conn async
  · intro p isP isStored
    obtain rfl : q' = p := Option.some.inj (after.symm.trans isP)
    have before := owned.stored q query isStored
    rw [async]
    cases isAsync : q.async <;> simp only [isAsync, Bool.false_eq_true, if_false, if_true] at *
    · exact stored before
    · exact stored before
  · intro p isP isOpened
    obtain rfl : q' = p := Option.some.inj (after.symm.trans isP)
    rw [conn]
    exact (owned.opened q query isOpened).imp_right opened
  · intro tid p isFresh isP
    obtain rfl : q' = p := Option.some.inj (after.symm.trans isP)
    rw [conn]
    exact owned.fresh tid q (fresh tid isFresh) query
  · intro erases p isP
    obtain rfl : q' = p := Option.some.inj (after.symm.trans isP)
    obtain ⟨erased, finished⟩ := swept erases
    obtain ⟨bare, sync⟩ := owned.swept erased q query
    exact ⟨bare.of_kept data result conn async, fun isSync => finished (sync (async ▸ isSync))⟩
  · have none := (owned.freed p (freed p isFreed)).1
    rw [query] at none
    cases none

theorem Owned.step {l : Ledger} (good : Good v) (owned : Owned v l) (allowed : Sweeps v v')
    (life : Life v v') : Owned v' (l.next v.query v'.query) := by
  obtain ⟨poll, -, threads, queryOk⟩ := good
  cases life with
  | stay | scanEnd | skip | freeEnd | addConnect | startFrame | backFrame | callback | stop
  | stopFrames | stopThreads | abortEnd | unlock | clear | createEnd | begin | joinEnd =>
      rw [Ledger.next_self]
      exact { owned with }
  | marked | reapYes | reapNo | reap | release =>
      rw [Ledger.next_self]
      clear queryOk threads
      refine { owned with opened := ?_, swept := ?_ } <;> grind -ring -linarith
  | deliver | heapLow =>
      simp only [Slice.emit, Ledger.next_self]
      clear queryOk threads
      refine { owned with freed := ?_ }
      grind -ring -linarith
  | @turnBack tid q thread
  | @start tid q thread
  | @retestBack tid q thread
  | @retestOn tid q thread
  | @push tid thread
  | @count tid thread =>
      rw [goto_of_only (by exact (threads.only thread).1)]
      simp only [Slice.emit, Ledger.next_self]
      clear queryOk threads
      refine { owned with fresh := ?_, freed := ?_ } <;> grind -ring -linarith
  | join =>
      rw [Ledger.next_self]
      clear queryOk
      refine { owned with fresh := ?_ }
      grind -ring -linarith
  | @lock tid q thread query
  | @finish tid q thread query =>
      rw [goto_of_only (by exact (threads.only thread).1)]
      rw [l.next_of_kept query]
      · refine owned.of_kept (queryOk q query).made.1 query rfl ⟨rfl, rfl, rfl, rfl⟩ ?_ ?_
          (by simp) (fun erases => ⟨erases, by simp⟩) fun _ => id
        · cases q.async <;> exact id
        · simp +contextual
      all_goals rfl
  | @select q _ _ _ query
  | @again q _ query
  | @spent q _ query
  | @create q _ _ _ query
  | @createFail q _ _ query
  | @finishFrame q _ query
  | @abort _ q _ query =>
      have ok := queryOk q query
      simp only [Slice.emit]
      rw [l.next_of_kept query]
      · refine owned.of_kept ok.made.1 query rfl ⟨rfl, rfl, rfl, rfl⟩ ?_ ?_ ?_ ?_ ?_
        all_goals clear queryOk threads owned
        all_goals grind -ring -linarith
      all_goals rfl
  | @erase q visit query =>
      have bare := (owned.swept visit q query).1
      have settled := (owned.owes q query).settled bare owned.once.1 owned.once.2
      have made := (queryOk q query).made.1
      simp only [Ledger.next_none, Slice.emit]
      clear queryOk threads
      constructor <;> grind -ring -linarith
  | prepare conn async pri connId time unmade idle inRange unconnected =>
      obtain ⟨gone, none, unreaped, unframed, idle, unheard⟩ := poll.unmade unmade
      have empty := owned.unmade unmade
      clear queryOk threads
      simp only [Slice.emit, gone]
      have owes : Owes (newQuery v.id conn async pri connId time) .empty := by
        refine ⟨rfl, rfl, ?_⟩
        cases async with
        | false => rfl
        | true => simp [newQuery, unconnected rfl, Ledger.empty]
      constructor <;> grind -ring -linarith [newQuery, Ledger.next, Ledger.empty]
  | @enter tid q attempt thread query =>
      obtain ⟨only, old⟩ := threads.only thread
      have live := old.live _ query
      have ok := queryOk q query
      have fresh := enterAttempt_conn v.conns q attempt
      obtain ⟨conn, fwd, control⟩ := enterAttempt_control v.conns q attempt
      have owes := (owned.owes q query).enter (p := (enterAttempt v.conns q attempt).1)
        (by rw [control]; exact id) (by rw [control]) (by grind -ring -linarith)
      rw [goto_of_only (by exact only)]
      simp only [Slice.emit, query, Ledger.next]
      have stored := l.enter_stored (p := (enterAttempt v.conns q attempt).1) (q := q)
        (by rw [control]; exact id)
      have least := l.enter_opened_le q (enterAttempt v.conns q attempt).1
      have unframed : q.framed = false ∧ v.visit ≠ .erase := by
        clear queryOk threads fresh control stored least owes
        grind -ring -linarith
      have unopened : q.conn = none → l.connOpened = 0 := by
        have opened := owned.opened q query
        grind -ring -linarith
      have same := l.enter_opened (q := q) (p := (enterAttempt v.conns q attempt).1)
      rw [control] at fresh owes stored least same ⊢
      generalize l.enter q _ = l' at owes stored least same ⊢
      clear queryOk threads control allowed ok
      constructor <;> grind -ring -linarith
  | @exec tid q way attempt thread query =>
      obtain ⟨only, old⟩ := threads.only thread
      have live := old.live _ query
      have started := owned.stored q query
      obtain ⟨isConn, isResult⟩ := finishAttempt_owned v.stopThreads q way attempt (by
        rintro rfl
        exact owned.fresh tid q only query)
      obtain ⟨_, _, _, control⟩ := finishAttempt_control v.stopThreads q way attempt
      have owes := (owned.owes q query).enter (p := finishAttempt v.stopThreads q way attempt)
        (by rw [control]; exact id) (by rw [control]) (by grind -ring -linarith)
      have unstored : l.resultStored = 0 ∧ v.visit ≠ .erase := by
        have ok := queryOk q query
        clear queryOk threads isConn isResult control owes
        grind -ring -linarith
      have opened := l.enter_opened (q := q) (p := finishAttempt v.stopThreads q way attempt)
        isConn.2
      have least := l.enter_stored_le q (finishAttempt v.stopThreads q way attempt)
      have kept := l.enter_stored (q := q) (p := finishAttempt v.stopThreads q way attempt)
      have succeeded : 0 < (l.enter q (finishAttempt v.stopThreads q way attempt)).resultStored →
          (finishAttempt v.stopThreads q way attempt).successful = true := by
        intro stored
        rcases isResult with same | success
        · rw [kept (by rw [same]; exact id), unstored.1] at stored
          cases stored
        · exact success
      rw [goto_of_only (by exact only)]
      simp only [Slice.emit, query, Ledger.next]
      rw [control] at isConn owes opened least succeeded ⊢
      generalize l.enter q _ = l' at owes opened least succeeded ⊢
      generalize (_ == tquerySuccess) = successful at isConn owes succeeded ⊢
      clear queryOk threads control allowed
      constructor <;> grind -ring -linarith
  | @free q frees visit removed query =>
      have ok := queryOk q query
      have sync := allowed visit rfl q query
      have bare := freeQuery_bare v.stopThreads (q := q) (by grind -ring -linarith) sync
      obtain ⟨data, result, conn, lost, async⟩ := freeQuery_less v.stopThreads q
      have owes := (owned.owes q query).enter data async conn
      have stored := l.enter_stored result
      have opened := l.enter_opened lost
      obtain ⟨_, _, _, control⟩ := freeQuery_control v.stopThreads q
      simp only [query, Ledger.next]
      rw [control] at bare owes stored opened ⊢
      generalize l.enter q _ = l' at owes stored opened ⊢
      clear queryOk control allowed data result conn lost
      constructor <;> grind -ring -linarith
  | @freeQuery q query held =>
      have ok := queryOk q query
      obtain ⟨data, result, conn, lost, async⟩ := freeQuery_less v.stopThreads q
      have owes := (owned.owes q query).enter data async conn
      have stored := l.enter_stored result
      have opened := l.enter_opened lost
      obtain ⟨_, _, _, control⟩ := freeQuery_control v.stopThreads q
      simp only [query, Ledger.next]
      have bare : q.Bare → (freeQuery v.stopThreads q).Bare := fun bare =>
        bare.of_less data result lost async
      rw [control] at owes stored opened bare conn ⊢
      generalize l.enter q _ = l' at owes stored opened ⊢
      clear queryOk control allowed data result lost async
      constructor <;> grind -ring -linarith
  | @execQuery q err stores query held =>
      have ok := queryOk q query
      obtain same | ⟨idle, unfinished, started, result⟩ :=
        execQuery_owned v.stopThreads q err stores
      · rw [same, query, Ledger.next_self, ← query]
        exact { owned with }
      · have sync : q.async = false := by
          by_contra async
          have started := ok.started_of_held (by simpa using async) held
          rw [idle] at started
          cases started
        have unstored := owned.stored q query
        have least := l.enter_stored_le q (execQuery v.stopThreads q err stores)
        obtain ⟨_, _, _, _, control⟩ := execQuery_control v.stopThreads q err stores
        have owes := (owned.owes q query).enter (p := execQuery v.stopThreads q err stores)
          (by rw [control]; exact fun data => data) (by rw [control])
          (by rw [control]; exact fun _ => rfl)
        have opened := l.enter_opened (q := q) (p := execQuery v.stopThreads q err stores)
          (by rw [control]; exact fun none => none)
        simp only [query, Ledger.next]
        rw [control] at owes opened least started ⊢
        generalize l.enter q _ = l' at owes opened least ⊢
        clear queryOk threads control allowed
        constructor <;> grind -ring -linarith

/-! ## Every run -/

/-- The cleaner of `poll_query` takes up no synchronous query that is not finished. -/
def FreesFinished (s : State) (a : Action) : Prop :=
  ∀ created id rest q, a = .poll created → s.poll.pc = .free →
    s.poll.finishedQueries = id :: rest → s.mQueries id = some q →
    q.async = true ∨ q.finished = true

theorem visit_eq_erase {pc : PollPc} {id : Nat} : pc.visit id = .erase ↔ pc = .erase id := by
  cases pc <;> simp only [PollPc.visit, reduceCtorEq] <;> split <;> simp_all

/-- The cleaner comes to a query from the list of those to release. -/
theorem PollMove.sweeps {id : Nat} (move : PollMove s s') (before : s.poll.pc ≠ .erase id)
    (after : s'.poll.pc = .erase id) :
    s.poll.pc = .free ∧ ∃ rest, s.poll.finishedQueries = id :: rest := by
  cases move with
  | @free id' rest q pc head query =>
      obtain rfl : id' = id := by simpa using after
      exact ⟨pc, rest, head⟩
  | @spent id' q | @release id' q =>
      unfold State.release at after
      split at after <;> cases after
  | select pc | skip pc =>
      have same : s.poll.pc = .erase id := after
      rw [pc] at same
      cases same
  | create pc | createFail pc | join pc =>
      have same : s.poll.pc = .erase id := after
      rw [pc] at same
      cases same
  | _ => cases after

theorem owned_of_reaches {x : State × (Nat → Ledger)}
    (run : accounted.Reaches (fun x a => FreesFinished x.1 a) x) (id : Nat) :
    Owned (slice x.1 id) (x.2 id) := by
  refine Machine.Reaches.invariant (I := fun x => Owned (slice x.1 id) (x.2 id)) ?_ ?_ run
  · rintro ⟨s, ledger⟩ ⟨⟨maxThreads, rfl⟩, rfl⟩
    constructor <;> simp [slice, State.start, Ledger.empty, Poll.idle, PollPc.visit]
  · rintro x a x' before owned allowed moved
    obtain ⟨moved, kept⟩ := Machine.recorded_step moved
    have reached := (Machine.Reaches.of_recorded before).reachable
    have ledger : x'.2 id = (x.2 id).next (slice x.1 id).query (slice x'.1 id).query :=
      congrFun kept id
    rw [ledger]
    refine owned.step (good_of_reachable reached id) ?_ (slice_step moved id)
    intro unvisited sweeps q query
    have after := visit_eq_erase.1 sweeps
    obtain ⟨created, rfl⟩ | same := poll_step moved
    · have before : x.1.poll.pc ≠ .erase id := fun visited => by
        cases (visit_eq_erase.2 visited).symm.trans unvisited
      obtain ⟨pc, rest, head⟩ := (pollStep_move moved).sweeps before after
      exact allowed created id rest q rfl pc head query
    · rw [same] at after
      cases (visit_eq_erase.2 after).symm.trans unvisited

/-- **Nothing is lost with a query.**  In every run whose cleaner takes up no unfinished
synchronous query, a query that is deleted has no data block, no result set and, if it is
asynchronous, no connection left; each that it had was released exactly once. -/
theorem released_of_finished {x : State × (Nat → Ledger)}
    (run : accounted.Reaches (fun x a => FreesFinished x.1 a) x) {id : Nat} {q : Query}
    (freed : .freed id q ∈ x.1.log) : q.Bare ∧ (x.2 id).Settled := by
  have inHistory : .freed id q ∈ (slice x.1 id).history := (mem_history rfl).2 freed
  exact ((owned_of_reaches run id).freed q inHistory).2.2

/-- What `free_query` leaves a query that the cleaner takes up: it is bare exactly when it
is asynchronous or was finished. -/
theorem bare_iff {x : State × (Nat → Ledger)}
    (run : accounted.Reaches (fun x a => FreesFinished x.1 a) x) {id : Nat} {q : Query}
    (query : x.1.mQueries id = some q) (unfreed : (x.2 id).dataFreed = 0)
    (ended : q.finished = true ∨ q.aborted = true) :
    (freeQuery x.1.stopThreads q).Bare ↔ q.async = true ∨ q.finished = true := by
  constructor
  · intro bare
    by_contra unfinished
    simp only [not_or, Bool.not_eq_true] at unfinished
    have data := ((owned_of_reaches run id).owes q query).data
    have kept := bare.data
    simp [freeQuery, unfinished, unfreed] at kept data
    simp [kept] at data
  · exact freeQuery_bare x.1.stopThreads ended

/-- `FreesFinished`, of the steps that the query table decides. -/
def freesFinished (s : State) : Action → Bool
  | .poll _ =>
      match s.poll.finishedQueries with
      | [] => true
      | id :: _ =>
          match s.mQueries id with
          | none => true
          | some q => q.async || q.finished
  | _ => true

theorem freesFinished_sound (s : State) (a : Action) (ok : freesFinished s a = true) :
    FreesFinished s a := by
  rintro created id rest q rfl - head query
  simpa [freesFinished, head, query] using ok

/-- A synchronous query that is executed and freed, and an asynchronous one whose handler is
called. -/
def bothKinds : List Action :=
  [.game (.query (some ⟨true⟩) 0), .game (.execQuery 1 false true), .game (.freeQuery 1),
    .game (.addConnect ⟨1, 1⟩), .game (.pushQuery 1 0 0)] ++ pollSteps 13 ++
    succeedingAttempt 2 0 6 ++ [.game (.startFrame 2)] ++
    List.replicate 4 (.game (.next true true)) ++ pollSteps 8

def Event.isFreed (id : Nat) : Event → Bool
  | .freed x _ => x == id
  | _ => false

theorem exists_freed {log : List Event} {id : Nat} (any : log.any (Event.isFreed id) = true) :
    ∃ q, .freed id q ∈ log := by
  obtain ⟨e, member, same⟩ := List.any_eq_true.1 any
  cases e with
  | freed x q =>
      obtain rfl : x = id := by simpa [Event.isFreed] using same
      exact ⟨q, member⟩
  | _ => cases same

theorem released_of_finished_both : ∃ x : State × (Nat → Ledger), ∃ q r : Query,
    .freed 1 q ∈ x.1.log ∧ .freed 2 r ∈ x.1.log ∧
      (q.Bare ∧ (x.2 1).Settled) ∧ r.Bare ∧ (x.2 2).Settled := by
  have ends : (accounted.execIf (fun x a => freesFinished x.1 a) (.start 4, fun _ => .empty)
      bothKinds).map (fun x => x.1.log.any (Event.isFreed 1) && x.1.log.any (Event.isFreed 2)) =
        some true := by decide
  obtain ⟨x, run, both⟩ := Machine.exists_reaches (M := accounted)
    (fun x a => freesFinished_sound x.1 a) ⟨⟨4, rfl⟩, rfl⟩ ends
  obtain ⟨sync, async⟩ := Bool.and_eq_true_iff.1 both
  obtain ⟨q, freedSync⟩ := exists_freed sync
  obtain ⟨r, freedAsync⟩ := exists_freed async
  exact ⟨x, q, r, freedSync, freedAsync, released_of_finished run freedSync,
    released_of_finished run freedAsync⟩

/-- A synchronous query is executed and not freed when `stop` comes. -/
def stoppedQuery : List Action :=
  [.game (.query (some ⟨true⟩) 0), .game (.execQuery 1 false true), .game .stop] ++
    List.replicate 6 (.game (.next true true)) ++ pollSteps 8

/-- A query can be deleted with its data block and its result set. -/
theorem not_always_released : ¬ ∀ x : State × (Nat → Ledger), accounted.Reachable x →
    ∀ id q, .freed id q ∈ x.1.log → q.Bare ∧ (x.2 id).Settled := by
  intro always
  have ends : (accounted.exec (.start 4, fun _ => .empty) stoppedQuery).map
      (fun x => x.1.log.any (Event.isFreed 1) && (x.2 1).dataFreed == 0) = some true := by decide
  obtain ⟨x, run, facts⟩ := Machine.exists_reachable (M := accounted) ⟨⟨4, rfl⟩, rfl⟩ ends
  obtain ⟨any, unfreed⟩ := Bool.and_eq_true_iff.1 facts
  obtain ⟨q, freed⟩ := exists_freed any
  have settled := (always x run 1 q freed).2.data
  rw [beq_iff_eq.1 unfreed] at settled
  cases settled

end Refsapi.Mysql
