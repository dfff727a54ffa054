/-
# Mysql.Results -- `get_result` and the results of a statement

A statement has a result, and behind it there may be more.  `get_result` keeps the first
one, with a table of its columns, and takes the others off the connection.

The client library is outside: it is a `Client`, and of a connection only what its
documentation tells is assumed (`Documented`), in terms of a `View` of what the server has
still to send.  A call that is begun with `_start` and gone on with in `_cont` is one call.
-/
import Refsapi.Misc.Wide
import Refsapi.Mysql.Model
import Mathlib.Data.List.Count

namespace Refsapi.Mysql

set_option autoImplicit false

/-! ## The client library -/

/-- A `MYSQL_RES`: which of the results of the statement it is of, and the names of its
fields. -/
structure Res where
  index : Nat
  fields : List Text
  deriving DecidableEq

/-- The functions of the client library that `get_result` calls on a connection. -/
structure Client (σ : Type) where
  storeResult : σ → Option Res × σ
  useResult : σ → Option Res × σ
  fieldCount : σ → Nat
  nextResult : σ → Int × σ
  /-- whether there was a row -/
  fetchRow : Res → σ → Bool × σ
  freeResult : Res → σ → σ

/-- What the server answers to one statement: rows under columns, no rows at all, or what the
library makes a null of although there should be columns. -/
inductive Packet where
  | rows (fields : List Text) (count : Nat)
  | ok
  | error (columns : Nat)
  deriving DecidableEq

namespace Packet

def columns : Packet → Nat
  | rows fields _ => fields.length
  | ok => 0
  | error columns => columns

def isRows : Packet → Bool
  | rows _ _ => true
  | _ => false

/-- What a call has of it that stores or uses it. -/
def res (index : Nat) : Packet → Option Res
  | rows fields _ => some ⟨index, fields⟩
  | _ => none

def count : Packet → Nat
  | rows _ count => count
  | _ => 0

end Packet

inductive Status where
  | ready
  /-- a result is there to be stored or used -/
  | pending (packet : Packet)
  /-- a result is in use, with some rows to be fetched -/
  | inUse (rows : Nat)

structure View where
  status : Status
  fieldCount : Nat
  more : List Packet
  /-- the number of the result -/
  index : Nat
  /-- the results that have been freed, latest first -/
  freed : List Nat

/-- The status after a result has been used. -/
def Packet.used : Packet → Status
  | rows _ count => .inUse count
  | _ => .ready

/-- What the documentation tells of the functions. -/
structure Documented {σ : Type} (client : Client σ) (view : σ → View) : Prop where
  store : ∀ s packet, (view s).status = .pending packet →
    (client.storeResult s).1 = packet.res (view s).index ∧
      view (client.storeResult s).2 = { view s with status := .ready }
  use : ∀ s packet, (view s).status = .pending packet →
    (client.useResult s).1 = packet.res (view s).index ∧
      view (client.useResult s).2 = { view s with status := packet.used }
  fieldCount : ∀ s, client.fieldCount s = (view s).fieldCount
  next : ∀ s packet rest, (view s).status = .ready → (view s).more = packet :: rest →
    (client.nextResult s).1 = 0 ∧
      view (client.nextResult s).2 = { view s with
        status := .pending packet
        fieldCount := packet.columns
        more := rest
        index := (view s).index + 1 }
  /-- there is no other result -/
  last : ∀ s, (view s).more = [] →
    (client.nextResult s).1 ≠ 0 ∧ view (client.nextResult s).2 = view s
  /-- the command is out of sync -/
  outOfSync : ∀ s rows, (view s).status = .inUse rows →
    (client.nextResult s).1 ≠ 0 ∧ view (client.nextResult s).2 = view s
  fetch : ∀ s res rows, (view s).status = .inUse (rows + 1) →
    (client.fetchRow res s).1 = true ∧
      view (client.fetchRow res s).2 = { view s with status := .inUse rows }
  fetchEnd : ∀ s res, (view s).status = .inUse 0 →
    (client.fetchRow res s).1 = false ∧
      view (client.fetchRow res s).2 = { view s with status := .ready }
  free : ∀ s res, (view s).status = .ready →
    view (client.freeResult res s) = { view s with freed := res.index :: (view s).freed }

/-! ## `get_result` -/

/-- What `get_result` reads and writes of a query. -/
structure Outcome where
  result : Option Res
  isBuffered : Bool
  fNames : Text → Option Nat
  fCount : Nat

/-- `f_names.insert({name, i})`. -/
def insertName (fNames : Text → Option Nat) (name : Text) (i : Nat) : Text → Option Nat :=
  if (fNames name).isSome then fNames else Function.update fNames name (some i)

/-- The loop over the columns.  It reads `q->result->fields[i].name`. -/
def fillNames (result : Option Res) (count : Nat) : Option (Text → Option Nat) :=
  (List.range count).foldlM (fun fNames i => do
    let res ← result
    let name ← res.fields[i]?
    some (insertName fNames name i)) fun _ => none

namespace Client

variable {σ : Type} (client : Client σ)

/-- The two ways to come to a result. -/
def takeResult (isBuffered : Bool) (s : σ) : Option Res × σ :=
  if isBuffered then client.storeResult s else client.useResult s

/-- The rows of a result that is in use are read to their end. -/
def readRows (extra : Res) : Nat → σ → Option σ
  | 0, _ => none
  | fuel + 1, s =>
      let row := client.fetchRow extra s
      if row.1 then readRows extra fuel row.2 else some row.2

/-- The loop over the other results. -/
def skipResults (isBuffered : Bool) : Nat → σ → Option σ
  | 0, _ => none
  | fuel + 1, s =>
      let next := client.nextResult s
      if next.1 ≠ 0 then some next.2
      else
        let taken := client.takeResult isBuffered next.2
        match taken.1 with
        | none => skipResults isBuffered fuel taken.2
        | some extra => do
            let s ← (if isBuffered then some taken.2 else client.readRows extra fuel taken.2)
            skipResults isBuffered fuel (client.freeResult extra s)

/-- `get_result(q, is_buffered)`; `none` where a null is read. -/
def getResult (fuel : Nat) (isValidConn isBuffered : Bool) (q : Outcome) (s : σ) :
    Option (Bool × Outcome × σ) :=
  if !isValidConn then some (false, q, s)
  else if q.result.isSome then some (true, q, s)
  else do
    let taken := client.takeResult isBuffered s
    let fCount := client.fieldCount taken.2
    let fNames ← fillNames taken.1 fCount
    let s ← client.skipResults isBuffered fuel taken.2
    some (taken.1.isSome, ⟨taken.1, isBuffered, fNames, fCount⟩, s)

end Client

/-! ## The columns -/

/-- The table describes the columns of the result. -/
def Outcome.Described (q : Outcome) : Prop :=
  q.fCount = ((q.result.map Res.fields).getD []).length ∧
    ∀ name, q.fNames name = ((q.result.map Res.fields).getD []).idxOf? name

/-- Every entry of the table is the number of a column. -/
theorem Outcome.Described.lt {q : Outcome} (described : q.Described) {name : Text} {i : Nat}
    (entry : q.fNames name = some i) : i < q.fCount := by
  rw [described.2] at entry
  rw [described.1]
  exact (List.findIdx?_eq_some_iff_findIdx_eq.1 entry).1

theorem idxOf?_concat (fields : List Text) (field name : Text) :
    (fields ++ [field]).idxOf? name =
      (fields.idxOf? name).or (if field = name then some fields.length else none) := by
  rw [List.idxOf?, List.findIdx?_append]
  by_cases same : field = name
  · simp [List.findIdx?_cons, same]
  · simp [List.findIdx?_cons, same]

/-- A column is inserted behind those that are there. -/
theorem insertName_idxOf? (fields : List Text) (field : Text) :
    insertName (fun name => fields.idxOf? name) field fields.length =
      fun name => (fields ++ [field]).idxOf? name := by
  funext name
  rw [idxOf?_concat]
  unfold insertName
  by_cases same : field = name
  · subst same
    cases known : fields.idxOf? field with
    | some i => simp [known]
    | none => simp [known]
  · by_cases known : (fields.idxOf? field).isSome = true
    · simp [known, same]
    · simp [known, same, Function.update_of_ne (Ne.symm same)]

theorem fillNames_some (res : Res) :
    fillNames (some res) res.fields.length = some fun name => res.fields.idxOf? name := by
  have upTo (k : Nat) (le : k ≤ res.fields.length) : fillNames (some res) k =
      some fun name => (res.fields.take k).idxOf? name := by
    induction k with
    | zero => simp [fillNames, List.idxOf?]
    | succ k ih =>
        have inside : k < res.fields.length := le
        have before := ih (by omega)
        unfold fillNames at before ⊢
        rw [List.range_succ, List.foldlM_append, before]
        have length : (res.fields.take k).length = k := by simp; omega
        simp only [bind, Option.bind, List.foldlM, List.getElem?_eq_getElem inside]
        have step := insertName_idxOf? (res.fields.take k) res.fields[k]
        rw [length, List.take_append_getElem] at step
        rw [← step]
        rfl
  simpa using upTo _ (Nat.le_refl _)

theorem fillNames_none (count : Nat) :
    fillNames none count = if count = 0 then some fun _ => none else none := by
  cases count with
  | zero => rfl
  | succ n => simp [fillNames, List.range_succ_eq_map]

/-! ## The other results -/

section Others

variable {σ : Type} {client : Client σ} {view : σ → View} {s : σ} {isBuffered : Bool}

theorem takeResult_view (lib : Documented client view) (isBuffered : Bool) {packet : Packet}
    (pending : (view s).status = .pending packet) :
    (client.takeResult isBuffered s).1 = packet.res (view s).index ∧
      view (client.takeResult isBuffered s).2 =
        { view s with status := if isBuffered then .ready else packet.used } := by
  cases isBuffered with
  | true => exact lib.store s packet pending
  | false => exact lib.use s packet pending

/-- The rows that are left are read. -/
theorem readRows_ends (lib : Documented client view) (extra : Res) {rows fuel : Nat}
    (inUse : (view s).status = .inUse rows) (enough : rows < fuel) :
    ∃ s', client.readRows extra fuel s = some s' ∧ view s' = { view s with status := .ready } := by
  induction rows generalizing s fuel with
  | zero =>
      obtain _ | fuel := fuel
      · cases enough
      obtain ⟨none, after⟩ := lib.fetchEnd s extra inUse
      exact ⟨_, by simp [Client.readRows, none], after⟩
  | succ rows ih =>
      obtain _ | fuel := fuel
      · cases enough
      obtain ⟨row, after⟩ := lib.fetch s extra rows inUse
      obtain ⟨s', reads, ends⟩ := ih (s := (client.fetchRow extra s).2) (by rw [after])
        (Nat.lt_of_succ_lt_succ enough)
      exact ⟨s', by simp [Client.readRows, row, reads], by rw [ends, after]⟩

/-- The steps that the other results take. -/
def effort : List Packet → Nat
  | [] => 1
  | packet :: rest => packet.count + 1 + effort rest

theorem effort_pos (rest : List Packet) : 0 < effort rest := by
  cases rest with
  | nil => exact Nat.one_pos
  | cons packet rest =>
      simp only [effort]
      omega

/-- The numbers of the results that have rows. -/
def rowsFrom (index : Nat) : List Packet → List Nat
  | [] => []
  | packet :: rest =>
      if packet.isRows then index :: rowsFrom (index + 1) rest else rowsFrom (index + 1) rest

theorem count_rowsFrom (index i : Nat) (rest : List Packet) :
    (rowsFrom index rest).count i =
      if index ≤ i ∧ rest[i - index]?.any Packet.isRows = true then 1 else 0 := by
  induction rest generalizing index with
  | nil => simp [rowsFrom]
  | cons packet rest ih =>
      have here : (if packet.isRows then index :: rowsFrom (index + 1) rest
          else rowsFrom (index + 1) rest).count i =
            (if packet.isRows ∧ index = i then 1 else 0) + (rowsFrom (index + 1) rest).count i := by
        by_cases rows : packet.isRows = true <;> simp [rows, List.count_cons, Nat.add_comm]
      rw [rowsFrom, here, ih]
      rcases Nat.lt_trichotomy i index with before | rfl | behind
      · simp [Nat.not_le.2 before, show ¬ index + 1 ≤ i by omega, Nat.ne_of_gt before]
      · simp [show ¬ i + 1 ≤ i by omega]
      · obtain ⟨k, rfl⟩ := Nat.exists_eq_add_of_lt behind
        have away : index + k + 1 - index = k + 1 := by omega
        have closer : index + k + 1 - (index + 1) = k := by omega
        simp [away, closer, Nat.ne_of_lt behind, Nat.le_of_lt behind]

/-- Where the connection is free every other result is taken off it, and freed if it has
rows. -/
theorem skipResults_ends (lib : Documented client view) (isBuffered : Bool) {rest : List Packet}
    {fuel : Nat} (ready : (view s).status = .ready) (more : (view s).more = rest)
    (enough : effort rest ≤ fuel) :
    ∃ s', client.skipResults isBuffered fuel s = some s' ∧ (view s').more = [] ∧
      (view s').freed = (rowsFrom ((view s).index + 1) rest).reverse ++ (view s).freed := by
  induction rest generalizing s fuel with
  | nil =>
      obtain _ | fuel := fuel
      · cases enough
      obtain ⟨none, same⟩ := lib.last s more
      refine ⟨(client.nextResult s).2, by simp [Client.skipResults, none], ?_, ?_⟩
      · rw [same, more]
      · rw [same]
        rfl
  | cons packet rest ih =>
      have positive := effort_pos rest
      simp only [effort] at enough
      obtain _ | fuel := fuel
      · omega
      obtain ⟨found, begun⟩ := lib.next s packet rest ready more
      have pending : (view (client.nextResult s).2).status = .pending packet := by rw [begun]
      obtain ⟨res, taken⟩ := takeResult_view lib isBuffered pending
      rw [begun] at res taken
      cases packet with
      | ok | error =>
          obtain ⟨s', skips, none, freed⟩ := ih
            (s := (client.takeResult isBuffered (client.nextResult s).2).2)
            (by rw [taken]; cases isBuffered <;> rfl) (by rw [taken])
            (show effort rest ≤ fuel by omega)
          refine ⟨s', ?_, none, ?_⟩
          · simpa [Client.skipResults, found, res, Packet.res] using skips
          · rw [freed, taken]
            rfl
      | rows fields count =>
          set extra : Res := ⟨(view s).index + 1, fields⟩
          set at_ := (client.takeResult isBuffered (client.nextResult s).2).2
          -- the rows of a result that is in use are read before it is freed
          obtain ⟨read, reads, after⟩ : ∃ read,
              (if isBuffered then some at_ else client.readRows extra fuel at_) = some read ∧
                view read = { view at_ with status := .ready } := by
            cases isBuffered with
            | true => exact ⟨at_, rfl, by rw [taken]; rfl⟩
            | false =>
                have inUse : (view at_).status = .inUse count := by rw [taken]; rfl
                simp only [Packet.count] at enough
                exact readRows_ends lib extra inUse (by omega)
          have free := lib.free read extra (by rw [after])
          rw [after, taken] at free
          obtain ⟨s', skips, none, freed⟩ := ih (s := client.freeResult extra read)
            (by rw [free]) (by rw [free]) (show effort rest ≤ fuel by omega)
          refine ⟨s', ?_, none, ?_⟩
          · simp only [Client.skipResults, found, ne_eq, not_true_eq_false, if_false, res,
              Packet.res]
            exact (congrArg (Option.bind · _) reads).trans skips
          · rw [freed, free]
            simp [rowsFrom, Packet.isRows, extra]

/-- A result in use keeps the others on the connection. -/
theorem skipResults_inUse (lib : Documented client view) (isBuffered : Bool) (fuel : Nat)
    {rows : Nat} (inUse : (view s).status = .inUse rows) :
    ∃ s', client.skipResults isBuffered (fuel + 1) s = some s' ∧ view s' = view s := by
  obtain ⟨refused, same⟩ := lib.outOfSync s rows inUse
  exact ⟨_, by simp [Client.skipResults, refused], same⟩

/-! ## All results -/

/-- The server has answered a statement, and nothing has been taken of it. -/
def View.start (first : Packet) (rest : List Packet) : View where
  status := .pending first
  fieldCount := first.columns
  more := rest
  index := 0
  freed := []

/-- `get_result` reads no null, takes every result off the connection, frees all that have
rows but the first one once, and describes the columns of the one it keeps. -/
def Consumed (client : Client σ) (view : σ → View) (isBuffered : Bool) (q : Outcome) (s : σ)
    (results : List Packet) : Prop :=
  ∃ fuel ret q' s', client.getResult fuel true isBuffered q s = some (ret, q', s') ∧
    (view s').more = [] ∧
    (∀ i, (view s').freed.count i =
      if 0 < i ∧ results[i]?.any Packet.isRows = true then 1 else 0) ∧
    q'.Described

theorem getResult_eq_some_iff {q q' : Outcome} {fuel : Nat} {ret : Bool} {s' : σ}
    (new : q.result = none) :
    client.getResult fuel true isBuffered q s = some (ret, q', s') ↔
      let taken := client.takeResult isBuffered s
      ∃ fNames, fillNames taken.1 (client.fieldCount taken.2) = some fNames ∧
        client.skipResults isBuffered fuel taken.2 = some s' ∧ ret = taken.1.isSome ∧
          q' = ⟨taken.1, isBuffered, fNames, client.fieldCount taken.2⟩ := by
  simp only [Client.getResult, new, Bool.not_true, Bool.false_eq_true, if_false,
    Option.isSome_none, bind, Option.bind_eq_some_iff, Option.some.injEq, Prod.mk.injEq]
  constructor
  · rintro ⟨fNames, fills, s₁, skips, rfl, rfl, rfl⟩
    exact ⟨fNames, fills, skips, rfl, rfl⟩
  · rintro ⟨fNames, fills, skips, rfl, rfl⟩
    exact ⟨fNames, fills, s', skips, rfl, rfl, rfl⟩

/-- The columns can be read where there are none, or a result that has them. -/
theorem fillNames_packet (packet : Packet) (index : Nat) :
    (∃ fNames, fillNames (packet.res index) packet.columns = some fNames) ↔
      ∀ columns, packet = .error columns → columns = 0 := by
  cases packet with
  | rows fields count =>
      simp only [reduceCtorEq, false_implies, implies_true, iff_true]
      exact ⟨_, fillNames_some ⟨index, fields⟩⟩
  | ok => simpa using ⟨_, fillNames_none 0⟩
  | error columns =>
      simp only [Packet.res, Packet.columns, fillNames_none, Packet.error.injEq, forall_eq']
      split
      · next none => simp [none]
      · next some => simp [some]

theorem described_of_fill {packet : Packet} {index : Nat} {fNames : Text → Option Nat}
    (fills : fillNames (packet.res index) packet.columns = some fNames) :
    Outcome.Described ⟨packet.res index, isBuffered, fNames, packet.columns⟩ := by
  cases packet with
  | rows fields count =>
      have whole := fillNames_some ⟨index, fields⟩
      obtain rfl := Option.some.inj (whole.symm.trans fills)
      exact ⟨rfl, fun name => rfl⟩
  | ok =>
      obtain rfl := Option.some.inj ((fillNames_none 0).symm.trans fills)
      exact ⟨rfl, fun name => rfl⟩
  | error columns =>
      obtain rfl : columns = 0 := (fillNames_packet _ index).1 ⟨fNames, fills⟩ columns rfl
      obtain rfl := Option.some.inj ((fillNames_none 0).symm.trans fills)
      exact ⟨rfl, fun name => rfl⟩

/-- Nothing has rows behind the first result, or something has. -/
theorem count_freed (first : Packet) (rest : List Packet) (i : Nat) :
    ((rowsFrom 1 rest).reverse ++ []).count i =
      if 0 < i ∧ (first :: rest)[i]?.any Packet.isRows = true then 1 else 0 := by
  rw [List.append_nil, List.count_reverse, count_rowsFrom]
  cases i with
  | zero => simp
  | succ i => simp

/-- **When the results of a statement are all consumed.**  The first one must not be one that
the library makes a null of although there should be columns, and it must not be left in use
in front of others. -/
theorem consumed_iff (lib : Documented client view) {q : Outcome} (new : q.result = none)
    {first : Packet} {rest : List Packet} (start : view s = .start first rest) :
    Consumed client view isBuffered q s (first :: rest) ↔
      (∀ columns, first = .error columns → columns = 0) ∧
        (isBuffered = true ∨ first.isRows = false ∨ rest = []) := by
  have pending : (view s).status = .pending first := by rw [start]; rfl
  obtain ⟨res, taken⟩ := takeResult_view lib isBuffered pending
  rw [start] at res taken
  have columns : client.fieldCount (client.takeResult isBuffered s).2 = first.columns := by
    rw [lib.fieldCount, taken]
    rfl
  simp only [Consumed, getResult_eq_some_iff new, columns, res]
  constructor
  · rintro ⟨fuel, ret, q', s', ⟨fNames, fills, skips, -, rfl⟩, none, -, -⟩
    refine ⟨(fillNames_packet first 0).1 ⟨fNames, fills⟩, ?_⟩
    cases isBuffered with
    | true => exact .inl rfl
    | false =>
        cases first with
        | ok | error => exact .inr (.inl rfl)
        | rows fields count =>
            obtain _ | fuel := fuel
            · cases skips
            obtain ⟨s₁, ends, same⟩ :=
              skipResults_inUse lib false fuel (by rw [taken]; rfl)
            obtain rfl := Option.some.inj (ends.symm.trans skips)
            rw [same, taken] at none
            exact .inr (.inr none)
  · rintro ⟨safe, way⟩
    obtain ⟨fNames, fills⟩ := (fillNames_packet first 0).2 safe
    obtain ⟨fuel, s', skips, none, freed⟩ : ∃ fuel s',
        client.skipResults isBuffered fuel (client.takeResult isBuffered s).2 = some s' ∧
          (view s').more = [] ∧ (view s').freed = (rowsFrom 1 rest).reverse ++ [] := by
      by_cases ready : (if isBuffered = true then Status.ready else first.used) = .ready
      · obtain ⟨s', skips, none, freed⟩ := skipResults_ends lib isBuffered
          (by rw [taken]; exact ready) (by rw [taken]; rfl) (Nat.le_refl (effort rest))
        rw [taken] at freed
        exact ⟨_, s', skips, none, freed⟩
      · -- the first result is left in use, and there is no other
        have unbuffered : isBuffered = false := by
          by_contra buffered
          exact ready (if_pos (Bool.of_not_eq_false buffered))
        subst unbuffered
        cases first with
        | ok | error => exact absurd rfl ready
        | rows fields count =>
            obtain rfl : rest = [] := by simpa [Packet.isRows] using way
            have inUse : (view (client.takeResult false s).2).status = .inUse count := by
              rw [taken]
              rfl
            obtain ⟨s', ends, same⟩ := skipResults_inUse lib false 0 inUse
            rw [taken] at same
            exact ⟨_, s', ends, by rw [same]; rfl, by rw [same]; rfl⟩
    exact ⟨fuel, _, _, s', ⟨fNames, fills, skips, rfl, rfl⟩, none,
      fun i => by rw [freed, count_freed first], described_of_fill fills⟩

/-- Of this the query threads' `getResult` keeps whether there is a result. -/
theorem getResult_result {stopThreads : Bool} {query : Query} {q q' : Outcome} {fuel : Nat}
    {ret : Bool} {s' : σ} (same : query.result = q.result.isSome)
    (ends : client.getResult fuel (isValidConn stopThreads query) isBuffered q s =
      some (ret, q', s')) :
    (getResult stopThreads query (client.takeResult isBuffered s).1.isSome).result =
      q'.result.isSome := by
  unfold Client.getResult at ends
  unfold getResult
  cases valid : isValidConn stopThreads query with
  | false =>
      simp only [valid, Bool.not_false, if_true, Option.some.injEq, Prod.mk.injEq] at ends
      obtain ⟨-, rfl, -⟩ := ends
      simpa using same
  | true =>
      cases result : q.result with
      | some res =>
          simp only [valid, Bool.not_true, Bool.false_eq_true, if_false, result,
            Option.isSome_some, if_true, Option.some.injEq, Prod.mk.injEq] at ends
          obtain ⟨-, rfl, -⟩ := ends
          simp [same, result]
      | none =>
          rw [valid] at ends
          obtain ⟨fNames, -, -, -, rfl⟩ := (getResult_eq_some_iff result).1 ends
          simp [same, result]

end Others

/-! ## A connection -/

/-- A connection that is as the documentation says. -/
def documented : Client View where
  storeResult v :=
    match v.status with
    | .pending packet => (packet.res v.index, { v with status := .ready })
    | _ => (none, v)
  useResult v :=
    match v.status with
    | .pending packet => (packet.res v.index, { v with status := packet.used })
    | _ => (none, v)
  fieldCount v := v.fieldCount
  nextResult v :=
    match v.status, v.more with
    | .ready, packet :: rest =>
        (0, { v with
          status := .pending packet
          fieldCount := packet.columns
          more := rest
          index := v.index + 1 })
    | .ready, [] => (-1, v)
    | _, _ => (1, v)
  fetchRow _ v :=
    match v.status with
    | .inUse (rows + 1) => (true, { v with status := .inUse rows })
    | .inUse 0 => (false, { v with status := .ready })
    | _ => (false, v)
  freeResult res v := { v with freed := res.index :: v.freed }

theorem documented_documented : Documented documented fun v => v where
  store v packet pending := by simp [documented, pending]
  use v packet pending := by simp [documented, pending]
  fieldCount v := rfl
  next v packet rest ready more := by simp [documented, ready, more]
  last v more := by
    cases status : v.status <;> simp [documented, status, more]
  outOfSync v rows inUse := by simp [documented, inUse]
  fetch v res rows inUse := by simp [documented, inUse]
  fetchEnd v res inUse := by simp [documented, inUse]
  free v res ready := rfl

/-- A query that has been sent. -/
def Outcome.sent : Outcome := ⟨none, false, fun _ => none, 0⟩

/-- Two selections and an update between them. -/
theorem consumed_iff_three : Consumed documented (fun v => v) true .sent
    (View.start (.rows [[0x61], [0x62]] 2) [.ok, .rows [[0x61]] 3])
    [.rows [[0x61], [0x62]] 2, .ok, .rows [[0x61]] 3] :=
  (consumed_iff documented_documented rfl rfl).2 ⟨by simp, .inl rfl⟩

/-- A selection that fails while its result is stored. -/
theorem not_always_consumed : ¬ ∀ isBuffered first rest, Consumed documented (fun v => v)
    isBuffered .sent (View.start first rest) (first :: rest) := by
  intro always
  obtain ⟨fuel, ret, q', s', ends, -⟩ := always true (.error 1) []
  obtain ⟨fNames, fills, -⟩ := (getResult_eq_some_iff rfl).1 ends
  cases fills

end Refsapi.Mysql
