/-
# Mysql.Answer -- whether a query is answered

`run_query` hands a query to `m_frames` after its attempt, `frame_forward` takes it
from there and executes the handler.  `Answer` follows one query from the attempt
that succeeds to the handler, as long as `stop` has not aborted it.

The main result is `answered_iff`: a query that has been freed was answered
exactly once if and only if an attempt succeeded, `stop` was not under way when
`run_query` tested it again, and both texts fitted the heap of the plugin.  A query
whose last attempt fails is never answered: `run_query` compares `retry_count`
before `poll_query` has counted the attempt.
-/
import Refsapi.Mysql.Attempts

namespace Refsapi.Mysql

set_option autoImplicit false

variable {s : State} {v v' : Slice} {fwd : FwdPrms}

/-! ## What `stop` leaves of a query -/

structure StopOk (v : Slice) : Prop where
  raised : v.stopThreads = true → v.stop ≠ .none ∧ v.stop ≠ .clear
  idle : v.hand ≠ .none → v.stop = .none
  aborts : ∀ pending q, v.stop = .abort pending → v.query = some q →
    q.aborted = true ∨ 0 < pending
  unlocks : v.stop = .unlock ∨ v.stop = .clear → ∀ q, v.query = some q → q.aborted = true
  recorded : ∀ q, v.query = some q → q.aborted = true → .aborted v.id ∈ v.history
  freed : ∀ q, .freed v.id q ∈ v.history → v.made ∧ v.query = none

attribute [grind cases] StopOk

theorem stopOk_start (maxThreads id : Nat) : StopOk (slice (.start maxThreads) id) := by
  constructor <;> simp [slice, State.start, GamePc.hand, GamePc.stop]

/-- A step that `stop` has nothing to do with. -/
theorem StopOk.of_same (stopOk : StopOk v) (id : v'.id = v.id) (stop : v'.stop = v.stop)
    (stopThreads : v'.stopThreads = v.stopThreads) (hand : v'.hand ≠ .none → v.hand ≠ .none)
    (query : v'.query.map Query.aborted = v.query.map Query.aborted)
    (made : v.made → v'.made)
    (history : v'.history = v.history ∨
      ∃ e, v'.history = e :: v.history ∧ ∀ q, e ≠ .freed v.id q) : StopOk v' := by
  have same : ∀ q, v'.query = some q → ∃ p, v.query = some p ∧ p.aborted = q.aborted := by
    intro q isQuery
    rw [isQuery] at query
    exact Option.map_eq_some_iff.1 query.symm
  have kept : v.history ⊆ v'.history := by
    rcases history with same | ⟨e, same, -⟩ <;> simp [same]
  have unfreed : ∀ q, .freed v.id q ∈ v'.history → .freed v.id q ∈ v.history := by
    intro q freed
    rcases history with same | ⟨e, same, other⟩
    · exact same ▸ freed
    · rw [same] at freed
      exact (List.mem_cons.1 freed).resolve_left (other q).symm
  refine ⟨?_, ?_, ?_, ?_, ?_, ?_⟩
  · rw [stop, stopThreads]
    exact stopOk.raised
  · rw [stop]
    exact fun held => stopOk.idle (hand held)
  · intro pending q isStop isQuery
    obtain ⟨p, isP, aborted⟩ := same q isQuery
    exact aborted ▸ stopOk.aborts pending p (stop ▸ isStop) isP
  · intro isStop q isQuery
    obtain ⟨p, isP, aborted⟩ := same q isQuery
    exact aborted ▸ stopOk.unlocks (stop ▸ isStop) p isP
  · intro q isQuery isAborted
    obtain ⟨p, isP, aborted⟩ := same q isQuery
    exact id ▸ kept (stopOk.recorded p isP (aborted.trans isAborted))
  · intro q freed
    obtain ⟨isMade, none⟩ := stopOk.freed q (unfreed q (id ▸ freed))
    rw [none] at query
    exact ⟨made isMade, Option.map_eq_none_iff.1 query⟩

theorem StopOk.step (good : Good v) (stopOk : StopOk v) (life : Life v v') : StopOk v' := by
  obtain ⟨poll, -, threads, queryOk⟩ := good
  cases life with
  | stay | turnBack | scanEnd | marked | skip | reapYes | reapNo | reap | release | createEnd
  | freeEnd | begin | push | count | addConnect | joinEnd | join => exact { stopOk with }
  | start | retestBack | retestOn =>
      exact stopOk.of_same rfl rfl rfl id rfl id (.inr ⟨_, rfl, by simp⟩)
  | @enter tid q attempt thread query =>
      obtain ⟨_, _, control⟩ := enterAttempt_control v.conns q attempt
      exact stopOk.of_same rfl rfl rfl id (by simp [Slice.goto, Slice.emit, query, control]) id
        (.inr ⟨_, rfl, by simp⟩)
  | @exec tid q way attempt thread query =>
      obtain ⟨_, _, _, control⟩ := finishAttempt_control v.stopThreads q way attempt
      exact stopOk.of_same rfl rfl rfl id (by simp [Slice.goto, Slice.emit, query, control]) id
        (.inr ⟨_, rfl, by simp⟩)
  | @lock tid q thread query
  | @finish tid q thread query
  | @select q _ _ _ query
  | @again q _ query
  | @spent q _ query
  | @create q _ _ _ query
  | @createFail q _ _ query =>
      exact stopOk.of_same rfl rfl rfl id (by simp [Slice.goto, query]) id (.inl rfl)
  | @free q frees visit removed query
  | @freeQuery q query =>
      obtain ⟨_, _, _, control⟩ := freeQuery_control v.stopThreads q
      exact stopOk.of_same rfl rfl rfl id (by simp [query, control]) id (.inl rfl)
  | @execQuery q err stores query held =>
      obtain ⟨_, _, _, _, control⟩ := execQuery_control v.stopThreads q err stores
      exact stopOk.of_same rfl rfl rfl id (by simp [query, control]) id (.inl rfl)
  | backFrame hand | callback hand =>
      exact stopOk.of_same rfl rfl rfl (fun _ => by simp [hand]) rfl id (.inl rfl)
  | heapLow error data hand =>
      exact stopOk.of_same rfl rfl rfl (fun _ => by simp [hand]) rfl id (.inr ⟨_, rfl, by simp⟩)
  | @finishFrame q hand query =>
      exact stopOk.of_same rfl rfl rfl (by simp) (by simp [query]) id (.inl rfl)
  | prepare conn async pri connId time unmade =>
      obtain ⟨gone, none, unreaped, unframed, idle, unheard⟩ := poll.unmade unmade
      constructor <;> grind -ring -linarith [newQuery]
  | deliver | startFrame | stop | stopFrames | stopThreads | abort | abortEnd | unlock | clear
  | erase =>
      constructor <;> grind -ring -linarith

/-! ## What a query carries to its handler -/

theorem freeQuery_conn (stopThreads : Bool) (q : Query) :
    (freeQuery stopThreads q).conn = none ∨ (freeQuery stopThreads q).conn = q.conn := by
  grind -ring -linarith [freeQuery]

/-- An attempt that is not turned away runs with the parameters of the tuple. -/
theorem enterAttempt_fwd {connPrms : List FwdPrms} {q : Query} {attempt : Attempt}
    (tuple : getConnect connPrms q.connId = some fwd) (known : q.conn ≠ none → q.fwd = fwd)
    (async : q.async = true) (unfinished : q.finished = false) (unaborted : q.aborted = false) :
    (enterAttempt connPrms q attempt).1.fwd = fwd := by
  simp only [enterAttempt, unfinished, unaborted, async]
  cases conn : q.conn with
  | some conn => simpa using known (by simp [conn])
  | none => cases attempt.init <;> simp [tuple]

theorem getConnect_append {connPrms : List FwdPrms} {connId : Nat}
    (tuple : getConnect connPrms connId = some fwd) (more : List FwdPrms) :
    getConnect (connPrms ++ more) connId = some fwd := by
  unfold getConnect at tuple ⊢
  split at tuple
  · cases tuple
  · next nonzero =>
      have inside := (List.getElem?_eq_some_iff.1 tuple).1
      simp [nonzero, List.getElem?_append_left inside, tuple]

/-! ## From the attempt to the handler -/

/-- Where the thread of a query is. -/
def pcOf (threads : List Thread) : Option RunPc := threads.head?.map Thread.pc

@[simp, grind =] theorem pcOf_single (tid : Nat) (pc : RunPc) : pcOf [⟨tid, pc⟩] = some pc := rfl

@[simp, grind =] theorem pcOf_nil : pcOf [] = none := rfl

/-- The error texts and data `frame_forward` has tried to allot. -/
def allots (log : List Event) (id : Nat) : List (Bool × Bool) :=
  log.filterMap fun
    | .allot x error data => if x = id then some (error, data) else none
    | _ => none

/-- The failstates the handler has been executed with, latest first. -/
def handlers (log : List Event) (id : Nat) : List Int :=
  log.filterMap fun
    | .handler x failstate => if x = id then some failstate else none
    | _ => none

/-- `frame_forward` has not come to the query. -/
def Silent (id : Nat) (log : List Event) : Prop := allots log id = [] ∧ handlers log id = []

/-- `frame_forward` has come to the query once, with what it allotted. -/
def Told (id : Nat) (log : List Event) : Prop :=
  ∃ error data, allots log id = [(error, data)] ∧
    handlers log id = if error && data then [tquerySuccess] else []

/-- `run_query` found the attempt successful and nothing stopped. -/
def Passed (id : Nat) (log : List Event) : Prop := .retest id true false ∈ log

/-- `run_query` found the attempt successful, but `stop` under way. -/
def Stopped (id : Nat) (log : List Event) : Prop := .retest id true true ∈ log

/-- An attempt has succeeded. -/
def Succeeded (id : Nat) (log : List Event) : Prop := .outcome id true ∈ log

/-- The query while it exists. -/
structure Carried (v : Slice) (q : Query) (fwd : FwdPrms) : Prop where
  async : q.async = true
  tuple : getConnect v.conns q.connId = some fwd
  conn : q.conn ≠ none → q.fwd = fwd
  named : pcOf v.threads = some .retest ∨ (∃ way, pcOf v.threads = some (.exec way)) → q.fwd = fwd
  success : q.successful = true → q.failstate = tquerySuccess ∧ Succeeded v.id v.history
  passed : Passed v.id v.history ↔ pcOf v.threads = some .lock ∨ q.framed = true
  pending : pcOf v.threads = some .lock ∨ pcOf v.threads = some .push ∨ 0 < v.frames ∨
    v.hand = .forward → Silent v.id v.history
  done : q.finished = true → q.framed = true → Told v.id v.history

/-- A query whose tuple has a registered forward, and which `stop` has not aborted. -/
structure Answer (v : Slice) (fwd : FwdPrms) : Prop where
  carried : ∀ q, v.query = some q → Carried v q fwd
  outcome : Succeeded v.id v.history → pcOf v.threads = some .retest ∨
    Stopped v.id v.history ∨ Passed v.id v.history
  retested : Stopped v.id v.history ∨ Passed v.id v.history →
    Succeeded v.id v.history ∧ pcOf v.threads ≠ some .retest
  once : Stopped v.id v.history → ¬ Passed v.id v.history
  silent : ¬ Passed v.id v.history → Silent v.id v.history
  told : v.hand = .callback ∨ v.hand = .finish → Told v.id v.history
  gone : v.query = none → Passed v.id v.history → Told v.id v.history

@[grind =] theorem passed_cons (id : Nat) (e : Event) (log : List Event) :
    Passed id (e :: log) ↔ e = .retest id true false ∨ Passed id log := by
  simp [Passed, eq_comm]

@[grind =] theorem stopped_cons (id : Nat) (e : Event) (log : List Event) :
    Stopped id (e :: log) ↔ e = .retest id true true ∨ Stopped id log := by
  simp [Stopped, eq_comm]

@[grind =] theorem succeeded_cons (id : Nat) (e : Event) (log : List Event) :
    Succeeded id (e :: log) ↔ e = .outcome id true ∨ Succeeded id log := by
  simp [Succeeded, eq_comm]

/-- Neither an allotment nor a handler. -/
def Event.quiet : Event → Bool
  | .allot .. | .handler .. => false
  | _ => true

theorem allots_cons {id : Nat} {e : Event} {log : List Event} (quiet : e.quiet = true) :
    allots (e :: log) id = allots log id := by
  cases e with
  | allot => cases quiet
  | handler => cases quiet
  | _ => rfl

theorem handlers_cons {id : Nat} {e : Event} {log : List Event} (quiet : e.quiet = true) :
    handlers (e :: log) id = handlers log id := by
  cases e with
  | allot => cases quiet
  | handler => cases quiet
  | _ => rfl

theorem silent_cons {id : Nat} {e : Event} {log : List Event} (quiet : e.quiet = true) :
    Silent id (e :: log) ↔ Silent id log := by
  rw [Silent, allots_cons quiet, handlers_cons quiet, Silent]

theorem told_cons {id : Nat} {e : Event} {log : List Event} (quiet : e.quiet = true) :
    Told id (e :: log) ↔ Told id log := by
  rw [Told, allots_cons quiet, handlers_cons quiet, Told]

theorem told_of_heapLow {id : Nat} {log : List Event} {error data : Bool} (silent : Silent id log)
    (low : (error && data) = false) : Told id (.allot id error data :: log) := by
  refine ⟨error, data, ?_, ?_⟩
  · simpa [allots] using silent.1
  · simpa [handlers, low] using silent.2

theorem told_of_deliver {id : Nat} {log : List Event} (silent : Silent id log) :
    Told id (.handler id tquerySuccess :: .allot id true true :: log) := by
  refine ⟨true, true, ?_, ?_⟩
  · simpa [allots] using silent.1
  · simpa [handlers] using silent.2

attribute [grind cases] Answer Carried
attribute [grind =] Event.quiet silent_cons told_cons

/-! ## What the log of a step leaves as it was -/

/-- Neither a success nor a step of `frame_forward`. -/
def Event.aside : Event → Bool
  | .outcome _ successful => !successful
  | .retest _ successful _ => !successful
  | e => e.quiet

/-- Two logs tell the same of the answer to a query. -/
structure SameFate (id : Nat) (log log' : List Event) : Prop where
  succeeded : Succeeded id log' ↔ Succeeded id log
  stopped : Stopped id log' ↔ Stopped id log
  passed : Passed id log' ↔ Passed id log
  silent : Silent id log' ↔ Silent id log
  told : Told id log' ↔ Told id log

attribute [grind cases] SameFate

theorem SameFate.refl (id : Nat) (log : List Event) : SameFate id log log :=
  ⟨Iff.rfl, Iff.rfl, Iff.rfl, Iff.rfl, Iff.rfl⟩

theorem Event.quiet_of_aside {e : Event} (aside : e.aside = true) : e.quiet = true := by
  cases e <;> first | rfl | exact aside

theorem SameFate.cons {id : Nat} {log : List Event} {e : Event} (aside : e.aside = true) :
    SameFate id log (e :: log) := by
  have quiet := Event.quiet_of_aside aside
  refine ⟨?_, ?_, ?_, silent_cons quiet, told_cons quiet⟩
  · rw [succeeded_cons, or_iff_right]
    rintro rfl
    cases aside
  · rw [stopped_cons, or_iff_right]
    rintro rfl
    cases aside
  · rw [passed_cons, or_iff_right]
    rintro rfl
    cases aside

/-- A step that neither tests a query again nor hands it on. -/
theorem Answer.of_same (answer : Answer v fwd) (same : v'.id = v.id)
    (fate : SameFate v.id v.history v'.history)
    (retest : pcOf v'.threads = some .retest ↔ pcOf v.threads = some .retest)
    (hand : v'.hand = .callback ∨ v'.hand = .finish → v.hand = .callback ∨ v.hand = .finish)
    (gone : v'.query = none → v.query = none)
    (carried : ∀ q, v'.query = some q → Carried v' q fwd) : Answer v' fwd := by
  obtain ⟨succeeded, stopped, passed, silent, told⟩ := fate
  refine ⟨carried, ?_, ?_, ?_, ?_, ?_, ?_⟩
  · rw [same, succeeded, stopped, passed, retest]
    exact answer.outcome
  · rw [same, succeeded, stopped, passed, Ne, retest]
    exact answer.retested
  · rw [same, stopped, passed]
    exact answer.once
  · rw [same, silent, passed]
    exact answer.silent
  · rw [same, told]
    exact fun held => answer.told (hand held)
  · rw [same, told, passed]
    exact fun none => answer.gone (gone none)

/-- No thread is in `run_query` while `frame_forward` is at its query. -/
theorem ThreadsOk.pcOf_ne (threads : ThreadsOk v) (isHand : v.hand ≠ .none) {pc : RunPc}
    (inside : pc ≠ .returned) : pcOf v.threads ≠ some pc := by
  rcases threads with ⟨none, -⟩ | ⟨tid, pc', only, ok⟩
  · simp [none]
  · rw [only, pcOf_single]
    rintro ⟨⟩
    exact isHand (ok.inside inside).2

/-- `frame_forward` comes to the query. -/
theorem Answer.of_told {q : Query} {hand : Hand} {log : List Event} (good : Good v)
    (answer : Answer v fwd) (query : v.query = some q) (isHand : v.hand = .forward)
    (next : hand = .callback ∨ hand = .finish)
    (succeeded : Succeeded v.id log ↔ Succeeded v.id v.history)
    (stopped : Stopped v.id log ↔ Stopped v.id v.history)
    (passed : Passed v.id log ↔ Passed v.id v.history) (told : Told v.id log) :
    Answer { v with hand, history := log } fwd := by
  have handed : v.hand ≠ .none := by simp [isHand]
  have free := good.out.2 handed
  have carried := answer.carried q query
  obtain ⟨framed, -⟩ := (good.query q query).out (.inr handed)
  have isPassed := carried.passed.2 (.inr framed)
  constructor
  · intro q' same
    obtain rfl : q = q' := Option.some.inj (query.symm.trans same)
    refine { carried with
      success := fun successful => ?_, passed := passed.trans carried.passed
      pending := ?_, done := fun _ _ => told }
    · exact (carried.success successful).imp_right succeeded.2
    · rintro (lock | push | frames | forward)
      · exact absurd lock (good.thread.pcOf_ne handed (by decide))
      · exact absurd push (good.thread.pcOf_ne handed (by decide))
      · exact absurd free (Nat.ne_of_gt frames)
      · rcases next with rfl | rfl
        · cases forward
        · cases forward
  · intro outcome
    rcases answer.outcome (succeeded.1 outcome) with early | isStopped | isPassed
    · exact .inl early
    · exact .inr (.inl (stopped.2 isStopped))
    · exact .inr (.inr (passed.2 isPassed))
  · intro retested
    obtain ⟨outcome, late⟩ := answer.retested (retested.imp stopped.1 passed.1)
    exact ⟨succeeded.2 outcome, late⟩
  · intro isStopped
    exact absurd isPassed (answer.once (stopped.1 isStopped))
  · intro notPassed
    exact absurd (passed.2 isPassed) notPassed
  · exact fun _ => told
  · exact fun _ _ => told

/-- **One step keeps the way of a query to its handler in order.** -/
theorem Answer.step (good : Good v) (tried : Tried v) (stopOk : StopOk v)
    (registered : fwd.registered = true) (answer : Answer v fwd) (life : Life v v')
    (made : v.made)
    (unaborted : .aborted v'.id ∉ v'.history) : Answer v' fwd := by
  obtain ⟨poll, out, threads, queryOk⟩ := good
  have aborts : ∀ q, v.query = some q → .aborted v.id ∉ v.history → q.aborted = false := by
    intro q query unaborted
    by_contra aborted
    exact unaborted (stopOk.recorded q query (by simpa using aborted))
  cases life with
  | stay | scanEnd | marked | skip | reapYes | reapNo | reap | release | createEnd | freeEnd
  | begin | joinEnd | stop | stopThreads | abortEnd | unlock =>
      exact { answer with carried := fun q query => { answer.carried q query with } }
  | prepare conn async pri connId time unmade => exact absurd made unmade
  | abort => simp [Slice.emit] at unaborted
  | @turnBack tid q thread query
  | @start tid q thread query =>
      obtain ⟨only, old⟩ := threads.only thread
      have carried := answer.carried q query
      rw [goto_of_only (by exact only)]
      have live := old.live _ query
      have ok := queryOk _ query
      refine answer.of_same rfl (by first | exact .refl _ _ | exact .cons rfl) (by simp [only])
        id id fun q' same => ?_
      obtain rfl : q = q' := Option.some.inj (query.symm.trans same)
      clear threads queryOk thread tried stopOk poll old answer
      constructor <;> grind -ring -linarith
  | @retestBack tid q thread query
  | @retestOn tid q thread query =>
      obtain ⟨only, old⟩ := threads.only thread
      have carried := answer.carried q query
      rw [goto_of_only (by exact only)]
      have present : v.query ≠ none := by simp [query]
      have live := old.live _ query
      have ok := queryOk _ query
      have inside := old.inside
      have succeeded := tried.succeeded _ query
      obtain ⟨-, outcome, retested, once, silent, told, gone⟩ := answer
      clear threads queryOk thread tried stopOk poll old
      refine ⟨fun q' same => ?_, ?_, ?_, ?_, ?_, ?_, ?_⟩
      · obtain rfl : q = q' := Option.some.inj (query.symm.trans same)
        constructor <;> grind -ring -linarith
      all_goals grind -ring -linarith [Succeeded]
  | @lock tid q thread query
  | @finish tid q thread query =>
      obtain ⟨only, old⟩ := threads.only thread
      have carried := answer.carried q query
      rw [goto_of_only (by exact only)]
      have live := old.live _ query
      have ok := queryOk _ query
      have inside := old.inside
      refine answer.of_same rfl (.refl _ _) (by simp [only]) id (by simp) ?_
      rintro _ ⟨⟩
      clear threads queryOk thread tried stopOk poll old answer
      constructor <;> grind -ring -linarith
  | @enter tid q attempt thread query =>
      obtain ⟨only, old⟩ := threads.only thread
      have live := old.live _ query
      have ok := queryOk _ query
      have inside := old.inside
      have carried := answer.carried q query
      have named : (enterAttempt v.conns q attempt).1.fwd = fwd :=
        enterAttempt_fwd carried.tuple carried.conn carried.async (by grind -ring -linarith)
          (aborts _ query (fun was => unaborted (.tail _ was)))
      obtain ⟨_, _, control⟩ := enterAttempt_control v.conns q attempt
      rw [goto_of_only (by exact only)]
      rw [control] at named ⊢
      refine answer.of_same rfl (.cons rfl) (by simp [only]) id (by rintro ⟨⟩) ?_
      rintro _ ⟨⟩
      clear threads queryOk thread tried stopOk poll old answer
      constructor <;> grind -ring -linarith
  | @exec tid q way attempt thread query =>
      obtain ⟨only, old⟩ := threads.only thread
      have live := old.live _ query
      have ok := queryOk _ query
      have inside := old.inside
      have carried := answer.carried q query
      obtain ⟨_, _, _, control⟩ := finishAttempt_control v.stopThreads q way attempt
      rw [goto_of_only (by exact only), control]
      have succeeded := tried.succeeded _ query
      obtain ⟨-, outcome, retested, once, silent, told, gone⟩ := answer
      clear threads queryOk thread tried stopOk poll old
      refine ⟨?_, ?_, ?_, ?_, ?_, ?_, ?_⟩
      · rintro _ ⟨⟩
        constructor <;> grind -ring -linarith
      all_goals grind -ring -linarith [Succeeded]
  | @push tid thread
  | @count tid thread =>
      obtain ⟨only, old⟩ := threads.only thread
      rw [goto_of_only (by exact only)]
      refine answer.of_same rfl (.refl _ _) (by simp [only]) id id fun q query => ?_
      have carried := answer.carried q query
      have ok := queryOk _ query
      have live := old.live _ query
      clear threads queryOk thread tried stopOk poll old answer
      constructor <;> grind -ring -linarith
  | @create q tid creates selected query =>
      have ok := queryOk _ query
      have carried := answer.carried q query
      have none : v.threads = [] := by grind -ring -linarith
      refine answer.of_same rfl (.refl _ _) (by simp [none]) id (by simp) ?_
      rintro _ ⟨⟩
      clear threads queryOk tried stopOk poll answer
      constructor <;> grind -ring -linarith
  | @again q visit query isAgain
  | @spent q visit query isAgain
  | @select q _ _ _ query
  | @createFail q _ _ query =>
      have ok := queryOk _ query
      have carried := answer.carried q query
      refine answer.of_same rfl (.refl _ _) Iff.rfl id (by simp) ?_
      rintro _ ⟨⟩
      clear threads queryOk tried stopOk poll answer
      constructor <;> grind -ring -linarith
  | @finishFrame q _ query =>
      have ok := queryOk _ query
      have carried := answer.carried q query
      have told := answer.told
      refine answer.of_same rfl (.refl _ _) Iff.rfl (by simp) (by simp) ?_
      rintro _ ⟨⟩
      clear threads queryOk tried stopOk poll answer
      constructor <;> grind -ring -linarith
  | @free q frees visit removed query
  | @freeQuery q query =>
      have carried := answer.carried q query
      have conn := freeQuery_conn v.stopThreads q
      obtain ⟨_, _, _, control⟩ := freeQuery_control v.stopThreads q
      rw [control] at conn ⊢
      refine answer.of_same rfl (.refl _ _) Iff.rfl id (by simp) ?_
      rintro _ ⟨⟩
      clear threads queryOk tried stopOk poll answer
      constructor <;> grind -ring -linarith
  | @execQuery q err stores query held =>
      have async := (answer.carried q query).async
      rw [execQuery_of_started ((queryOk _ query).started_of_held async held), ← query]
      exact { answer with carried := fun q query => { answer.carried q query with } }
  | @erase q visit query =>
      have ok := queryOk _ query
      have carried := answer.carried q query
      have removable := ok.removed (.inr visit)
      obtain ⟨-, outcome, retested, once, silent, told, gone⟩ := answer
      have finished : q.finished = true := by
        have un := aborts q query (fun was => unaborted (.tail _ was))
        simpa [Query.removable, carried.async, un] using removable
      refine ⟨?_, ?_, ?_, ?_, ?_, ?_, ?_⟩
      · rintro _ ⟨⟩
      · grind -ring -linarith
      · grind -ring -linarith
      · grind -ring -linarith
      · grind -ring -linarith
      · grind -ring -linarith
      · intro _ passed
        rw [Slice.emit, passed_cons] at passed
        rw [Slice.emit, told_cons rfl]
        refine carried.done finished ?_
        have unlocked : pcOf v.threads ≠ some .lock := by
          rcases threads with ⟨none, -⟩ | ⟨tid, pc, only, old⟩
          · simp [none]
          · have live := old.live q query
            rw [only]
            clear queryOk carried tried stopOk
            grind -ring -linarith
        exact (carried.passed.1 (by simpa using passed)).resolve_left unlocked
  | @join tid returns pos returned =>
      have only := threads.reaps returned
      rw [only, List.erase_cons_head]
      refine answer.of_same rfl (.refl _ _) (by simp [only]) id id fun q query => ?_
      have carried := answer.carried q query
      clear threads queryOk tried stopOk poll answer
      constructor <;> grind -ring -linarith
  | addConnect fwd stop =>
      exact { answer with carried := fun q query => { answer.carried q query with
        tuple := getConnect_append (answer.carried q query).tuple _ } }
  | clear stop =>
      refine { answer with carried := fun q query => ?_ }
      exact absurd (stopOk.recorded q query (stopOk.unlocks (.inr stop) q query)) unaborted
  | stopFrames stop =>
      refine { answer with carried := fun q query => { answer.carried q query with pending := ?_ } }
      have := answer.carried q query
      grind -ring -linarith
  | startFrame idle stop free pos =>
      refine answer.of_same rfl (.refl _ _) Iff.rfl (by simp) id fun q query => ?_
      exact { answer.carried q query with
        pending := fun _ => (answer.carried q query).pending (.inr (.inr (.inl pos))) }
  | @backFrame q hand query stop =>
      have un := aborts q query unaborted
      have idle := stopOk.idle (by simp [hand])
      have free := (stopOk.raised (stop.resolve_right (by simp [un]))).1
      exact absurd idle free
  | @deliver q hand query un =>
      have carried := answer.carried q query
      obtain ⟨framed, -⟩ := (queryOk q query).out (.inr (by simp [hand]))
      obtain ⟨failstate, -⟩ := carried.success ((queryOk q query).framed framed)
      have told := told_of_deliver (carried.pending (.inr (.inr (.inr hand))))
      simp only [Slice.emit, failstate]
      refine answer.of_told ⟨poll, out, threads, queryOk⟩ query hand (.inl rfl) ?_ ?_ ?_ told
      · simp [succeeded_cons]
      · simp [stopped_cons]
      · simp [passed_cons]
  | @heapLow q error data hand query un low =>
      have silent := (answer.carried q query).pending (.inr (.inr (.inr hand)))
      have told := told_of_heapLow silent low
      simp only [Slice.emit]
      refine answer.of_told ⟨poll, out, threads, queryOk⟩ query hand (.inr rfl) ?_ ?_ ?_ told
      · simp [succeeded_cons]
      · simp [stopped_cons]
      · simp [passed_cons]
  | callback hand =>
      refine { answer with
        carried := fun q query => { answer.carried q query with pending := ?_ }
        told := ?_ }
      · have := answer.carried q query
        grind -ring -linarith
      · exact fun _ => answer.told (.inl hand)

/-! ## Every run -/

theorem Life.history_subset (life : Life v v') : v.history ⊆ v'.history := by
  cases life <;> simp [Slice.goto, Slice.emit]

/-- Only the first step of a life records the creation. -/
theorem Life.created (life : Life v v') (made : v.made) {async : Bool} {tuple : Option FwdPrms}
    (created : .created v'.id async tuple ∈ v'.history) :
    .created v.id async tuple ∈ v.history := by
  cases life with
  | prepare _ _ _ _ _ unmade => exact absurd made unmade
  | _ => simpa [Slice.goto, Slice.emit] using created

theorem answer_prepare {conn : Option Conn} {async : Bool} {pri connId : Nat} {time : Int}
    (poll : PollOk v) (unmade : ¬ v.made) (unconnected : async = true → conn = none)
    (created : .created v.id true (some fwd) ∈
      ({ v with
        made := True, query := some (newQuery v.id conn async pri connId time) }.emit
          (.created v.id async (getConnect v.conns connId))).history) :
    Answer ({ v with
      made := True, query := some (newQuery v.id conn async pri connId time) }.emit
        (.created v.id async (getConnect v.conns connId))) fwd := by
  obtain ⟨-, none, -, unframed, idle, unheard⟩ := poll.unmade unmade
  obtain ⟨rfl, tuple⟩ : true = async ∧ some fwd = getConnect v.conns connId := by
    simpa [Slice.emit, unheard] using created
  have silent : Silent v.id (v.emit (.created v.id true (getConnect v.conns connId))).history := by
    simp [Slice.emit, Silent, allots, handlers, unheard]
  have unpassed : ¬ Passed v.id
      (v.emit (.created v.id true (getConnect v.conns connId))).history := by
    simp [Passed, Slice.emit, unheard]
  have unstopped : ¬ Stopped v.id
      (v.emit (.created v.id true (getConnect v.conns connId))).history := by
    simp [Stopped, Slice.emit, unheard]
  refine ⟨?_, ?_, ?_, ?_, ?_, ?_, ?_⟩
  · rintro _ ⟨⟩
    constructor <;> simp_all [Slice.emit, newQuery]
  · simp [Slice.emit, Succeeded, unheard]
  all_goals simp_all [Slice.emit]

/-- What is kept of one query along a run. -/
structure Followed (v : Slice) : Prop where
  tried : Tried v
  stopOk : StopOk v
  answer : ∀ fwd, .created v.id true (some fwd) ∈ v.history → fwd.registered = true →
    .aborted v.id ∉ v.history → Answer v fwd

theorem Followed.step (good : Good v) (followed : Followed v) (life : Life v v') : Followed v' := by
  refine ⟨followed.tried.step good life, followed.stopOk.step good life, ?_⟩
  intro fwd created registered unaborted
  by_cases made : v.made
  · have same : v'.id = v.id := by
      cases life <;> rfl
    have answer := followed.answer fwd (life.created made created) registered
      (fun aborted => unaborted (same ▸ life.history_subset aborted))
    exact answer.step good followed.tried followed.stopOk registered life made unaborted
  · cases life with
    | prepare conn async pri connId time _ _ _ unconnected =>
        exact answer_prepare good.poll made unconnected created
    | _ =>
        obtain ⟨-, -, -, -, -, unheard⟩ := good.poll.unmade made
        simp [Slice.goto, Slice.emit, unheard] at created

theorem followed_of_reachable (run : machine.Reachable s) (id : Nat) : Followed (slice s id) := by
  refine (slice_invariant (I := Followed) ?_ (fun _ _ good => .step good) run id).2
  intro maxThreads id
  exact ⟨tried_start maxThreads id, stopOk_start maxThreads id, by simp [slice, State.start]⟩

/-- The handler has been executed exactly once, with `TQUERY_SUCCESS` if and only if an
attempt succeeded. -/
def Answered (log : List Event) (id : Nat) : Prop :=
  ∃ failstate, handlers log id = [failstate] ∧
    (failstate = tquerySuccess ↔ .outcome id true ∈ log)

theorem mem_history {e : Event} {id : Nat} (about : e.about = id) :
    e ∈ (slice s id).history ↔ e ∈ s.log := by
  simp [slice, about]

theorem allots_history (id : Nat) : allots (slice s id).history id = allots s.log id := by
  simp only [slice, allots, List.filterMap_filter]
  congr 1
  funext e
  cases e <;> simp [Event.about]

theorem handlers_history (id : Nat) : handlers (slice s id).history id = handlers s.log id := by
  simp only [slice, handlers, List.filterMap_filter]
  congr 1
  funext e
  cases e <;> simp [Event.about]

theorem mem_allots {id : Nat} {log : List Event} {error data : Bool} :
    (error, data) ∈ allots log id ↔ .allot id error data ∈ log := by
  simp only [allots, List.mem_filterMap]
  constructor
  · rintro ⟨e, member, same⟩
    cases e with
    | allot x error' data' =>
        obtain ⟨rfl, rfl, rfl⟩ : x = id ∧ error' = error ∧ data' = data := by simpa using same
        exact member
    | _ => cases same
  · exact fun member => ⟨_, member, by simp⟩

/-- **When a query is answered.** -/
theorem answered_iff (run : machine.Reachable s) {id : Nat} {q : Query}
    (freed : .freed id q ∈ s.log) (created : .created id true (some fwd) ∈ s.log)
    (registered : fwd.registered = true) (unaborted : .aborted id ∉ s.log) :
    Answered s.log id ↔ .outcome id true ∈ s.log ∧ .retest id true true ∉ s.log ∧
      ∀ error data, .allot id error data ∈ s.log → (error && data) = true := by
  obtain ⟨tried, stopOk, answers⟩ := followed_of_reachable run id
  have answer := answers fwd ((mem_history rfl).2 created) registered
    (fun was => unaborted ((mem_history rfl).1 was))
  have gone : s.mQueries id = none := (stopOk.freed q ((mem_history rfl).2 freed)).2
  have told (passed : Passed id (slice s id).history) := answer.gone gone passed
  simp only [Told, allots_history, handlers_history, show (slice s id).id = id from rfl] at told
  have returned : pcOf (slice s id).threads ≠ some .retest := by
    rcases (good_of_reachable run id).thread with ⟨none, -⟩ | ⟨tid, pc, only, old⟩
    · simp [none]
    · have late := old.gone gone
      rintro isRetest
      simp only [only, pcOf_single, Option.some.injEq] at isRetest
      simp [isRetest, RunPc.early] at late
  constructor
  · rintro ⟨failstate, answered, -⟩
    have passed : Passed id (slice s id).history := by
      by_contra unpassed
      have silent := (answer.silent unpassed).2
      simp only [handlers_history, show (slice s id).id = id from rfl, answered] at silent
      cases silent
    obtain ⟨error, data, allotted, handled⟩ := told passed
    have both : (error && data) = true := by
      by_contra low
      simp [answered, low] at handled
    refine ⟨(mem_history rfl).1 (answer.retested (.inr passed)).1,
      fun stopped => answer.once ((mem_history rfl).2 stopped) passed, ?_⟩
    intro error' data' member
    have same := mem_allots.2 member
    simp only [allotted, List.mem_singleton, Prod.mk.injEq] at same
    rw [same.1, same.2, both]
  · rintro ⟨succeeded, unstopped, fits⟩
    have passed : Passed id (slice s id).history := by
      rcases answer.outcome ((mem_history rfl).2 succeeded) with retesting | stopped | passed
      · exact absurd retesting returned
      · exact absurd ((mem_history rfl).1 stopped) unstopped
      · exact passed
    obtain ⟨error, data, allotted, handled⟩ := told passed
    have both := fits error data (mem_allots.1 (by simp [allotted]))
    exact ⟨tquerySuccess, by simpa [both] using handled, by simp [succeeded]⟩

/-- Three failing attempts, and no handler. -/
theorem unanswered_threeFailures : ∃ s q, machine.Reachable s ∧ .freed 1 q ∈ s.log ∧
    .created 1 true (some ⟨1, 1⟩) ∈ s.log ∧ .aborted 1 ∉ s.log ∧ calls s 1 = queryRetryCount ∧
      handlers s.log 1 = [] := by
  have ends : (machine.exec (.start 4) threeFailures).map (fun s => s.log.any (fun
      | .freed x _ => x == 1
      | _ => false) && decide (.created 1 true (some ⟨1, 1⟩) ∈ s.log ∧ .aborted 1 ∉ s.log ∧
        calls s 1 = queryRetryCount ∧ handlers s.log 1 = [])) = some true := by decide
  obtain ⟨s, run, facts⟩ := Machine.exists_reachable (M := machine) ⟨4, rfl⟩ ends
  simp only [Bool.and_eq_true, List.any_eq_true, decide_eq_true_eq] at facts
  obtain ⟨⟨e, member, isFreed⟩, facts⟩ := facts
  cases e with
  | freed x q =>
      obtain rfl : x = 1 := by simpa using isFreed
      exact ⟨s, q, run, member, facts⟩
  | _ => cases isFreed

theorem answered_iff_threeFailures : ∃ s, machine.Reachable s ∧ calls s 1 = queryRetryCount ∧
    (Answered s.log 1 ↔ .outcome 1 true ∈ s.log ∧ .retest 1 true true ∉ s.log ∧
      ∀ error data, .allot 1 error data ∈ s.log → (error && data) = true) := by
  obtain ⟨s, q, run, freed, created, unaborted, three, -⟩ := unanswered_threeFailures
  exact ⟨s, run, three, answered_iff run freed created rfl unaborted⟩

/-- The handler is not executed for every query that `stop` leaves alone. -/
theorem not_always_answered : ¬ ∀ s, machine.Reachable s → ∀ id q fwd, .freed id q ∈ s.log →
    .created id true (some fwd) ∈ s.log → fwd.registered = true → .aborted id ∉ s.log →
      Answered s.log id := by
  intro always
  obtain ⟨s, q, run, freed, created, unaborted, -, unheard⟩ := unanswered_threeFailures
  obtain ⟨failstate, heard, -⟩ := always s run 1 q ⟨1, 1⟩ freed created rfl unaborted
  simp [unheard] at heard

end Refsapi.Mysql
