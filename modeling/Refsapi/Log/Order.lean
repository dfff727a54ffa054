/-
# Log.Order -- in which order the lines of a plugin reach its file

A line is waiting in the buffer or in the batch of a writer (`pending`).  Batches
are handed over in the order of the thread ids, so handing one over moves no
line: the buffer is the batch of the writer to come.  A writer sorts its batch on
the time of the lines and forgets their `seq`, so the lines of a plugin come out
in the order they came in only if each was stamped later than those before it;
and writers of one plugin do not wait for each other.
-/
import Mathlib.Data.List.TakeWhile
import Refsapi.Log.Model

namespace Refsapi.Log

set_option autoImplicit false

variable {s s' : State} {a : Action}

/-! ## The order of lines -/

/-- Two lines of one plugin are in the order in which they came in. -/
def Before (a b : Record) : Prop := a.amx = b.amx → a.seq < b.seq

/-- The second line came later, and if it is of the same plugin it was stamped later. -/
def Stamped (a b : Record) : Prop := a.seq < b.seq ∧ (a.amx = b.amx → a.time < b.time)

theorem Stamped.before {a b : Record} (stamped : Stamped a b) : Before a b := fun _ => stamped.1

/-- Any order that the comparator allows, read from the back, keeps stamped lines in order. -/
theorem before_of_sorted {buff order : List Record} (stamped : buff.Pairwise Stamped)
    (perm : order.Perm buff) (sorted : order.Pairwise fun a b => less b a = false) :
    order.reverse.Pairwise Before := by
  have either : order.Pairwise fun a b => Stamped a b ∨ Stamped b a :=
    (perm.pairwise_iff fun h => h.symm).2 (stamped.imp .inl)
  rw [List.pairwise_reverse]
  refine (either.and sorted).imp fun {a b} both same => ?_
  obtain ⟨stamped | stamped, notLess⟩ := both
  · have later := stamped.2 same.symm
    simp [less, same, later] at notLess
  · exact stamped.1

/-! ## The lines that wait -/

/-- The lines that wait in a batch; the buffer is the batch of the next writer. -/
def State.pending (s : State) (id : Nat) : List Record :=
  if id = s.started + 1 then s.buffer else (s.writers id).buff

/-- The batch is in the order in which its lines came in. -/
def State.unsorted (s : State) (id : Nat) : Prop :=
  id = s.started + 1 ∨ (s.writers id).pc = .sort

structure Ordered (s : State) : Prop where
  written : s.written.Pairwise Before
  past : ∀ a ∈ s.written, ∀ id, ∀ b ∈ s.pending id, Before a b
  batches : ∀ i j, i < j → ∀ a ∈ s.pending i, ∀ b ∈ s.pending j, Before a b
  batch : ∀ id, (s.pending id).Pairwise Before
  stamped : ∀ id, s.unsorted id → (s.pending id).Pairwise Stamped
  freshWritten : ∀ a ∈ s.written, a.seq < s.mSequence
  fresh : ∀ id, ∀ a ∈ s.pending id, a.seq < s.mSequence
  unstarted : ∀ id, s.started < id → (s.writers id).buff = []

/-! ## Steps that take no line in and write none -/

/-- Nothing is written, and batches lose lines at most. -/
structure Draws (s s' : State) : Prop where
  written : s'.written = s.written
  mSequence : s'.mSequence = s.mSequence
  pending : ∀ id, (s'.pending id).Sublist (s.pending id)
  unsorted : ∀ id, s'.unsorted id → s.unsorted id ∨ s.pending id = []
  unstarted : ∀ id, s'.started < id → (s.writers id).buff = [] → (s'.writers id).buff = []
  started : s.started ≤ s'.started

theorem Ordered.of_draws (ordered : Ordered s) (draws : Draws s s') : Ordered s' := by
  obtain ⟨written, past, batches, batch, stamped, freshWritten, fresh, unstarted⟩ := ordered
  have waits {id : Nat} {a : Record} (member : a ∈ s'.pending id) : a ∈ s.pending id :=
    (draws.pending id).subset member
  refine ⟨?_, ?_, fun i j lt a memberA b memberB => ?_, fun id => ?_, fun id early => ?_, ?_,
    fun id a member => ?_, fun id high => ?_⟩
  · rw [draws.written]
    exact written
  · rw [draws.written]
    exact fun a member id b later => past a member id b (waits later)
  · exact batches i j lt a (waits memberA) b (waits memberB)
  · exact (batch id).sublist (draws.pending id)
  · refine List.Pairwise.sublist (draws.pending id) ?_
    rcases draws.unsorted id early with before | empty
    · exact stamped id before
    · rw [empty]
      exact .nil
  · rw [draws.written, draws.mSequence]
    exact freshWritten
  · rw [draws.mSequence]
    exact fresh id a (waits member)
  · exact draws.unstarted id high (unstarted id (Nat.lt_of_le_of_lt draws.started high))

/-- The order depends on the lines and the writers only. -/
theorem Ordered.congr (ordered : Ordered s) (buffer : s'.buffer = s.buffer)
    (started : s'.started = s.started) (writers : s'.writers = s.writers)
    (written : s'.written = s.written) (mSequence : s'.mSequence = s.mSequence) : Ordered s' := by
  have pending (id : Nat) : s'.pending id = s.pending id := by
    unfold State.pending
    rw [buffer, started, writers]
  refine ordered.of_draws ⟨written, mSequence, fun id => pending id ▸ .refl _, fun id early => ?_,
    fun id _ empty => ?_, Nat.le_of_eq started.symm⟩
  · unfold State.unsorted at early ⊢
    rw [started, writers] at early
    exact .inl early
  · rw [writers]
    exact empty

/-- A writer moves on. -/
theorem draws_setWriter (id : Nat) (w : Writer) (loses : w.buff.Sublist (s.writers id).buff)
    (sorted : w.pc ≠ .sort) : Draws s (s.setWriter id w) := by
  refine ⟨rfl, rfl, fun x => ?_, fun x early => ?_, fun x high empty => ?_, Nat.le_refl _⟩
  · unfold State.pending
    by_cases next : x = s.started + 1
    · simp [next, State.setWriter]
    · by_cases here : x = id
      · subst here
        simpa [next, State.setWriter] using loses
      · simp [next, State.setWriter, here]
  · refine .inl (early.imp (fun next => next) fun sort => ?_)
    by_cases here : x = id
    · subst here
      simp [State.setWriter, sorted] at sort
    · simpa [State.setWriter, here] using sort
  · by_cases here : x = id
    · subst here
      rw [empty] at loses
      simpa [State.setWriter] using loses
    · simpa [State.setWriter, here] using empty

theorem next_ne_sort (buff : List Record) : State.next buff ≠ .sort := by
  unfold State.next
  split <;> exact fun same => nomatch same

theorem draws_noFile (id : Nat) (config : Bool) : Draws s (s.noFile id config) := by
  unfold State.noFile State.skip
  split
  · exact draws_setWriter id _ (.refl _) fun same => nomatch same
  · exact draws_setWriter id _ (List.tail_sublist _) (next_ne_sort _)

/-- The buffer becomes a batch, and no line moves. -/
theorem draws_spawn (unstarted : ∀ id, s.started < id → (s.writers id).buff = []) :
    Draws s s.spawn := by
  have pending (id : Nat) : s.spawn.pending id = s.pending id := by
    unfold State.pending State.spawn
    simp only [State.setWriter]
    by_cases new : id = s.started + 1
    · simp [new]
    · by_cases next : id = s.started + 2
      · simp [next, unstarted (s.started + 2) (by omega)]
      · simp [new, next]
  refine ⟨rfl, rfl, fun id => pending id ▸ .refl _, fun id early => ?_, fun id high empty => ?_,
    Nat.le_succ _⟩
  · rcases early with next | sort
    · refine .inr ?_
      rw [← pending id]
      simp only [State.spawn] at next
      simp [State.pending, State.spawn, next]
    · by_cases new : id = s.started + 1
      · exact .inl (.inl new)
      · exact .inl (.inr (by simpa [State.spawn, State.setWriter, new] using sort))
  · have new : id ≠ s.started + 1 := by
      simp only [State.spawn] at high
      omega
    simpa [State.spawn, State.setWriter, new] using empty

theorem Ordered.writeToDisk (ordered : Ordered s) : Ordered s.writeToDisk.1 := by
  have productivity (n : Nat) : Ordered { s with numProductivity := n } :=
    ⟨ordered.written, ordered.past, ordered.batches, ordered.batch, ordered.stamped,
      ordered.freshWritten, ordered.fresh, ordered.unstarted⟩
  have spawned {t : State} (ordered : Ordered t) : Ordered t.spawn :=
    ordered.of_draws (draws_spawn ordered.unstarted)
  unfold State.writeToDisk
  split
  · exact ordered
  · split
    · split
      · exact spawned (productivity _)
      · exact ordered
    · split
      · exact spawned (productivity _)
      · exact spawned ordered

/-! ## A line comes in -/

/-- A line joins the buffer, stamped later than the lines of its plugin there. -/
theorem Ordered.push (ordered : Ordered s) {amx : Nat} {time : Int}
    (later : ∀ r ∈ s.buffer, r.amx = amx → r.time < time) :
    Ordered { s with
      buffer := s.buffer ++ [⟨amx, s.mSequence, time⟩]
      mSequence := s.mSequence + 1 } := by
  obtain ⟨written, past, batches, batch, stamped, freshWritten, fresh, unstarted⟩ := ordered
  have waits {id : Nat} {a : Record} (member : a ∈ (State.pending { s with
      buffer := s.buffer ++ [⟨amx, s.mSequence, time⟩], mSequence := s.mSequence + 1 } id)) :
      a ∈ s.pending id ∨ id = s.started + 1 ∧ a.seq = s.mSequence := by
    unfold State.pending at member ⊢
    simp only at member
    split at member
    · next new =>
        rcases List.mem_append.1 member with old | last
        · exact .inl (by rwa [if_pos new])
        · exact .inr ⟨new, by rw [List.mem_singleton.1 last]⟩
    · next new => exact .inl (by rwa [if_neg new])
  have buffer : s.buffer.Pairwise Stamped := by
    have := stamped (s.started + 1) (.inl rfl)
    rwa [State.pending, if_pos rfl] at this
  have joined : (s.buffer ++ [(⟨amx, s.mSequence, time⟩ : Record)]).Pairwise Stamped := by
    refine List.pairwise_append.2 ⟨buffer, List.pairwise_singleton _ _, fun a member b last => ?_⟩
    obtain rfl := List.mem_singleton.1 last
    refine ⟨fresh (s.started + 1) a ?_, later a member⟩
    rwa [State.pending, if_pos rfl]
  refine ⟨written, fun a member id b memberB => ?_, fun i j lt a memberA b memberB => ?_,
    fun id => ?_, fun id early => ?_, fun a member => ?_, fun id a member => ?_, unstarted⟩
  · rcases waits memberB with old | ⟨-, new⟩
    · exact past a member id b old
    · intro _
      rw [new]
      exact freshWritten a member
  · rcases waits memberB with oldB | ⟨isNext, new⟩
    · rcases waits memberA with oldA | ⟨isNext, -⟩
      · exact batches i j lt a oldA b oldB
      · rw [State.pending, if_neg (by omega), unstarted j (by omega)] at oldB
        cases oldB
    · rcases waits memberA with oldA | ⟨isNext', -⟩
      · intro _
        rw [new]
        exact fresh i a oldA
      · omega
  · unfold State.pending
    simp only
    split
    · exact joined.imp Stamped.before
    · next new =>
        have := batch id
        rwa [State.pending, if_neg new] at this
  · unfold State.pending
    simp only
    split
    · exact joined
    · next new =>
        have := stamped id early
        rwa [State.pending, if_neg new] at this
  · exact Nat.lt_succ_of_lt (freshWritten a member)
  · show a.seq < s.mSequence + 1
    rcases waits member with old | ⟨-, new⟩
    · exact Nat.lt_succ_of_lt (fresh id a old)
    · omega

theorem writeToDisk_buffer (s : State) (flushed : s.writeToDisk.2 = true) :
    s.writeToDisk.1.buffer = [] := by
  unfold State.writeToDisk at flushed ⊢
  split
  · next empty => exact List.isEmpty_iff.1 empty
  · next empty =>
      simp only [empty, if_false, Bool.false_eq_true] at flushed
      split
      · next full =>
          simp only [full, if_true] at flushed
          split
          · rfl
          · next spent => simp [spent] at flushed
      · split <;> rfl

/-- What the clock must return for a line that joins the buffer. -/
theorem Ordered.writeFile (ordered : Ordered s) {amx : Nat} {time : Int}
    (later : s.buffer.length < maxLogBufferSize → ∀ r ∈ s.buffer, r.amx = amx → r.time < time) :
    Ordered (s.writeFile amx time) := by
  unfold State.writeFile
  simp only
  split
  · split
    · next flushed =>
        refine ordered.writeToDisk.push fun r member _ => ?_
        rw [writeToDisk_buffer s flushed] at member
        cases member
    · exact ordered.writeToDisk
  · next room => exact ordered.push (later (by omega))

/-! ## Lines go out -/

/-- A writer writes the front of its batch, and no earlier one holds lines of that plugin. -/
theorem Ordered.draw (ordered : Ordered s) {id : Nat} {w : Writer} {front : List Record}
    {amx : Nat} (splits : (s.writers id).buff = front ++ w.buff) (sorted : w.pc ≠ .sort)
    (one : ∀ a ∈ front, a.amx = amx) (first : ∀ j < id, ∀ a ∈ (s.writers j).buff, a.amx ≠ amx)
    (started : id ≤ s.started) :
    Ordered { s.setWriter id w with written := s.written ++ front } := by
  have waiting : s.pending id = front ++ w.buff := by
    rw [State.pending, if_neg (by omega), splits]
  have drawn : Ordered (s.setWriter id w) :=
    ordered.of_draws (draws_setWriter id _ (splits ▸ List.sublist_append_right _ _) sorted)
  obtain ⟨-, pastDrawn, batches, batch, stamped, -, fresh, unstarted⟩ := drawn
  have wrote {a : Record} (member : a ∈ front) : a ∈ s.pending id := by
    rw [waiting]
    exact List.mem_append_left _ member
  have split := List.pairwise_append.1 (waiting ▸ ordered.batch id)
  refine ⟨?_, fun a member j b memberB => ?_, batches, batch, stamped, fun a member => ?_, fresh,
    unstarted⟩
  · refine List.pairwise_append.2 ⟨ordered.written, split.1, fun a memberA b memberB => ?_⟩
    exact ordered.past a memberA id b (wrote memberB)
  · rcases List.mem_append.1 member with old | new
    · exact pastDrawn a old j b memberB
    · have stays : b ∈ (s.setWriter id w).pending j := memberB
      by_cases here : j = id
      · subst here
        rw [State.pending, if_neg (by simp only [State.setWriter]; omega)] at stays
        simp only [State.setWriter, Function.update_self] at stays
        exact split.2.2 a new b stays
      · have old : b ∈ s.pending j := by
          unfold State.pending at stays ⊢
          simpa [State.setWriter, here] using stays
        rcases Nat.lt_or_gt_of_ne here with before | after
        · rw [State.pending, if_neg (by omega)] at old
          exact fun same => absurd (same.symm.trans (one a new)) (first j before b old)
        · exact ordered.batches id j after a (wrote new) b old
  · rcases List.mem_append.1 member with old | new
    · exact ordered.freshWritten a old
    · exact ordered.fresh id a (wrote new)

/-- A turn takes a front part of the batch, of one plugin. -/
theorem batch_splits (w : Writer) :
    w.buff = State.batch w ++ w.buff.drop (State.batch w).length := by
  have front : State.batch w <+: w.buff := by
    unfold State.batch
    split
    · exact List.nil_prefix
    · exact (List.take_prefix _ _).trans (List.takeWhile_prefix _)
  conv_lhs => rw [← List.prefix_iff_eq_append.1 front]

theorem batch_amx {w : Writer} {record a : Record} (head : w.buff.head? = some record)
    (member : a ∈ State.batch w) : a.amx = record.amx := by
  obtain ⟨rest, buff⟩ := List.head?_eq_some_iff.1 head
  unfold State.batch at member
  rw [buff] at member
  simpa using List.mem_takeWhile_imp (List.mem_of_mem_take member)

/-- A line is stamped later than those of its plugin that wait in the buffer, and no lines of
a plugin are written while an earlier batch holds some. -/
def Sequential (s : State) : Action → Prop
  | .writeFile amx time =>
      s.buffer.length < maxLogBufferSize → ∀ r ∈ s.buffer, r.amx = amx → r.time < time
  | .write id => ∀ record ∈ (s.writers id).buff.head?, ∀ j < id, ∀ r ∈ (s.writers j).buff,
      r.amx ≠ record.amx
  | _ => True

/-- What a turn of a writer does to its batch and to what is written. -/
theorem write_cases {id : Nat} (moved : s.write id = some s') :
    ∃ w : Writer, w.pc ≠ .sort ∧ (s.writers id).buff = State.batch (s.writers id) ++ w.buff ∧
      (s' = s.setWriter id w ∨
        s' = { s.setWriter id w with written := s.written ++ State.batch (s.writers id) }) := by
  simp only [State.write] at moved
  split at moved
  · next file pc =>
      split at moved
      · cases moved
      · refine ⟨{ s.writers id with
          pc := if State.continues (s.writers id).buff ((s.writers id).buff.drop
            (State.batch (s.writers id)).length) then .write file else .unlock file
          buff := (s.writers id).buff.drop (State.batch (s.writers id)).length }, ?_,
          batch_splits _, ?_⟩
        · split <;> exact fun same => nomatch same
        · cases opens : (s.heap file).isOpen with
          | true =>
              rw [opens, if_pos rfl] at moved
              exact .inr (Option.some.inj moved).symm
          | false =>
              rw [opens] at moved
              exact .inl (Option.some.inj moved).symm
  · cases moved

theorem Ordered.write (ordered : Ordered s) {id : Nat} (sequential : Sequential s (.write id))
    (moved : s.write id = some s') : Ordered s' := by
  obtain ⟨w, sorted, splits, rfl | rfl⟩ := write_cases moved
  · exact ordered.of_draws (draws_setWriter id _ (splits ▸ List.sublist_append_right _ _) sorted)
  · cases head : (s.writers id).buff.head? with
    | none =>
        have empty := List.head?_eq_none_iff.1 head
        have loses : w.buff.Sublist (s.writers id).buff := splits ▸ List.sublist_append_right _ _
        have nothing : State.batch (s.writers id) = [] := by simp [State.batch, empty]
        rw [nothing, List.append_nil]
        exact ordered.of_draws (draws_setWriter id _ loses sorted)
    | some record =>
        refine ordered.draw splits sorted (fun a member => batch_amx head member)
          (sequential record head) ?_
        by_contra high
        rw [ordered.unstarted id (by omega)] at head
        cases head

/-! ## Sorting -/

theorem Ordered.sort (ordered : Ordered s) {id : Nat} {order : List Record}
    (moved : s.sort id order = some s') : Ordered s' := by
  simp only [State.sort] at moved
  split at moved
  · next sorts =>
      cases moved
      simp only [Bool.and_eq_true, beq_iff_eq, List.isPerm_iff, decide_eq_true_eq] at sorts
      obtain ⟨⟨pc, perm⟩, sorted⟩ := sorts
      obtain ⟨written, past, batches, batch, stamped, freshWritten, fresh, unstarted⟩ := ordered
      let w : Writer := { s.writers id with pc := State.next order, buff := order.reverse }
      have same {x : Nat} (other : x ≠ id ∨ x = s.started + 1) :
          (s.setWriter id w).pending x = s.pending x := by
        unfold State.pending
        rcases other with other | new
        · simp [State.setWriter, other]
        · simp [State.setWriter, new]
      have here (old : id ≠ s.started + 1) : s.pending id = (s.writers id).buff ∧
          (s.setWriter id w).pending id = order.reverse := by
        simp [State.pending, State.setWriter, old, w]
      have mem {x : Nat} {a : Record} (member : a ∈ (s.setWriter id w).pending x) :
          a ∈ s.pending x := by
        by_cases other : x ≠ id ∨ x = s.started + 1
        · rwa [same other] at member
        · simp only [not_or, not_not] at other
          obtain ⟨rfl, old⟩ := other
          rw [(here old).2, List.mem_reverse] at member
          rw [(here old).1]
          exact perm.mem_iff.1 member
      refine ⟨written, fun a member x b waits => past a member x b (mem waits),
        fun i j lt a waitsA b waitsB => batches i j lt a (mem waitsA) b (mem waitsB), fun x => ?_,
        fun x early => ?_, freshWritten, fun x a waits => fresh x a (mem waits), fun x high => ?_⟩
      · by_cases other : x ≠ id ∨ x = s.started + 1
        · rw [same other]
          exact batch x
        · simp only [not_or, not_not] at other
          obtain ⟨rfl, old⟩ := other
          rw [(here old).2]
          exact before_of_sorted ((here old).1 ▸ stamped x (.inr pc)) perm sorted
      · by_cases other : x ≠ id ∨ x = s.started + 1
        · rw [same other]
          refine stamped x ?_
          rcases early with new | sort
          · exact .inl new
          · rcases other with other | new
            · exact .inr (by simpa [State.setWriter, other] using sort)
            · exact .inl new
        · simp only [not_or, not_not] at other
          obtain ⟨rfl, old⟩ := other
          rcases early with new | sort
          · exact absurd new old
          · simp only [State.setWriter, Function.update_self] at sort
            exact absurd sort (next_ne_sort order)
      · by_cases other : x = id
        · subst other
          rw [unstarted x high] at perm
          simp [State.setWriter, perm.eq_nil]
        · simpa [State.setWriter, other] using unstarted x high
  · cases moved

/-! ## Every run -/

theorem Ordered.step (ordered : Ordered s) (sequential : Sequential s a)
    (moved : step s a = some s') : Ordered s' := by
  have drawn {t : State} (draws : Draws s t) (buffer : s'.buffer = t.buffer)
      (started : s'.started = t.started) (writers : s'.writers = t.writers)
      (written : s'.written = t.written) (mSequence : s'.mSequence = t.mSequence) : Ordered s' :=
    (ordered.of_draws draws).congr buffer started writers written mSequence
  cases a with
  | writeFile amx time =>
      simp only [Log.step] at moved
      split at moved
      · cases moved
        split
        · exact ordered
        · exact ordered.writeFile sequential
      · cases moved
  | flush =>
      simp only [Log.step] at moved
      split at moved
      · cases moved
        exact ordered.writeToDisk
      · cases moved
  | closeAll =>
      simp only [Log.step] at moved
      split at moved
      · cases moved
        exact ordered.writeToDisk.congr rfl rfl rfl rfl rfl
      · cases moved
  | reap =>
      simp only [Log.step, State.reap] at moved
      split at moved
      · cases moved
        exact ordered.congr rfl rfl rfl rfl rfl
      · split at moved <;> cases moved <;> exact ordered.congr rfl rfl rfl rfl rfl
      · cases moved
        exact ordered.congr rfl rfl rfl rfl rfl
      · cases moved
        exact ordered.congr rfl rfl rfl rfl rfl
  | loadFirst threads =>
      simp only [Log.step, State.loadFirst] at moved
      split at moved
      · cases moved
        exact ordered.congr rfl rfl rfl rfl rfl
      · cases moved
  | loadSecond =>
      simp only [Log.step, State.loadSecond] at moved
      obtain ⟨num, -, rfl⟩ := Option.map_eq_some_iff.1 moved
      exact ordered.congr rfl rfl rfl rfl rfl
  | closeFiles =>
      simp only [Log.step] at moved
      split at moved
      · cases moved
        exact ordered.congr rfl rfl rfl rfl rfl
      · cases moved
  | sort id order => exact ordered.sort moved
  | getFile id fileExists config =>
      simp only [Log.step, State.getFile] at moved
      split at moved
      · next record rest pc buff =>
          split at moved
          · cases moved
            exact ordered.of_draws (draws_noFile id config)
          · split at moved
            · cases moved
            · split at moved
              · split at moved
                · cases moved
                  have closed (file : Nat) : Ordered (s.closeFile record.amx file) :=
                    ordered.congr rfl rfl rfl rfl rfl
                  exact (closed _).of_draws (draws_noFile id config)
                · cases moved
              · cases moved
                exact ordered.of_draws (draws_setWriter id _ (.refl _) fun same => nomatch same)
      · cases moved
  | createFile id opens =>
      simp only [Log.step, State.createFile] at moved
      split at moved
      · next record rest pc buff =>
          split at moved
          · cases moved
            exact drawn (draws_setWriter id
              { s.writers id with pc := .write s.nextFile } (.refl _)
              fun same => nomatch same) rfl rfl rfl rfl rfl
          · cases moved
            exact drawn (draws_setWriter id { s.writers id with
              pc := State.next (s.writers id).buff.tail, buff := (s.writers id).buff.tail }
              (List.tail_sublist _) (next_ne_sort _)) rfl rfl rfl rfl rfl
      · cases moved
  | lock id =>
      simp only [Log.step, State.lock] at moved
      split at moved
      · next file pc =>
          split at moved
          · cases moved
          · cases moved
            exact drawn (draws_setWriter id { s.writers id with pc := .write file }
              (.refl _) fun same => nomatch same) rfl rfl rfl rfl rfl
      · cases moved
  | write id => exact ordered.write sequential moved
  | unlock id =>
      simp only [Log.step, State.unlock] at moved
      split at moved
      · split at moved
        · cases moved
        · cases moved
          exact drawn (draws_setWriter id { s.writers id with
            pc := State.next (s.writers id).buff } (.refl _) (next_ne_sort _)) rfl rfl rfl rfl rfl
      · cases moved
  | finish id =>
      simp only [Log.step, State.finish] at moved
      split at moved
      · cases moved
        exact drawn (draws_setWriter id { s.writers id with pc := .done }
          (.refl _) fun same => nomatch same) rfl rfl rfl rfl rfl
      · cases moved

theorem ordered_of_reaches (run : machine.Reaches Sequential s) : Ordered s := by
  refine Machine.Reaches.invariant ?_
    (fun _ _ _ _ ordered sequential moved => ordered.step sequential moved) run
  rintro _ ⟨maxWriterThreads, batchSize, rfl⟩
  have empty (id : Nat) : (State.zero maxWriterThreads batchSize).pending id = [] := by
    simp [State.pending, State.zero]
  refine ⟨.nil, fun _ member => (nomatch member), fun i _ _ a member => ?_, fun id => ?_,
    fun id _ => ?_, fun _ member => (nomatch member), fun id a member => ?_, fun _ _ => rfl⟩
  · rw [empty] at member
    cases member
  · rw [empty]
    exact .nil
  · rw [empty]
    exact .nil
  · rw [empty] at member
    cases member

/-- The lines of a plugin that have reached its file, in the order of `write_file`. -/
def InOrder (s : State) (amx : Nat) : Prop :=
  ((s.written.filter fun r => r.amx == amx).map Record.seq).Pairwise (· < ·)

/-- **Log order.**  In every run whose steps are sequential the lines of each plugin reach its
file in the order in which they were accepted. -/
theorem written_in_order : ∀ s, machine.Reaches Sequential s → ∀ amx, InOrder s amx := by
  intro s run amx
  refine List.pairwise_map.2 ?_
  have ordered := (ordered_of_reaches run).written.filter fun r => r.amx == amx
  refine ordered.imp_of_mem fun memberA memberB before => before ?_
  have amxA := (List.mem_filter.1 memberA).2
  have amxB := (List.mem_filter.1 memberB).2
  rw [beq_iff_eq] at amxA amxB
  exact amxA.trans amxB.symm

/-- `Sequential`, to be tested. -/
def sequential (s : State) : Action → Bool
  | .writeFile amx time => s.buffer.all fun r => r.amx != amx || decide (r.time < time)
  | .write id => (List.range id).all fun j => (s.writers j).buff.all fun r =>
      (s.writers id).buff.head?.all fun record => r.amx != record.amx
  | _ => true

theorem sequential_sound (s : State) (a : Action) (ok : sequential s a = true) :
    Sequential s a := by
  cases a with
  | writeFile amx time =>
      intro _ r member same
      have := List.all_eq_true.1 ok r member
      simpa [same] using this
  | write id =>
      intro record head j before r member
      have := List.all_eq_true.1 (List.all_eq_true.1 ok j (List.mem_range.2 before)) r member
      simpa [Option.mem_def.1 head] using this
  | _ => trivial

/-- Two lines of one plugin, in two batches. -/
theorem written_in_order_two : ∃ s : State,
    s.written = [⟨1, 0, 0⟩, ⟨1, 1, 0⟩] ∧ InOrder s 1 := by
  have ends : (machine.execIf sequential (.zero 4 100)
      [.writeFile 1 0, .flush, .writeFile 1 0, .flush, .sort 1 [⟨1, 0, 0⟩], .sort 2 [⟨1, 1, 0⟩],
        .getFile 1 true true, .createFile 1 true, .write 1, .unlock 1, .getFile 2 true true,
        .lock 2, .write 2]).map
        (fun s => s.written == [⟨1, 0, 0⟩, ⟨1, 1, 0⟩]) = some true := by decide
  obtain ⟨s, run, holds⟩ :=
    Machine.exists_reaches (M := machine) sequential_sound ⟨4, 100, rfl⟩ ends
  exact ⟨s, beq_iff_eq.1 holds, written_in_order s run 1⟩

/-- Two lines of one plugin in one batch, with one time: the sort leaves them as they are, and
the batch is written from its back. -/
theorem not_always_in_order : ¬ ∀ s, machine.Reachable s → ∀ amx, InOrder s amx := by
  intro always
  have ends : (machine.exec (.zero 4 100)
      [.writeFile 1 0, .writeFile 1 0, .flush, .sort 1 [⟨1, 0, 0⟩, ⟨1, 1, 0⟩], .getFile 1 true true,
        .createFile 1 true, .write 1]).map
        (fun s => s.written == [⟨1, 1, 0⟩, ⟨1, 0, 0⟩]) = some true := by decide
  obtain ⟨s, run, holds⟩ := Machine.exists_reachable (M := machine) ⟨4, 100, rfl⟩ ends
  have ordered := always s run 1
  rw [InOrder, beq_iff_eq.1 holds] at ordered
  exact absurd ordered (by decide)

end Refsapi.Log
