/-
# Timers.Dispatch -- each arming of a timer runs its callback at most once

A timer is in `m_timers`, and a copy of it is handed from `m_timer_queue` to `m_frames`
and from there to its callback.  `Core` is what of a state tells where the copies are, and
`Effect` what a step can do to it.  In every reachable state there is at most one copy of a
timer (`Dispatched.once`); a timer whose copy has left the queue is marked executed, and one
that is not marked was last armed.  So what the history tells of a timer before it is
executed is that it was armed (`Sound`).

The worker's walk and its hold on the top of the queue are `Walked`.
-/
import Mathlib.Data.List.Nodup
import Refsapi.Timers.Moves

namespace Refsapi.Timers

set_option autoImplicit false

/-! ## Where the copies are -/

/-- The entry of the queue that the worker is at. -/
def WorkerPc.entry : WorkerPc → Option Tm
  | compare t | wait t | check t | checkLoop t | lockFrame t | lookup t | mark t => some t
  | _ => none

/-- The entry that the worker has handed over and has still to pop. -/
def WorkerPc.handed : WorkerPc → Option Tm
  | pop t => some t
  | _ => none

/-- What of a walk is still to come. -/
def WorkerPc.toScan : WorkerPc → List Nat
  | scan rest => rest
  | push id rest => id :: rest
  | _ => []

/-- The copy that `frame_forward` has taken. -/
def GamePc.taken : GamePc → List Tm
  | forward t => [t]
  | _ => []

/-- The entries of the queue that have still to be handed over. -/
def State.waiting (s : State) : List Tm :=
  match s.worker.entry with
  | some t => t :: s.queue.tail
  | none => if s.worker.handed.isSome then s.queue.tail else s.queue

structure Core where
  timers : List Tm
  waiting : List Tm
  frames : List Tm
  taken : List Tm
  inside : List Tm
  nums : Nat
  history : List Event

def State.core (s : State) : Core :=
  ⟨s.timers, s.waiting, s.frames, s.game.taken, s.inside, s.nums, s.history⟩

def Core.copies (c : Core) : List Tm := c.waiting ++ c.frames ++ c.taken ++ c.inside

/-- Two records of one timer: what no operation writes is the same. -/
structure Tm.Same (t u : Tm) : Prop where
  id : t.id = u.id
  amx : t.amx = u.amx
  groupId : t.groupId = u.groupId
  fwdId : t.fwdId = u.fwdId

theorem Tm.Same.refl (t : Tm) : t.Same t := ⟨rfl, rfl, rfl, rfl⟩

theorem Tm.Same.trans {t u v : Tm} (first : t.Same u) (second : u.Same v) : t.Same v :=
  ⟨first.id.trans second.id, first.amx.trans second.amx, first.groupId.trans second.groupId,
    first.fwdId.trans second.fwdId⟩

/-- Write to the timer with an id. -/
def writeTo (id : Nat) (f : Tm → Tm) (timers : List Tm) : List Tm :=
  timers.map fun t => if t.id = id then f t else t

/-- What a step can do to the copies of the timers. -/
inductive Effect (c : Core) : Core → Prop where
  | drop {waiting frames taken inside : List Tm} (fewerWaiting : waiting.Sublist c.waiting)
      (fewerFrames : frames.Sublist c.frames) (fewerTaken : taken.Sublist c.taken)
      (fewerInside : inside.Sublist c.inside) :
      Effect c { c with waiting, frames, taken, inside }
  | change {id : Nat} {f : Tm → Tm} (keeps : ∀ t, (f t).Same t ∧ (f t).executed = t.executed) :
      Effect c { c with timers := writeTo id f c.timers }
  | push {t : Tm} {waiting : List Tm} (listed : t ∈ c.timers) (waits : t.executed = false)
      (new : ∀ q ∈ c.waiting, q.id ≠ t.id) (perm : waiting.Perm (t :: c.waiting)) :
      Effect c { c with waiting }
  | handOver {t : Tm} {rest frames : List Tm} (first : c.waiting = t :: rest)
      (perm : frames.Perm (t :: c.frames)) :
      Effect c { c with
        timers := writeTo t.id (fun tm => { tm with executed := true }) c.timers
        waiting := rest
        frames }
  | take {t : Tm} {rest : List Tm} (first : c.frames = t :: rest) (none : c.taken = []) :
      Effect c { c with frames := rest, taken := [t] }
  | call {t : Tm} {e : Event} (taken : c.taken = [t])
      (kind : e = .executed t ∧ (∃ tm ∈ c.timers, tm.id = t.id) ∨ e = .missed t) :
      Effect c { c with taken := [], inside := t :: c.inside, history := e :: c.history }
  | arm {t : Tm} {inside : List Tm} {f : Tm → Tm} (keeps : ∀ tm, (f tm).Same tm)
      (armed : ∀ tm, (f tm).executed = false) (one : t :: inside = c.taken ++ c.inside) :
      Effect c { c with
        timers := writeTo t.id f c.timers
        taken := []
        inside
        history := .armed t.id :: c.history }
  | add {t : Tm} {timers : List Tm} (next : t.id = c.nums + 1)
      (perm : timers.Perm (t :: c.timers)) :
      Effect c { c with timers, nums := t.id, history := .armed t.id :: c.history }
  | erase (p : Tm → Bool) :
      Effect c { c with
        timers := c.timers.filter fun t => !p t
        taken := []
        history := (c.timers.filter p).map (fun t => Event.removed t.id) ++ c.history }

/-- What a step does: to find no room for a callback has two effects. -/
inductive Effects (c : Core) : Core → Prop where
  | none : Effects c c
  | one {c' : Core} (effect : Effect c c') : Effects c c'
  | two {mid c' : Core} (first : Effect c mid) (same : mid.timers = c.timers)
      (fewer : mid.copies ⊆ c.copies) (second : Effect mid c') : Effects c c'

/-! ## What the history tells -/

/-- The last that happened to a timer. -/
def newest (id : Nat) (history : List Event) : Option Event := history.find? fun e => e.id == id

/-- A timer that is executed was last armed. -/
def Sound : List Event → Prop
  | [] => True
  | e :: before => (∀ t, e = .executed t → newest t.id before = some (.armed t.id)) ∧ Sound before

theorem newest_cons_self {id : Nat} {e : Event} (same : e.id = id) (history : List Event) :
    newest id (e :: history) = some e := by
  simp [newest, same]

theorem newest_cons_other {id : Nat} {e : Event} (other : e.id ≠ id) (history : List Event) :
    newest id (e :: history) = newest id history := by
  simp [newest, other]

theorem newest_removed {id : Nat} {removed : List Tm} (kept : ∀ t ∈ removed, t.id ≠ id)
    (history : List Event) :
    newest id (removed.map (fun t => Event.removed t.id) ++ history) = newest id history := by
  induction removed with
  | nil => rfl
  | cons t rest ih =>
      rw [List.map_cons, List.cons_append,
        newest_cons_other (e := .removed t.id) (kept t List.mem_cons_self)]
      exact ih fun t' member => kept t' (List.mem_cons_of_mem _ member)

theorem sound_cons {e : Event} {history : List Event} (sound : Sound history)
    (other : ∀ t, e ≠ .executed t) : Sound (e :: history) :=
  ⟨fun t same => absurd same (other t), sound⟩

theorem sound_removed {history : List Event} (sound : Sound history) (removed : List Tm) :
    Sound (removed.map (fun t => Event.removed t.id) ++ history) := by
  induction removed with
  | nil => exact sound
  | cons t rest ih => exact sound_cons ih fun _ same => nomatch same

/-! ## Writing to a timer -/

section writeTo

variable {id : Nat} {f : Tm → Tm} {timers : List Tm}

theorem map_id_writeTo (keeps : ∀ t, (f t).id = t.id) :
    (writeTo id f timers).map Tm.id = timers.map Tm.id := by
  rw [writeTo, List.map_map]
  refine List.map_congr_left fun t _ => ?_
  simp only [Function.comp_apply]
  split
  · exact keeps t
  · rfl

theorem mem_writeTo {t : Tm} (member : t ∈ writeTo id f timers) :
    ∃ old ∈ timers, (old.id = id ∧ t = f old) ∨ (old.id ≠ id ∧ t = old) := by
  obtain ⟨old, listed, rfl⟩ := List.mem_map.1 member
  refine ⟨old, listed, ?_⟩
  by_cases same : old.id = id
  · exact .inl ⟨same, by simp [same]⟩
  · exact .inr ⟨same, by simp [same]⟩

end writeTo

/-! ## One copy of each timer -/

structure Dispatched (c : Core) : Prop where
  ids : (c.timers.map Tm.id).Nodup
  known : ∀ t ∈ c.timers, t.id ≤ c.nums
  old : ∀ q ∈ c.copies, q.id ≤ c.nums
  once : (c.copies.map Tm.id).Nodup
  waits : ∀ q ∈ c.waiting, ∀ t ∈ c.timers, t.id = q.id → t.executed = false
  marked : ∀ q ∈ c.frames ++ c.taken ++ c.inside, ∀ t ∈ c.timers, t.id = q.id → t.executed = true
  armed : ∀ t ∈ c.timers, t.executed = false → newest t.id c.history = some (.armed t.id)
  ready : ∀ q ∈ c.frames ++ c.taken, ∀ t ∈ c.timers, t.id = q.id →
    newest t.id c.history = some (.armed t.id)
  agree : ∀ q ∈ c.copies, ∀ t ∈ c.timers, t.id = q.id → t.Same q
  sound : Sound c.history

variable {c c' : Core}

theorem Dispatched.unique (ok : Dispatched c) {t u : Tm} (listed : t ∈ c.timers)
    (listed' : u ∈ c.timers) (same : t.id = u.id) : t = u :=
  List.inj_on_of_nodup_map ok.ids listed listed' same

/-- Copies that are left out, or taken in another order. -/
theorem Dispatched.copies_of_subperm (ok : Dispatched c) {copies : List Tm}
    (fewer : copies.Subperm c.copies) :
    (∀ q ∈ copies, q.id ≤ c.nums) ∧ (copies.map Tm.id).Nodup ∧
      ∀ q ∈ copies, ∀ t ∈ c.timers, t.id = q.id → t.Same q := by
  obtain ⟨kept, perm, sublist⟩ := fewer
  refine ⟨fun q member => ok.old q (sublist.subset (perm.mem_iff.2 member)), ?_,
    fun q member => ok.agree q (sublist.subset (perm.mem_iff.2 member))⟩
  exact (perm.map Tm.id).nodup_iff.1 (ok.once.sublist (sublist.map Tm.id))

theorem Effect.drop_step (ok : Dispatched c) {waiting frames taken inside : List Tm}
    (fewerWaiting : waiting.Sublist c.waiting) (fewerFrames : frames.Sublist c.frames)
    (fewerTaken : taken.Sublist c.taken) (fewerInside : inside.Sublist c.inside) :
    Dispatched { c with waiting, frames, taken, inside } := by
  obtain ⟨old, once, agree⟩ := ok.copies_of_subperm
    (((fewerWaiting.append fewerFrames).append fewerTaken).append fewerInside).subperm
  have fewer := (fewerFrames.append fewerTaken)
  exact { ok with
    old, once, agree
    waits := fun q member => ok.waits q (fewerWaiting.subset member)
    marked := fun q member => ok.marked q ((fewer.append fewerInside).subset member)
    ready := fun q member => ok.ready q (fewer.subset member) }

theorem Effect.change_step (ok : Dispatched c) {id : Nat} {f : Tm → Tm}
    (keeps : ∀ t, (f t).Same t ∧ (f t).executed = t.executed) :
    Dispatched { c with timers := writeTo id f c.timers } := by
  have same {t : Tm} (member : t ∈ writeTo id f c.timers) :
      ∃ old ∈ c.timers, t.Same old ∧ old.executed = t.executed := by
    obtain ⟨old, listed, ⟨-, rfl⟩ | ⟨-, rfl⟩⟩ := mem_writeTo member
    · exact ⟨old, listed, (keeps old).1, (keeps old).2.symm⟩
    · exact ⟨t, listed, .refl t, rfl⟩
  have ids : ((writeTo id f c.timers).map Tm.id).Nodup := by
    rw [map_id_writeTo fun t => (keeps t).1.id]
    exact ok.ids
  refine { ok with
    ids, known := ?_, waits := ?_, marked := ?_, armed := ?_, ready := ?_, agree := ?_ }
  · intro t member
    obtain ⟨old, listed, kept, -⟩ := same member
    exact kept.id ▸ ok.known old listed
  · intro q copy t member sameId
    obtain ⟨old, listed, kept, flag⟩ := same member
    exact flag ▸ ok.waits q copy old listed (kept.id.symm.trans sameId)
  · intro q copy t member sameId
    obtain ⟨old, listed, kept, flag⟩ := same member
    exact flag ▸ ok.marked q copy old listed (kept.id.symm.trans sameId)
  · intro t member waits
    obtain ⟨old, listed, kept, flag⟩ := same member
    exact kept.id ▸ ok.armed old listed (flag.trans waits)
  · intro q copy t member sameId
    obtain ⟨old, listed, kept, -⟩ := same member
    exact kept.id ▸ ok.ready q copy old listed (kept.id.symm.trans sameId)
  · intro q copy t member sameId
    obtain ⟨old, listed, kept, -⟩ := same member
    exact kept.trans (ok.agree q copy old listed (kept.id.symm.trans sameId))

theorem Effect.push_step (ok : Dispatched c) {t : Tm} {waiting : List Tm} (listed : t ∈ c.timers)
    (waits : t.executed = false) (new : ∀ q ∈ c.waiting, q.id ≠ t.id)
    (perm : waiting.Perm (t :: c.waiting)) : Dispatched { c with waiting } := by
  have copies : (waiting ++ c.frames ++ c.taken ++ c.inside).Perm (t :: c.copies) :=
    ((perm.append_right _).append_right _).append_right _
  have first : t.id ∉ c.copies.map Tm.id := by
    intro member
    obtain ⟨q, copy, same⟩ := List.mem_map.1 member
    simp only [Core.copies, List.append_assoc] at copy
    rcases List.mem_append.1 copy with inQueue | later
    · exact new q inQueue same
    · have marked := ok.marked q (by simpa using later) t listed same.symm
      rw [waits] at marked
      cases marked
  refine { ok with old := ?_, once := ?_, waits := ?_, agree := ?_ }
  · intro q member
    rcases List.mem_cons.1 (copies.mem_iff.1 member) with rfl | older
    · exact ok.known q listed
    · exact ok.old q older
  · exact (copies.map Tm.id).nodup_iff.2 (List.nodup_cons.2 ⟨first, ok.once⟩)
  · intro q member u listed' same
    rcases List.mem_cons.1 (perm.mem_iff.1 member) with rfl | older
    · exact ok.unique listed' listed same ▸ waits
    · exact ok.waits q older u listed' same
  · intro q member u listed' same
    rcases List.mem_cons.1 (copies.mem_iff.1 member) with rfl | older
    · exact ok.unique listed' listed same ▸ .refl u
    · exact ok.agree q older u listed' same

theorem Effect.handOver_step (ok : Dispatched c) {t : Tm} {rest frames : List Tm}
    (first : c.waiting = t :: rest) (perm : frames.Perm (t :: c.frames)) :
    Dispatched { c with
      timers := writeTo t.id (fun tm => { tm with executed := true }) c.timers
      waiting := rest
      frames } := by
  have copies : (rest ++ frames ++ c.taken ++ c.inside).Perm c.copies := by
    rw [Core.copies, first]
    exact (((perm.append_left rest).trans List.perm_middle).append_right _).append_right _
  obtain ⟨old, once, agree⟩ := ok.copies_of_subperm copies.subperm
  have apart {q : Tm} (member : q ∈ rest) : q.id ≠ t.id := by
    have nodup := ok.once
    simp only [Core.copies, first, List.cons_append, List.map_cons, List.nodup_cons] at nodup
    exact fun same => nodup.1 (same ▸ List.mem_map_of_mem (by simp [member]))
  have ids : ((writeTo t.id (fun tm => { tm with executed := true }) c.timers).map
      Tm.id).Nodup := by
    rw [map_id_writeTo (f := fun tm => { tm with executed := true }) fun _ => rfl]
    exact ok.ids
  refine ⟨ids, ?_, old, once, ?_, ?_, ?_, ?_, ?_, ok.sound⟩
  · intro u member
    obtain ⟨v, listed, ⟨-, rfl⟩ | ⟨-, rfl⟩⟩ := mem_writeTo member
    · exact ok.known v listed
    · exact ok.known u listed
  · intro q copy u member same
    obtain ⟨v, listed, ⟨here, rfl⟩ | ⟨-, rfl⟩⟩ := mem_writeTo member
    · exact absurd (same.symm.trans here) (apart copy)
    · exact ok.waits q (first ▸ List.mem_cons_of_mem _ copy) u listed same
  · intro q copy u member same
    obtain ⟨v, listed, ⟨-, rfl⟩ | ⟨other, rfl⟩⟩ := mem_writeTo member
    · rfl
    · refine ok.marked q ?_ u listed same
      simp only [List.append_assoc, List.mem_append, perm.mem_iff, List.mem_cons] at copy ⊢
      rcases copy with (rfl | copy) | copy
      · exact absurd same other
      · exact .inl copy
      · exact .inr copy
  · intro u member waits
    obtain ⟨v, listed, ⟨-, rfl⟩ | ⟨-, rfl⟩⟩ := mem_writeTo member
    · cases waits
    · exact ok.armed u listed waits
  · intro q copy u member same
    obtain ⟨v, listed, ⟨here, rfl⟩ | ⟨other, rfl⟩⟩ := mem_writeTo member
    · exact ok.armed v listed (ok.waits t (first ▸ List.mem_cons_self) v listed here)
    · refine ok.ready q ?_ u listed same
      simp only [List.mem_append, perm.mem_iff, List.mem_cons] at copy ⊢
      rcases copy with (rfl | copy) | copy
      · exact absurd same other
      · exact .inl copy
      · exact .inr copy
  · intro q copy u member same
    obtain ⟨v, listed, ⟨-, rfl⟩ | ⟨-, rfl⟩⟩ := mem_writeTo member
    · obtain ⟨id, amx, groupId, fwdId⟩ := agree q copy v listed same
      exact ⟨id, amx, groupId, fwdId⟩
    · exact agree q copy u listed same

theorem Effect.take_step (ok : Dispatched c) {t : Tm} {rest : List Tm}
    (first : c.frames = t :: rest)
    (none : c.taken = []) : Dispatched { c with frames := rest, taken := [t] } := by
  have moved : (rest ++ [t]).Perm (c.frames ++ c.taken) := by
    rw [first, none, List.append_nil]
    exact List.perm_append_singleton t rest
  have copies : (c.waiting ++ rest ++ [t] ++ c.inside).Perm c.copies := by
    rw [Core.copies, List.append_assoc c.waiting rest, List.append_assoc c.waiting c.frames]
    exact (moved.append_left c.waiting).append_right c.inside
  obtain ⟨old, once, agree⟩ := ok.copies_of_subperm copies.subperm
  exact { ok with
    old, once, agree
    marked := fun q copy => ok.marked q ((moved.append_right _).mem_iff.1 copy)
    ready := fun q copy => ok.ready q (moved.mem_iff.1 copy) }

theorem Effect.call_step (ok : Dispatched c) {t : Tm} {e : Event} (taken : c.taken = [t])
    (kind : e = .executed t ∧ (∃ tm ∈ c.timers, tm.id = t.id) ∨ e = .missed t) :
    Dispatched { c with taken := [], inside := t :: c.inside, history := e :: c.history } := by
  have copies : c.waiting ++ c.frames ++ [] ++ t :: c.inside = c.copies := by
    simp [Core.copies, taken]
  have present : t ∈ c.frames ++ c.taken := by simp [taken]
  have isId : e.id = t.id := by
    rcases kind with ⟨rfl, -⟩ | rfl <;> rfl
  have apart {q : Tm} (member : q ∈ c.frames) : q.id ≠ t.id := by
    have nodup := ok.once
    rw [← copies, List.append_nil, List.map_append, List.nodup_append] at nodup
    exact nodup.2.2 _ (List.mem_map_of_mem (by simp [member])) _ (by simp)
  refine { ok with
    old := ?_, once := ?_, marked := ?_, armed := ?_, ready := ?_, agree := ?_, sound := ?_ }
  · exact fun q member => ok.old q (copies ▸ member)
  · have once := ok.once
    rw [← copies] at once
    exact once
  · intro q copy u listed' same'
    refine ok.marked q ?_ u listed' same'
    simpa [taken] using copy
  · intro u listed' waits
    have other : e.id ≠ u.id := by
      intro same'
      have marked := ok.marked t (by simp [taken]) u listed' (same'.symm.trans isId)
      rw [waits] at marked
      cases marked
    exact (newest_cons_other other _).trans (ok.armed u listed' waits)
  · intro q copy u listed' same'
    rw [List.append_nil] at copy
    have other : e.id ≠ u.id := fun same => apart copy (same'.symm.trans (same.symm.trans isId))
    exact (newest_cons_other other _).trans
      (ok.ready q (List.mem_append_left _ copy) u listed' same')
  · exact fun q copy => ok.agree q (copies ▸ copy)
  · refine ⟨fun u isT => ?_, ok.sound⟩
    rcases kind with ⟨rfl, tm, listed, same⟩ | rfl
    · cases isT
      exact same ▸ ok.ready t present tm listed same
    · cases isT

theorem Effect.arm_step (ok : Dispatched c) {t : Tm} {inside : List Tm} {f : Tm → Tm}
    (keeps : ∀ tm, (f tm).Same tm) (armed : ∀ tm, (f tm).executed = false)
    (one : t :: inside = c.taken ++ c.inside) :
    Dispatched { c with
      timers := writeTo t.id f c.timers
      taken := []
      inside
      history := .armed t.id :: c.history } := by
  have copies : (t :: (c.waiting ++ c.frames ++ inside)).Perm c.copies := by
    rw [Core.copies, List.append_assoc (c.waiting ++ c.frames), ← one]
    exact List.perm_middle.symm
  have nodup : (t.id :: (c.waiting ++ c.frames ++ inside).map Tm.id).Nodup :=
    (copies.map Tm.id).nodup_iff.2 ok.once
  obtain ⟨alone, once⟩ := List.nodup_cons.1 nodup
  have apart {q : Tm} (member : q ∈ c.waiting ++ c.frames ++ inside) : q.id ≠ t.id :=
    fun same => alone (same ▸ List.mem_map_of_mem member)
  have apartLater {q : Tm} (member : q ∈ c.frames ++ inside) : q.id ≠ t.id := by
    refine apart ?_
    rw [List.append_assoc]
    exact List.mem_append_right _ member
  have kept {id : Nat} (other : id ≠ t.id) :
      newest id (.armed t.id :: c.history) = newest id c.history :=
    newest_cons_other (e := .armed t.id) other.symm _
  have ids : ((writeTo t.id f c.timers).map Tm.id).Nodup := by
    rw [map_id_writeTo fun t => (keeps t).id]
    exact ok.ids
  have sub {q : Tm} (member : q ∈ c.waiting ++ c.frames ++ [] ++ inside) : q ∈ c.copies := by
    rw [List.append_nil] at member
    exact copies.mem_iff.1 (List.mem_cons_of_mem _ member)
  refine ⟨ids, ?_, fun q member => ok.old q (sub member), ?_, ?_, ?_, ?_, ?_, ?_, ?_⟩
  · intro u member
    obtain ⟨v, listed, ⟨-, rfl⟩ | ⟨-, rfl⟩⟩ := mem_writeTo member
    · exact (keeps v).id.symm ▸ ok.known v listed
    · exact ok.known u listed
  · simpa [Core.copies] using once
  · intro q copy u member same
    obtain ⟨v, listed, ⟨-, rfl⟩ | ⟨-, rfl⟩⟩ := mem_writeTo member
    · exact armed v
    · exact ok.waits q copy u listed same
  · intro q copy u member same
    rw [List.append_nil] at copy
    obtain ⟨v, listed, ⟨here, rfl⟩ | ⟨-, rfl⟩⟩ := mem_writeTo member
    · exact absurd (same.symm.trans ((keeps v).id.trans here)) (apartLater copy)
    · refine ok.marked q ?_ u listed same
      rw [List.append_assoc, ← one]
      rcases List.mem_append.1 copy with inFrames | isInside
      · exact List.mem_append_left _ inFrames
      · exact List.mem_append_right _ (List.mem_cons_of_mem _ isInside)
  · intro u member waits
    obtain ⟨v, listed, ⟨here, rfl⟩ | ⟨other, rfl⟩⟩ := mem_writeTo member
    · rw [(keeps v).id, here]
      exact newest_cons_self rfl _
    · exact (kept other).trans (ok.armed u listed waits)
  · intro q copy u member same
    rw [List.append_nil] at copy
    have other := apartLater (List.mem_append_left inside copy)
    obtain ⟨v, listed, ⟨here, rfl⟩ | ⟨apart', rfl⟩⟩ := mem_writeTo member
    · exact absurd (same.symm.trans ((keeps v).id.trans here)) other
    · exact (kept apart').trans (ok.ready q (List.mem_append_left _ copy) u listed same)
  · intro q copy u member same
    obtain ⟨v, listed, ⟨-, rfl⟩ | ⟨-, rfl⟩⟩ := mem_writeTo member
    · exact (keeps v).trans (ok.agree q (sub copy) v listed ((keeps v).id.symm.trans same))
    · exact ok.agree q (sub copy) u listed same
  · exact sound_cons ok.sound fun _ same => nomatch same

theorem Effect.add_step (ok : Dispatched c) {t : Tm} {timers : List Tm} (next : t.id = c.nums + 1)
    (perm : timers.Perm (t :: c.timers)) :
    Dispatched { c with timers, nums := t.id, history := .armed t.id :: c.history } := by
  have split {u : Tm} (member : u ∈ timers) : u = t ∨ u ∈ c.timers :=
    List.mem_cons.1 (perm.mem_iff.1 member)
  have new {q : Tm} (copy : q ∈ c.copies) : t.id ≠ q.id := by
    have := ok.old q copy
    omega
  have kept {u : Tm} (listed : u ∈ c.timers) :
      newest u.id (.armed t.id :: c.history) = newest u.id c.history := by
    refine newest_cons_other (e := .armed t.id) (fun same => ?_) _
    have := ok.known u listed
    have : t.id = u.id := same
    omega
  refine ⟨?_, ?_, ?_, ok.once, ?_, ?_, ?_, ?_, ?_, ?_⟩
  · refine (perm.map Tm.id).nodup_iff.2 (List.nodup_cons.2 ⟨fun member => ?_, ok.ids⟩)
    obtain ⟨u, listed, same⟩ := List.mem_map.1 member
    have := ok.known u listed
    omega
  · intro u member
    rcases split member with rfl | listed
    · exact le_rfl
    · exact (ok.known u listed).trans (by simp only [next]; omega)
  · exact fun q copy => (ok.old q copy).trans (by simp only [next]; omega)
  · intro q copy u member same
    rcases split member with rfl | listed
    · exact absurd same (new (by simp [Core.copies, copy]))
    · exact ok.waits q copy u listed same
  · intro q copy u member same
    rcases split member with rfl | listed
    · refine absurd same (new ?_)
      simp only [Core.copies, List.append_assoc, List.mem_append] at copy ⊢
      exact .inr copy
    · exact ok.marked q copy u listed same
  · intro u member waits
    rcases split member with rfl | listed
    · exact newest_cons_self rfl _
    · exact (kept listed).trans (ok.armed u listed waits)
  · intro q copy u member same
    rcases split member with rfl | listed
    · exact newest_cons_self rfl _
    · exact (kept listed).trans (ok.ready q copy u listed same)
  · intro q copy u member same
    rcases split member with rfl | listed
    · exact absurd same (new copy)
    · exact ok.agree q copy u listed same
  · exact sound_cons ok.sound fun _ same => nomatch same

theorem Effect.erase_step (ok : Dispatched c) (p : Tm → Bool) :
    Dispatched { c with
      timers := c.timers.filter fun t => !p t
      taken := []
      history := (c.timers.filter p).map (fun t => Event.removed t.id) ++ c.history } := by
  have listed {t : Tm} (member : t ∈ c.timers.filter fun t => !p t) : t ∈ c.timers :=
    (List.mem_filter.1 member).1
  have kept {t : Tm} (member : t ∈ c.timers.filter fun t => !p t) :
      newest t.id ((c.timers.filter p).map (fun t => Event.removed t.id) ++ c.history) =
        newest t.id c.history := by
    refine newest_removed (fun u removed same => ?_) _
    obtain ⟨listed', passes⟩ := List.mem_filter.1 removed
    rw [ok.unique listed' (listed member) same] at passes
    simp [passes] at member
  have fewer : (c.waiting ++ c.frames ++ [] ++ c.inside).Sublist c.copies :=
    (List.Sublist.append_left (List.nil_sublist c.taken) _).append_right _
  obtain ⟨old, once, agree⟩ := ok.copies_of_subperm fewer.subperm
  have frames {q : Tm} (copy : q ∈ c.frames ++ []) : q ∈ c.frames ++ c.taken := by
    rw [List.append_nil] at copy
    exact List.mem_append_left _ copy
  refine ⟨ok.ids.sublist (List.filter_sublist.map Tm.id),
    fun t member => ok.known t (listed member),
    old, once, fun q copy t member => ok.waits q copy t (listed member), ?_, ?_, ?_,
    fun q copy t member => agree q copy t (listed member), ?_⟩
  · intro q copy t member
    refine ok.marked q ?_ t (listed member)
    rcases List.mem_append.1 copy with early | isInside
    · exact List.mem_append_left _ (frames early)
    · exact List.mem_append_right _ isInside
  · exact fun t member waits => (kept member).trans (ok.armed t (listed member) waits)
  · exact fun q copy t member same =>
      (kept member).trans (ok.ready q (frames copy) t (listed member) same)
  · exact sound_removed ok.sound _

/-- **A step keeps one copy of each timer.** -/
theorem Dispatched.step (ok : Dispatched c) (effect : Effect c c') : Dispatched c' := by
  cases effect with
  | drop fewerWaiting fewerFrames fewerTaken fewerInside =>
      exact Effect.drop_step ok fewerWaiting fewerFrames fewerTaken fewerInside
  | change keeps => exact Effect.change_step ok keeps
  | push listed waits new perm => exact Effect.push_step ok listed waits new perm
  | handOver first perm => exact Effect.handOver_step ok first perm
  | take first none => exact Effect.take_step ok first none
  | call taken kind => exact Effect.call_step ok taken kind
  | arm keeps armed one => exact Effect.arm_step ok keeps armed one
  | add next perm => exact Effect.add_step ok next perm
  | erase p => exact Effect.erase_step ok p

theorem Dispatched.steps (ok : Dispatched c) (effects : Effects c c') : Dispatched c' := by
  cases effects with
  | none => exact ok
  | one effect => exact ok.step effect
  | two first same fewer second => exact (ok.step first).step second

/-- Every copy was there, or has been pushed. -/
theorem Effect.copies (effect : Effect c c') {q : Tm} (copy : q ∈ c'.copies) :
    q ∈ c.copies ∨ q ∈ c.timers ∧ q.executed = false := by
  simp only [Core.copies, List.append_assoc, List.mem_append] at copy ⊢
  cases effect with
  | drop fewerWaiting fewerFrames fewerTaken fewerInside =>
      exact .inl (copy.imp fewerWaiting.mem (.imp fewerFrames.mem (.imp fewerTaken.mem
        fewerInside.mem)))
  | change keeps | add next perm => exact .inl copy
  | push listed waits new perm =>
      rcases copy with copy | copy
      · rcases List.mem_cons.1 (perm.mem_iff.1 copy) with rfl | old
        · exact .inr ⟨listed, waits⟩
        · exact .inl (.inl old)
      · exact .inl (.inr copy)
  | handOver first perm =>
      rw [first, List.mem_cons]
      rw [perm.mem_iff, List.mem_cons] at copy
      rcases copy with copy | (copy | copy) | copy
      · exact .inl (.inl (.inr copy))
      · exact .inl (.inl (.inl copy))
      · exact .inl (.inr (.inl copy))
      · exact .inl (.inr (.inr copy))
  | take first none =>
      rw [first, List.mem_cons]
      rcases copy with copy | copy | copy | copy
      · exact .inl (.inl copy)
      · exact .inl (.inr (.inl (.inr copy)))
      · exact .inl (.inr (.inl (.inl (List.mem_singleton.1 copy))))
      · exact .inl (.inr (.inr (.inr copy)))
  | call taken kind =>
      rw [taken, List.mem_singleton]
      rcases copy with copy | copy | copy | copy
      · exact .inl (.inl copy)
      · exact .inl (.inr (.inl copy))
      · cases copy
      · rcases List.mem_cons.1 copy with rfl | old
        · exact .inl (.inr (.inr (.inl rfl)))
        · exact .inl (.inr (.inr (.inr old)))
  | @arm t inside f keeps armed one =>
      refine .inl (copy.imp_right (.imp_right fun later => ?_))
      rw [← List.mem_append, ← one, List.mem_cons]
      exact .inr (later.resolve_left fun member => nomatch member)
  | erase p =>
      exact .inl (copy.imp_right (.imp_right fun later =>
        .inr (later.resolve_left fun member => nomatch member)))

theorem Effects.copies (effects : Effects c c') {q : Tm} (copy : q ∈ c'.copies) :
    q ∈ c.copies ∨ q ∈ c.timers ∧ q.executed = false := by
  cases effects with
  | none => exact .inl copy
  | one effect => exact effect.copies copy
  | two first same fewer second =>
      rcases second.copies copy with old | pushed
      · exact .inl (fewer old)
      · exact .inr (same ▸ pushed)

/-! ## The worker's walk -/

/-- What the worker relies on between its steps. -/
structure Walked (s : State) : Prop where
  first : ∀ t, s.worker.entry = some t ∨ s.worker.handed = some t →
    s.queue.head? = some t ∨ s.queue = []
  cleared : s.worker = .enter → s.queue = []
  nodup : s.worker.toScan.Nodup
  fresh : ∀ id ∈ s.worker.toScan, ∀ q ∈ s.queue, q.id ≠ id
  pushes : ∀ id rest, s.worker = .push id rest → ∀ t ∈ s.timers, t.id = id → t.executed = false

variable {s s' : State} {a : Action}

/-- The worker is neither at an entry of the queue nor in a walk. -/
theorem walked_of_outside (entry : s.worker.entry = none) (handed : s.worker.handed = none)
    (scan : s.worker.toScan = []) (cleared : s.worker = .enter → s.queue = []) : Walked s := by
  refine ⟨fun t isFirst => ?_, cleared, by simp [scan], by simp [scan], fun id rest pc => ?_⟩
  · rw [entry, handed] at isFirst
    rcases isFirst with isEntry | isHanded
    · cases isEntry
    · cases isHanded
  · rw [pc] at scan
    cases scan

/-- The worker is at an entry that it has been at, or has handed it over. -/
theorem Walked.at_entry (walked : Walked s) {t : Tm} (entry : s.worker.entry = some t)
    (queue : s'.queue = s.queue)
    (next : ∀ u, s'.worker.entry = some u ∨ s'.worker.handed = some u → u = t)
    (outside : s'.worker.toScan = [] ∧ s'.worker ≠ .enter) : Walked s' := by
  refine ⟨fun u isFirst => ?_, fun pc => absurd pc outside.2, by simp [outside.1],
    by simp [outside.1], fun id rest pc => ?_⟩
  · rw [next u isFirst, queue]
    exact walked.first t (.inl entry)
  · rw [pc] at outside
    cases outside.1

/-- The game thread has moved, and left the queue and what the worker is to push. -/
theorem Walked.of_game (walked : Walked s) (worker : s'.worker = s.worker)
    (queue : s'.queue = s.queue ∨ s'.queue = [])
    (timers : s.worker.holds .timer = true → ∀ t ∈ s'.timers, ∃ u ∈ s.timers, u.id = t.id ∧
      (u.executed = false → t.executed = false)) : Walked s' := by
  have sub {q : Tm} (member : q ∈ s'.queue) : q ∈ s.queue := by
    rcases queue with same | empty
    · exact same ▸ member
    · rw [empty] at member
      cases member
  refine ⟨fun t entry => ?_, fun pc => ?_, worker ▸ walked.nodup, ?_, fun id rest pc => ?_⟩
  · rcases queue with same | empty
    · exact same ▸ walked.first t (worker ▸ entry)
    · exact .inr empty
  · rcases queue with same | empty
    · exact same.trans (walked.cleared (worker.symm.trans pc))
    · exact empty
  · exact fun id listed q member => walked.fresh id (worker ▸ listed) q (sub member)
  · intro t listed same
    have pc := worker.symm.trans pc
    obtain ⟨u, listed', isId, waits⟩ := timers (by rw [pc]; rfl) t listed
    exact waits (walked.pushes id rest pc u listed' (isId.trans same))

/-- The timers after `finish` are the timers before, some of them armed. -/
theorem mem_finish {t : Tm} {ret now : Int} {u : Tm} (listed : u ∈ (s.finished t ret now).timers) :
    ∃ v ∈ s.timers, v.id = u.id ∧ (v.executed = false → u.executed = false) := by
  unfold State.finished at listed
  split at listed
  · obtain ⟨v, member, ⟨-, rfl⟩ | ⟨-, rfl⟩⟩ := mem_writeTo listed
    · exact ⟨v, member, rfl, fun _ => rfl⟩
    · exact ⟨u, member, rfl, id⟩
  · exact ⟨u, listed, rfl, id⟩

theorem finish_worker (t : Tm) (ret now : Int) :
    (s.finished t ret now).worker = s.worker ∧ (s.finished t ret now).queue = s.queue := by
  unfold State.finished
  split <;> exact ⟨rfl, rfl⟩

theorem Walked.step (ids : (s.timers.map Tm.id).Nodup) (walked : Walked s) (move : Move s a s') :
    Walked s' := by
  have kept (t : Tm) (listed : t ∈ s.timers) :
      ∃ u ∈ s.timers, u.id = t.id ∧ (u.executed = false → t.executed = false) :=
    ⟨t, listed, rfl, id⟩
  have outside {pc : WorkerPc} {queue : List Tm} (neither : pc.entry = none ∧ pc.handed = none)
      (t : Tm) (isFirst : pc.entry = some t ∨ pc.handed = some t) :
      queue.head? = some t ∨ queue = [] := by
    rw [neither.1, neither.2] at isFirst
    rcases isFirst with isEntry | isHanded
    · cases isEntry
    · cases isHanded
  have one {pc : WorkerPc} {t : Tm} (at_ : pc.entry = some t ∨ pc.handed = some t) (u : Tm)
      (isFirst : pc.entry = some u ∨ pc.handed = some u) : u = t := by
    cases pc <;> simp_all [WorkerPc.entry, WorkerPc.handed]
  cases move with
  | stay => exact walked
  | clear pc free => exact walked_of_outside rfl rfl rfl fun _ => rfl
  | enter pc free runs =>
      refine ⟨outside ⟨rfl, rfl⟩, fun pc => (nomatch pc), ids, fun id _ q member => ?_,
        fun _ _ pc => (nomatch pc)⟩
      simp only [walked.cleared pc] at member
      cases member
  | @finds _ _ id rest pc pushes =>
      have scan : s.worker.toScan = id :: rest := by rw [pc]; rfl
      have nodup := walked.nodup
      rw [scan] at nodup
      refine ⟨outside ⟨rfl, rfl⟩, fun pc => (nomatch pc), nodup,
        fun id' member => walked.fresh id' (scan ▸ member), fun id' rest' here t listed same => ?_⟩
      cases here
      obtain ⟨u, listed', isId, waits⟩ := pushes_iff.1 pushes
      exact List.inj_on_of_nodup_map ids listed' listed (isId.trans same.symm) ▸ waits
  | @skips _ _ id rest pc skipped =>
      have scan : s.worker.toScan = id :: rest := by rw [pc]; rfl
      have nodup := walked.nodup
      rw [scan] at nodup
      exact ⟨outside ⟨rfl, rfl⟩, fun pc => (nomatch pc), (List.nodup_cons.1 nodup).2,
        fun id' member => walked.fresh id' (scan ▸ List.mem_cons_of_mem _ member),
        fun _ _ pc => (nomatch pc)⟩
  | @push order _ id rest t pc free listed same pushed =>
      have scan : s.worker.toScan = id :: rest := by rw [pc]; rfl
      have nodup := walked.nodup
      rw [scan] at nodup
      refine ⟨outside ⟨rfl, rfl⟩, fun pc => (nomatch pc), (List.nodup_cons.1 nodup).2,
        fun id' member q inQueue isId => ?_, fun _ _ pc => (nomatch pc)⟩
      rcases List.mem_cons.1 (pushed.1.mem_iff.1 inQueue) with rfl | older
      · exact (List.nodup_cons.1 nodup).1 (same ▸ isId ▸ member)
      · exact walked.fresh id' (scan ▸ List.mem_cons_of_mem _ member) q older isId
  | top pc first =>
      refine ⟨fun t entry => ?_, fun pc => (nomatch pc), List.nodup_nil,
        fun _ member => (nomatch member), fun _ _ pc => (nomatch pc)⟩
      rcases entry with entry | handed
      · cases entry
        exact .inl first
      · cases handed
  | compare pc next =>
      rcases next with rfl | rfl <;>
        exact walked.at_entry (by rw [pc]; rfl) rfl
          (one (by simp [WorkerPc.entry, WorkerPc.handed]))
        ⟨rfl, by simp⟩
  | wait pc | check pc | checkLoop pc | lockFrame pc | found pc | gone pc | mark pc =>
      exact walked.at_entry (by rw [pc]; rfl) rfl (one (by simp [WorkerPc.entry, WorkerPc.handed]))
        ⟨rfl, by simp⟩
  | recheck pc next | recheckLoop pc next =>
      rcases next with rfl | rfl <;> exact walked_of_outside rfl rfl rfl fun same => nomatch same
  | addTimer idle free => exact walked.of_game rfl (.inl rfl) fun holds => by simp [free] at holds
  | erase idle erases free after | remove pc free =>
      exact walked.of_game rfl (.inl rfl) fun holds => by simp [free] at holds
  | stopTimer pc free => exact walked.of_game rfl (.inl rfl) fun holds => by simp [free] at holds
  | stopQueue => exact walked.of_game rfl (.inr rfl) fun _ => kept
  | change =>
      refine walked.of_game rfl (.inl rfl) fun _ t member => ?_
      obtain ⟨u, listed, ⟨-, rfl⟩ | ⟨-, rfl⟩⟩ := mem_writeTo member
      · exact ⟨u, listed, rfl, id⟩
      · exact kept t listed
  | @returns ret now t rest idle running =>
      obtain ⟨worker, queue⟩ := finish_worker (s := { s with inside := rest }) t ret now
      refine walked.of_game worker (.inl queue) fun _ u member => ?_
      exact mem_finish (s := { s with inside := rest }) member
  | @fail now t tm pc listed same =>
      let mid : State := { s with game := .idle, history := .missed t :: s.history }
      obtain ⟨worker, queue⟩ := finish_worker (s := mid) t 0 now
      exact walked.of_game worker (.inl queue) fun _ u member => mem_finish (s := mid) member
  | changeTimerById | stopAll | startFrame | signal | stopFrame | restart | drop | execute =>
      exact walked.of_game rfl (.inl rfl) fun _ => kept
  | _ => exact walked_of_outside rfl rfl rfl fun same => nomatch same

/-! ## What a step does to the copies -/

theorem waiting_of_entry {t : Tm} (entry : s.worker.entry = some t) :
    s.waiting = t :: s.queue.tail := by
  simp [State.waiting, entry]

theorem waiting_of_pop {t : Tm} (pc : s.worker = .pop t) : s.waiting = s.queue.tail := by
  simp [State.waiting, pc, WorkerPc.entry, WorkerPc.handed]

theorem waiting_of_outside (entry : s.worker.entry = none) (handed : s.worker.handed = none) :
    s.waiting = s.queue := by
  simp [State.waiting, entry, handed]

/-- The worker and the queue after a step determine what is waiting. -/
theorem waiting_congr (worker : s'.worker = s.worker) (queue : s'.queue = s.queue) :
    s'.waiting = s.waiting := by
  simp [State.waiting, worker, queue]

theorem waiting_emptied (worker : s'.worker = s.worker) (empty : s'.queue = []) :
    s'.waiting.Sublist s.waiting := by
  simp only [State.waiting, worker, empty]
  split
  · exact (List.nil_sublist _).cons_cons _
  · split
    · exact List.nil_sublist _
    · exact List.nil_sublist _

/-- A step that at most leaves copies out. -/
theorem effect_fewer (timers : s'.timers = s.timers) (nums : s'.nums = s.nums)
    (history : s'.history = s.history) (waiting : s'.waiting.Sublist s.waiting)
    (frames : s'.frames.Sublist s.frames) (taken : s'.game.taken.Sublist s.game.taken)
    (inside : s'.inside.Sublist s.inside) : Effect s.core s'.core := by
  have core : s'.core = { s.core with
      waiting := s'.waiting
      frames := s'.frames
      taken := s'.game.taken
      inside := s'.inside } := by
    simp [State.core, timers, nums, history]
  rw [core]
  exact .drop waiting frames taken inside

theorem effect_finish {t : Tm} {ret now : Int} {inside : List Tm}
    (one : t :: inside = s.game.taken ++ s.inside) (fewer : inside.Sublist s.inside) :
    Effect s.core (({ s with inside := inside } : State).finished t ret now).core := by
  unfold State.finished
  split
  · exact .arm (fun _ => ⟨rfl, rfl, rfl, rfl⟩) (fun _ => rfl) one
  · exact effect_fewer rfl rfl rfl (List.Sublist.refl _) (List.Sublist.refl _)
      (List.nil_sublist _) fewer

theorem insert_perm (t : Tm) (p : Tm → Bool) (timers : List Tm) :
    (timers.takeWhile p ++ t :: timers.dropWhile p).Perm (t :: timers) := by
  refine List.perm_middle.trans ?_
  rw [List.takeWhile_append_dropWhile]

theorem effect_insert (idle : s.game = .idle) {t : Tm} (next : t.id = s.nums + 1) :
    Effect s.core (s.insert t).core := by
  have core : (s.insert t).core = { s.core with
      timers := (s.insert t).timers
      nums := t.id
      history := .armed t.id :: s.history } := by
    simp [State.core, State.insert, idle, GamePc.taken, State.waiting]
  rw [core]
  exact .add next (insert_perm _ _ _)

/-- **What a step does to the copies.** -/
theorem effects_of_move (walked : Walked s) (move : Move s a s') : Effects s.core s'.core := by
  have refl {α : Type} (l : List α) : l.Sublist l := .refl l
  -- The worker has moved, and handed nothing over.
  have work {queue : List Tm} {worker : WorkerPc} {stopLoop stopTimer : Bool}
      (fewer : ({ s with queue, worker, stopLoop, stopTimer } : State).waiting.Sublist s.waiting) :
      Effects s.core ({ s with queue, worker, stopLoop, stopTimer } : State).core :=
    .one (effect_fewer rfl rfl rfl fewer (refl _) (refl _) (refl _))
  have same : s.waiting.Sublist s.waiting := refl _
  cases move with
  | stay => exact .none
  | start pc | refused pc stopped | enter pc free runs | scanned pc | finds pc pushes
  | skips pc skipped | reset pc | wake pc | empty pc | more pc nonempty =>
      refine work ?_
      rw [waiting_of_outside (s := s) (by rw [pc]; rfl) (by rw [pc]; rfl)]
      exact refl _
  | clear pc free => exact work (List.nil_sublist _)
  | @push order now id rest t pc free listed same pushed =>
      have waits := walked.pushes id rest pc t listed same
      have waiting : s.waiting = s.queue := waiting_of_outside (by rw [pc]; rfl) (by rw [pc]; rfl)
      refine .one (@Effect.push _ t order listed waits (fun q member => ?_) ?_)
      · refine same ▸ walked.fresh id ?_ q (waiting ▸ member)
        rw [pc]
        exact List.mem_cons_self
      · rw [show s.core.waiting = s.queue from waiting]
        exact pushed.1
  | recheck pc next | recheckLoop pc next =>
      refine work ?_
      rw [waiting_of_outside (s := s) (by rw [pc]; rfl) (by rw [pc]; rfl)]
      rcases next with rfl | rfl <;> exact refl _
  | top pc first =>
      refine work ?_
      rw [waiting_of_outside (s := s) (by rw [pc]; rfl) (by rw [pc]; rfl), waiting_of_entry rfl]
      obtain ⟨rest, queue⟩ := List.head?_eq_some_iff.1 first
      simp [queue]
  | @compare _ _ t _ pc next =>
      refine work ?_
      rw [waiting_of_entry (s := s) (t := t) (by rw [pc]; rfl)]
      rcases next with rfl | rfl <;> exact refl _
  | @wait _ _ t pc | @check _ _ t pc | @checkLoop _ _ t pc | @lockFrame _ _ t pc
  | @found _ _ t pc =>
      refine work ?_
      rw [waiting_of_entry (s := s) (t := t) (by rw [pc]; rfl)]
      exact refl _
  | @breaks _ _ t pc =>
      have entry : s.worker.entry = some t := by
        rcases pc with ⟨pc, -⟩ | ⟨pc, -⟩ <;> rw [pc] <;> rfl
      refine work ?_
      rw [waiting_of_entry (s := s) entry, waiting_of_outside rfl rfl]
      rcases walked.first t (.inl entry) with first | empty
      · obtain ⟨rest, queue⟩ := List.head?_eq_some_iff.1 first
        simp [queue]
      · simp [empty]
  | @gone _ _ t pc none =>
      refine work ?_
      rw [waiting_of_entry (s := s) (t := t) (by rw [pc]; rfl), waiting_of_pop rfl]
      exact List.sublist_cons_self _ _
  | @mark order now t pc pushed =>
      exact .one (.handOver (waiting_of_entry (by rw [pc]; rfl)) pushed.1)
  | pop pc first =>
      refine work ?_
      rw [waiting_of_pop (s := s) pc, first]
      exact refl _
  | addTimer idle free => exact .one (effect_insert idle rfl)
  | erase idle erases free after => rcases after with rfl | rfl <;> exact .one (.erase _)
  | remove pc free => exact .one (.erase _)
  | changeTimerById idle | stopAll idle =>
      exact .one (effect_fewer rfl rfl rfl same (refl _) (List.nil_sublist _) (refl _))
  | startFrame idle first =>
      exact .one (.take first (by simp [State.core, idle, GamePc.taken]))
  | returns idle running =>
      exact .one (effect_finish (by simp [idle, GamePc.taken, running])
        (running ▸ List.sublist_cons_self _ _))
  | signal pc | stopFrame pc | restart pc | drop pc =>
      exact .one (effect_fewer rfl rfl rfl same (refl _) (List.nil_sublist _) (refl _))
  | @change _ _ id delaySec flags repeats pc =>
      have core : ({ s.written id (State.changed delaySec flags repeats) with
          game := .signal none } : State).core =
          { s.core with timers := writeTo id (State.changed delaySec flags repeats) s.timers } := by
        simp [State.core, pc, GamePc.taken, State.waiting, State.written, writeTo]
      rw [core]
      exact .one (.change fun t => ⟨⟨rfl, rfl, rfl, rfl⟩, rfl⟩)
  | stopQueue pc =>
      exact .one (effect_fewer rfl rfl rfl (waiting_emptied rfl rfl) (List.nil_sublist _)
        (List.nil_sublist _) (refl _))
  | stopTimer pc free => exact .one (.erase _)
  | execute pc listed same =>
      exact .one (.call (by simp [State.core, pc, GamePc.taken]) (.inl ⟨rfl, _, listed, same⟩))
  | @fail now t tm pc listed same =>
      -- As if a callback had begun, and ended with 0.
      let mid : State := { s with
        game := .idle
        inside := t :: s.inside
        history := .missed t :: s.history }
      have begins : Effect s.core mid.core :=
        .call (by simp [State.core, pc, GamePc.taken]) (.inr rfl)
      have fewer : mid.core.copies ⊆ s.core.copies := by
        intro q copy
        simp only [Core.copies, State.core, mid, pc, GamePc.taken, List.append_assoc,
          List.mem_append, List.mem_cons, List.not_mem_nil, false_or, or_false] at copy ⊢
        exact copy
      exact .two begins rfl fewer (effect_finish (s := mid) rfl (List.sublist_cons_self _ _))

/-! ## Every run -/

theorem dispatched_of_reachable (run : machine.Reachable s) : Dispatched s.core ∧ Walked s := by
  refine Machine.Reaches.invariant (I := fun s => Dispatched s.core ∧ Walked s) ?_
    (fun s a s' _ holds _ moved => ?_) run
  · rintro _ ⟨maxClients, rfl⟩
    refine ⟨?_, walked_of_outside rfl rfl rfl fun _ => rfl⟩
    constructor <;> simp [State.zero, State.core, State.waiting, WorkerPc.entry, Core.copies,
      GamePc.taken, WorkerPc.handed, Sound]
  · have move := move_of_step moved
    exact ⟨holds.1.steps (effects_of_move holds.2 move), holds.2.step holds.1.ids move⟩

/-- **Single dispatch.**  In every reachable state the ids in `m_frames` are distinct, those
that still name a timer name one that is marked executed, and whenever a callback was run its
timer had been armed and neither executed nor removed since. -/
theorem dispatched_once (s : State) (run : machine.Reachable s) :
    (s.frames.map Tm.id).Nodup ∧
      (∀ q ∈ s.frames, ∀ t ∈ s.timers, t.id = q.id → t.executed = true) ∧
      ∀ later before t, s.history = later ++ .executed t :: before →
        newest t.id before = some (.armed t.id) := by
  have ok := (dispatched_of_reachable run).1
  refine ⟨?_, fun q copy => ok.marked q (by simp [State.core, copy]),
    fun later before t split => ?_⟩
  · refine ok.once.sublist (List.Sublist.map Tm.id ?_)
    simp only [Core.copies, State.core, List.append_assoc]
    exact (List.sublist_append_left _ _).trans (List.sublist_append_right _ _)
  · have sound : Sound s.history := ok.sound
    rw [split] at sound
    clear split
    induction later with
    | nil => exact sound.1 t rfl
    | cons e rest ih => exact ih sound.2

/-- A timer is added, handed over and executed. -/
theorem dispatched_once_one : ∃ s : State,
    (∃ t, s.history = [.executed t, .armed 1] ∧ t.id = 1) ∧
      (s.frames.map Tm.id).Nodup ∧
        (∀ q ∈ s.frames, ∀ t ∈ s.timers, t.id = q.id → t.executed = true) ∧
        ∀ later before t, s.history = later ++ .executed t :: before →
          newest t.id before = some (.armed t.id) := by
  let t : Tm := ⟨1, 1, 7, 0, .fin false 1, 1000000000, 1, 0, false⟩
  have ends : (machine.exec (.zero 32)
      [.addTimer .zero 1 7 (.fin false 1) 0 1 0 0, .go true 0, .work [] 0, .work [] 0, .work [] 0,
        .work [] 0, .work [t] 0, .work [] 0, .work [] 0, .work [] 0, .work [] 0,
        .work [] 1000000000, .work [] 0, .work [] 0, .work [] 0, .work [] 0, .work [t] 0,
        .startFrame, .go true 0]).map
        (fun s => s.history == [.executed t, .armed 1]) = some true := by decide +kernel
  obtain ⟨s, run, holds⟩ := Machine.exists_reachable (M := machine) ⟨32, rfl⟩ ends
  exact ⟨s, ⟨t, beq_iff_eq.1 holds, rfl⟩, dispatched_once s run⟩

end Refsapi.Timers
