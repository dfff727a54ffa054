/-
# Revoice.Events -- subscribers that come and go while an event is sent

An `Event` keeps its callbacks in 64 slots, and `operator()` calls them by index with the
count of the moment, so a callback may subscribe and unsubscribe as it is called.  The
slots behave as a list (`live_subscribe`, `live_unsubscribe`), and so sending an event
ends after at most 64 calls, whatever they do.  A callback that takes itself away hides
the one behind it: `called` says which are reached, and `dispatch_reaches` that it is right.
-/
import Mathlib.Data.List.Basic
import Mathlib.Data.List.Nodup

namespace Refsapi.Revoice

set_option autoImplicit false

/-- A `callback_t`, by its address. -/
abbrev Callback : Type := Nat

/-- `MAX_CALLBACK_COUNT` -/
def maxCallbackCount : Nat := 64

/-- `Event`, which has all its slots and counts no more of them. -/
structure Event where
  callbacks : List Callback
  callbackCount : Nat
  slots : callbacks.length = maxCallbackCount
  bounded : callbackCount ≤ maxCallbackCount

/-- `memmove` of a number of cells from one index to another. -/
def memmove {α : Type} (cells : List α) (dst src n : Nat) : List α :=
  cells.take dst ++ ((cells.drop src).take n ++ cells.drop (dst + n))

namespace Event

def new : Event := ⟨List.replicate maxCallbackCount 0, 0, List.length_replicate, Nat.zero_le _⟩

/-- The slots that are in use. -/
def live (e : Event) : List Callback := e.callbacks.take e.callbackCount

theorem length_live (e : Event) : e.live.length = e.callbackCount := by
  rw [live, List.length_take, e.slots]
  exact Nat.min_eq_left e.bounded

/-- `operator+=` -/
def subscribe (callback : Callback) (e : Event) : Event :=
  if full : e.callbackCount = maxCallbackCount then e
  else
    { callbacks := e.callbacks.set e.callbackCount callback
      callbackCount := e.callbackCount + 1
      slots := by rw [List.length_set, e.slots]
      bounded := Nat.lt_of_le_of_ne e.bounded full }

/-- `operator-=` -/
def unsubscribe (callback : Callback) (e : Event) : Event :=
  let i := e.live.idxOf callback
  if found : i < e.callbackCount then
    { callbacks := memmove e.callbacks i (i + 1) (e.callbackCount - i - 1)
      callbackCount := e.callbackCount - 1
      slots := by
        have bounded := e.bounded
        have slots := e.slots
        simp only [memmove, List.length_append, List.length_take, List.length_drop, slots]
        omega
      bounded := Nat.le_trans (Nat.sub_le _ _) e.bounded }
  else e

/-- What a callback does to the event. -/
inductive Op where
  | subscribe (callback : Callback)
  | unsubscribe (callback : Callback)

def apply (e : Event) : Op → Event
  | .subscribe callback => e.subscribe callback
  | .unsubscribe callback => e.unsubscribe callback

def run (e : Event) (ops : List Op) : Event := ops.foldl apply e

/-- `operator()` from an index on: the calls that it makes, and what they leave. -/
def dispatch {σ : Type} (script : Callback → σ → List Op × σ) :
    Nat → Nat → Event → σ → Option (List Callback × Event × σ)
  | 0, i, e, s => if i < e.callbackCount then none else some ([], e, s)
  | fuel + 1, i, e, s =>
      match e.live[i]? with
      | none => some ([], e, s)
      | some callback =>
          let did := script callback s
          (dispatch script fuel (i + 1) (e.run did.1) did.2).map fun rest =>
            (callback :: rest.1, rest.2)

/-! ## The slots are a list -/

/-- A subscriber comes to the end, if there is a slot. -/
theorem live_subscribe (callback : Callback) (e : Event) :
    (e.subscribe callback).live =
      if e.live.length < maxCallbackCount then e.live ++ [callback] else e.live := by
  rw [length_live]
  unfold subscribe
  by_cases full : e.callbackCount = maxCallbackCount
  · rw [dif_pos full, if_neg (Nat.not_lt.2 (Nat.le_of_eq full.symm))]
  · have room : e.callbackCount < maxCallbackCount := Nat.lt_of_le_of_ne e.bounded full
    rw [dif_neg full, if_pos room]
    show (e.callbacks.set e.callbackCount callback).take (e.callbackCount + 1) = _
    have inside : e.callbackCount < (e.callbacks.set e.callbackCount callback).length := by
      rw [List.length_set, e.slots]
      exact room
    rw [List.take_add_one, List.take_set_of_le (Nat.le_refl _), List.getElem?_eq_getElem inside,
      List.getElem_set_self]
    rfl

/-- The first slot of a subscriber is closed. -/
theorem live_unsubscribe (callback : Callback) (e : Event) :
    (e.unsubscribe callback).live = e.live.erase callback := by
  unfold unsubscribe
  by_cases member : callback ∈ e.live
  · have found : e.live.idxOf callback < e.callbackCount := by
      rw [← length_live]
      exact List.idxOf_lt_length_of_mem member
    rw [dif_pos found, List.erase_eq_eraseIdx_of_idxOf rfl,
      List.eraseIdx_eq_take_drop_succ]
    show (memmove e.callbacks (e.live.idxOf callback) (e.live.idxOf callback + 1)
      (e.callbackCount - e.live.idxOf callback - 1)).take (e.callbackCount - 1) = _
    generalize e.live.idxOf callback = i at found
    have slots := e.slots
    have bounded := e.bounded
    have moved : (e.callbacks.take i ++
        (e.callbacks.drop (i + 1)).take (e.callbackCount - i - 1)).length =
          e.callbackCount - 1 := by
      simp only [List.length_append, List.length_take, List.length_drop, slots]
      omega
    rw [memmove, ← List.append_assoc, ← moved, List.take_left, live, List.take_take,
      Nat.min_eq_left (Nat.le_of_lt found), List.drop_take, Nat.sub_sub]
  · have missing : ¬ e.live.idxOf callback < e.callbackCount := by
      rw [List.idxOf_eq_length member, length_live]
      exact Nat.lt_irrefl _
    rw [dif_neg missing, List.erase_of_not_mem member]

/-- What an `Op` does to the list. -/
def Op.applyTo (live : List Callback) : Op → List Callback
  | .subscribe callback =>
      if live.length < maxCallbackCount then live ++ [callback] else live
  | .unsubscribe callback => live.erase callback

theorem live_run (ops : List Op) (e : Event) :
    (e.run ops).live = ops.foldl Op.applyTo e.live := by
  induction ops generalizing e with
  | nil => rfl
  | cons op rest ih =>
      rw [List.foldl_cons]
      show ((e.apply op).run rest).live = _
      rw [ih]
      cases op with
      | subscribe callback =>
          show rest.foldl Op.applyTo (e.subscribe callback).live = _
          rw [live_subscribe]
          rfl
      | unsubscribe callback =>
          show rest.foldl Op.applyTo (e.unsubscribe callback).live = _
          rw [live_unsubscribe]
          rfl

/-! ## Sending -/

section Dispatch

variable {σ : Type} {script : Callback → σ → List Op × σ}

theorem length_live_le (e : Event) : e.live.length ≤ maxCallbackCount := by
  rw [length_live]
  exact e.bounded

theorem dispatch_of_end {i : Nat} {e : Event} (ended : e.live.length ≤ i) (fuel : Nat) (s : σ) :
    dispatch script fuel i e s = some ([], e, s) := by
  cases fuel with
  | zero =>
      rw [dispatch, ← length_live, if_neg (Nat.not_lt.2 ended)]
  | succ fuel =>
      rw [dispatch, List.getElem?_eq_none ended]

theorem dispatch_succ {i : Nat} {e : Event} {callback : Callback}
    (calls : e.live[i]? = some callback) (fuel : Nat) (s : σ) :
    dispatch script (fuel + 1) i e s =
      (dispatch script fuel (i + 1) (e.run (script callback s).1) (script callback s).2).map
        fun rest => (callback :: rest.1, rest.2) := by
  rw [dispatch, calls]

/-- The slots bound the calls, whatever the callbacks do. -/
theorem dispatch_ends (fuel i : Nat) (enough : maxCallbackCount ≤ i + fuel) (e : Event) (s : σ) :
    ∃ calls e' s', dispatch script fuel i e s = some (calls, e', s') ∧ calls.length ≤ fuel := by
  induction fuel generalizing i e s with
  | zero =>
      have ended : e.live.length ≤ i := Nat.le_trans e.length_live_le enough
      exact ⟨[], e, s, dispatch_of_end ended 0 s, Nat.le_refl 0⟩
  | succ fuel ih =>
      by_cases inside : i < e.live.length
      · rw [dispatch_succ (List.getElem?_eq_getElem inside)]
        obtain ⟨calls, e', s', sent, le⟩ := ih (i + 1) (by omega)
          (e.run (script e.live[i] s).1) (script e.live[i] s).2
        rw [sent]
        exact ⟨_, e', s', rfl, Nat.succ_le_succ le⟩
      · exact ⟨[], e, s, dispatch_of_end (Nat.le_of_not_lt inside) _ s, Nat.zero_le _⟩

/-- Those that are called, where some take themselves away as they are called. -/
def called (once : Callback → Bool) : List Callback → List Callback
  | [] => []
  | [callback] => [callback]
  | callback :: next :: rest =>
      if once callback then callback :: called once rest
      else callback :: called once (next :: rest)

theorem called_sublist (once : Callback → Bool) (live : List Callback) :
    (called once live).Sublist live := by
  induction live using called.induct once with
  | case1 => exact List.Sublist.refl _
  | case2 callback => exact List.Sublist.refl _
  | case3 callback next rest takes ih =>
      rw [called, if_pos takes]
      exact (ih.cons next).cons_cons callback
  | case4 callback next rest stays ih =>
      rw [called, if_neg stays]
      exact ih.cons_cons callback

/-- Only what is behind a call that takes itself away is missed. -/
theorem eq_of_not_called (once : Callback → Bool) {live : List Callback} (nodup : live.Nodup)
    {missed : Callback} (member : missed ∈ live) (isMissed : missed ∉ called once live) :
    ∃ before callback after, live = before ++ callback :: missed :: after ∧
      once callback = true ∧ callback ∈ called once live := by
  induction live using called.induct once with
  | case1 => cases member
  | case2 callback => exact absurd member isMissed
  | case3 callback next rest takes ih =>
      rw [called, if_pos takes] at isMissed ⊢
      obtain ⟨ahead, isMissed⟩ := not_or.1 (fun h => isMissed (List.mem_cons.2 h))
      rcases List.mem_cons.1 member with same | member
      · exact absurd same ahead
      · rcases List.mem_cons.1 member with rfl | later
        · exact ⟨[], callback, rest, rfl, takes, List.mem_cons_self⟩
        · have apart := (List.nodup_cons.1 (List.nodup_cons.1 nodup).2).2
          obtain ⟨before, hider, after, rfl, isOnce, isCalled⟩ := ih apart later isMissed
          exact ⟨callback :: next :: before, hider, after, rfl, isOnce,
            List.mem_cons_of_mem _ isCalled⟩
  | case4 callback next rest stays ih =>
      rw [called, if_neg stays] at isMissed ⊢
      obtain ⟨ahead, isMissed⟩ := not_or.1 (fun h => isMissed (List.mem_cons.2 h))
      rcases List.mem_cons.1 member with same | later
      · exact absurd same ahead
      · have apart := (List.nodup_cons.1 nodup).2
        obtain ⟨before, hider, after, same, isOnce, isCalled⟩ := ih apart later isMissed
        exact ⟨callback :: before, hider, after, by rw [same]; rfl, isOnce,
          List.mem_cons_of_mem _ isCalled⟩

/-- The callbacks leave the event alone, but for those that take themselves away. -/
def SelfOnly (script : Callback → σ → List Op × σ) (once : Callback → Bool) : Prop :=
  ∀ callback s, (script callback s).1 = if once callback then [.unsubscribe callback] else []

/-- Those that are left when the calls have been made. -/
def left (once : Callback → Bool) (calls live : List Callback) : List Callback :=
  live.filter fun callback => !(once callback && decide (callback ∈ calls))

theorem left_cons_of_notMem {once : Callback → Bool} {callback : Callback} {live : List Callback}
    (apart : callback ∉ live) (calls : List Callback) :
    left once (callback :: calls) live = left once calls live := by
  refine List.filter_congr fun other member => ?_
  have unlike : other ≠ callback := by
    rintro rfl
    exact apart member
  simp [unlike]

theorem exists_call {callback : Callback} {kept rest : List Callback} {fuel : Nat} {e : Event}
    (isLive : e.live = kept ++ callback :: rest)
    (enough : maxCallbackCount ≤ kept.length + fuel) :
    e.live[kept.length]? = some callback ∧ ∃ less, fuel = less + 1 := by
  have bound := e.length_live_le
  rw [isLive, List.length_append, List.length_cons] at bound
  refine ⟨?_, fuel - 1, by omega⟩
  rw [isLive, List.getElem?_append_right (Nat.le_refl _), Nat.sub_self]
  rfl

/-- A call that takes itself away moves those behind it one slot forward. -/
theorem live_of_takes {once : Callback → Bool} (selfOnly : SelfOnly script once)
    {callback : Callback} {kept rest : List Callback} {e : Event}
    (isLive : e.live = kept ++ callback :: rest) (nodup : (kept ++ callback :: rest).Nodup)
    (takes : once callback = true) (s : σ) :
    (e.run (script callback s).1).live = kept ++ rest := by
  have fresh : callback ∉ kept := fun member =>
    List.disjoint_of_nodup_append nodup member List.mem_cons_self
  rw [selfOnly, if_pos takes]
  show (e.unsubscribe callback).live = _
  rw [live_unsubscribe, isLive, List.erase_append_right _ fresh, List.erase_cons_head]

theorem run_of_stays {once : Callback → Bool} (selfOnly : SelfOnly script once)
    {callback : Callback} (stays : ¬ once callback = true) (e : Event) (s : σ) :
    e.run (script callback s).1 = e := by
  rw [selfOnly, if_neg stays]
  rfl

/-- From an index on, those ahead of it stay and the others are called. -/
theorem dispatch_self {once : Callback → Bool} (selfOnly : SelfOnly script once) (fuel : Nat)
    (todo kept : List Callback) {e : Event} (isLive : e.live = kept ++ todo)
    (nodup : (kept ++ todo).Nodup) (enough : maxCallbackCount ≤ kept.length + fuel) (s : σ) :
    ∃ e' s', dispatch script fuel kept.length e s = some (called once todo, e', s') ∧
      e'.live = kept ++ left once (called once todo) todo := by
  induction todo using called.induct once generalizing fuel kept e s with
  | case1 =>
      have ended : e.live.length ≤ kept.length :=
        Nat.le_of_eq (by rw [isLive, List.append_nil])
      exact ⟨e, s, dispatch_of_end ended fuel s, isLive⟩
  | case2 callback =>
      obtain ⟨isAt, less, rfl⟩ := exists_call isLive enough
      rw [dispatch_succ isAt]
      by_cases takes : once callback = true
      · have after := live_of_takes selfOnly isLive nodup takes s
        have ended : (e.run (script callback s).1).live.length ≤ kept.length + 1 := by
          rw [after, List.append_nil]
          exact Nat.le_succ _
        rw [dispatch_of_end ended]
        exact ⟨_, _, rfl, by simpa [left, called, takes] using after⟩
      · rw [run_of_stays selfOnly takes]
        have ended : e.live.length ≤ kept.length + 1 := by
          rw [isLive, List.length_append]
          exact Nat.le_refl _
        rw [dispatch_of_end ended]
        exact ⟨_, _, rfl, by simpa [left, called, takes] using isLive⟩
  | case3 callback next rest takes ih =>
      obtain ⟨isAt, less, rfl⟩ := exists_call isLive enough
      have after := live_of_takes selfOnly isLive nodup takes s
      have behind : (callback :: next :: rest).Nodup := (List.nodup_append'.1 nodup).2.1
      obtain ⟨ahead, behind⟩ := List.nodup_cons.1 behind
      obtain ⟨missed, -⟩ := List.nodup_cons.1 behind
      rw [List.append_cons] at after
      have length : (kept ++ [next]).length = kept.length + 1 := List.length_append
      obtain ⟨e', s', sent, isLeft⟩ := ih less (kept ++ [next]) after
        (by
          rw [← List.append_cons]
          exact nodup.sublist ((List.sublist_cons_self _ _).append_left _))
        (by rw [length]; omega) (script callback s).2
      rw [dispatch_succ isAt, ← length, sent, called, if_pos takes]
      refine ⟨e', s', rfl, ?_⟩
      rw [isLeft, List.append_assoc]
      refine congrArg (kept ++ ·) ?_
      have notCalled : next ∉ callback :: called once rest := by
        intro member
        rcases List.mem_cons.1 member with rfl | later
        · exact ahead List.mem_cons_self
        · exact missed ((called_sublist once rest).subset later)
      have apart : callback ∉ rest := fun member => ahead (List.mem_cons_of_mem _ member)
      calc [next] ++ left once (called once rest) rest
          = next :: left once (callback :: called once rest) rest := by
            rw [left_cons_of_notMem apart]
            rfl
        _ = left once (callback :: called once rest) (callback :: next :: rest) := by
            rw [left, left, List.filter_cons_of_neg (by simp [takes]),
              List.filter_cons_of_pos (by simp [notCalled])]
  | case4 callback next rest stays ih =>
      obtain ⟨isAt, less, rfl⟩ := exists_call isLive enough
      have behind : (callback :: next :: rest).Nodup := (List.nodup_append'.1 nodup).2.1
      obtain ⟨ahead, -⟩ := List.nodup_cons.1 behind
      have length : (kept ++ [callback]).length = kept.length + 1 := List.length_append
      rw [List.append_cons] at isLive nodup
      obtain ⟨e', s', sent, isLeft⟩ := ih less (kept ++ [callback]) isLive nodup
        (by rw [length]; omega) (script callback s).2
      rw [dispatch_succ isAt, run_of_stays selfOnly stays, ← length, sent, called, if_neg stays]
      refine ⟨e', s', rfl, ?_⟩
      rw [isLeft, List.append_assoc]
      refine congrArg (kept ++ ·) ?_
      calc [callback] ++ left once (called once (next :: rest)) (next :: rest)
          = callback :: left once (callback :: called once (next :: rest)) (next :: rest) := by
            rw [left_cons_of_notMem ahead]
            rfl
        _ = left once (callback :: called once (next :: rest)) (callback :: next :: rest) :=
            (List.filter_cons_of_pos (by simp [stays])).symm

/-- The callbacks only subscribe others. -/
def AddsOnly (script : Callback → σ → List Op × σ) : Prop :=
  ∀ callback s, ∀ op ∈ (script callback s).1, ∃ other, op = .subscribe other

theorem prefix_run {ops : List Op} (adds : ∀ op ∈ ops, ∃ other, op = .subscribe other)
    (e : Event) : e.live <+: (e.run ops).live := by
  induction ops generalizing e with
  | nil => exact List.prefix_refl _
  | cons op rest ih =>
      obtain ⟨other, rfl⟩ := adds op List.mem_cons_self
      have later : ∀ op ∈ rest, ∃ other, op = .subscribe other := fun op member =>
        adds op (List.mem_cons_of_mem _ member)
      refine List.IsPrefix.trans ?_ (ih later (e.subscribe other))
      rw [live_subscribe]
      split
      · exact List.prefix_append _ _
      · exact List.prefix_refl _

/-- From an index on, all are called, those that came as well. -/
theorem dispatch_adds (addsOnly : AddsOnly script) (fuel i : Nat)
    (enough : maxCallbackCount ≤ i + fuel) (e : Event) (s : σ) :
    ∃ e' s', dispatch script fuel i e s = some (e'.live.drop i, e', s') ∧ e.live <+: e'.live := by
  induction fuel generalizing i e s with
  | zero =>
      have ended : e.live.length ≤ i := Nat.le_trans e.length_live_le enough
      refine ⟨e, s, ?_, List.prefix_refl _⟩
      rw [dispatch_of_end ended, List.drop_eq_nil_of_le ended]
  | succ fuel ih =>
      by_cases inside : i < e.live.length
      · have isAt := List.getElem?_eq_getElem inside
        have more := prefix_run (addsOnly e.live[i] s) e
        obtain ⟨e', s', sent, rest⟩ := ih (i + 1) (by omega)
          (e.run (script e.live[i] s).1) (script e.live[i] s).2
        have kept := more.trans rest
        have longer : i < e'.live.length := Nat.lt_of_lt_of_le inside kept.length_le
        refine ⟨e', s', ?_, kept⟩
        rw [dispatch_succ isAt, sent, List.drop_eq_getElem_cons longer, kept.getElem inside]
        rfl
      · have ended := Nat.le_of_not_lt inside
        refine ⟨e, s, ?_, List.prefix_refl _⟩
        rw [dispatch_of_end ended, List.drop_eq_nil_of_le ended]

end Dispatch

/-- **Who an event reaches.**  Sending an event ends after at most 64 calls, whatever the
callbacks subscribe and unsubscribe, and the slots are the list of the subscribers in the order
in which they came.  If callbacks only subscribe, all are called, those that came meanwhile as
well; if they only take themselves away, a subscriber is missed just where it is behind one
that did, and those who stay stay in their order. -/
theorem dispatch_reaches {σ : Type} (script : Callback → σ → List Op × σ) (e : Event) (s : σ) :
    (∃ calls e' s', dispatch script maxCallbackCount 0 e s = some (calls, e', s') ∧
        calls.length ≤ maxCallbackCount) ∧
      (∀ ops, (e.run ops).live = ops.foldl Op.applyTo e.live) ∧
      (AddsOnly script → ∃ e' s', dispatch script maxCallbackCount 0 e s = some (e'.live, e', s') ∧
        e.live <+: e'.live) ∧
      ∀ once, SelfOnly script once → e.live.Nodup →
        (∃ e' s', dispatch script maxCallbackCount 0 e s = some (called once e.live, e', s') ∧
          e'.live = left once (called once e.live) e.live) ∧
        ∀ missed ∈ e.live, missed ∉ called once e.live →
          ∃ before callback after, e.live = before ++ callback :: missed :: after ∧
            once callback = true ∧ callback ∈ called once e.live := by
  refine ⟨dispatch_ends maxCallbackCount 0 (Nat.le_of_eq (Nat.zero_add _).symm) e s,
    fun ops => live_run ops e, fun addsOnly => ?_,
    fun once selfOnly nodup => ⟨?_, fun missed member isMissed =>
      eq_of_not_called once nodup member isMissed⟩⟩
  · exact dispatch_adds addsOnly maxCallbackCount 0 (Nat.le_of_eq (Nat.zero_add _).symm) e s
  · exact dispatch_self selfOnly maxCallbackCount e.live [] rfl nodup
      (Nat.le_of_eq (Nat.zero_add _).symm) s

/-- The first of three subscribers takes itself away. -/
def fleeting (callback : Callback) (s : Unit) : List Op × Unit :=
  (if callback == 1 then [.unsubscribe callback] else [], s)

/-- The second one is missed, and stays. -/
theorem dispatch_reaches_fleeting : ∃ e' s', dispatch fleeting maxCallbackCount 0
    (new.run [.subscribe 1, .subscribe 2, .subscribe 3]) () = some ([1, 3], e', s') ∧
      e'.live = [2, 3] := by
  have isLive : (new.run [.subscribe 1, .subscribe 2, .subscribe 3]).live = [1, 2, 3] := by
    decide +kernel
  have selfOnly : SelfOnly fleeting fun callback => callback == 1 := by
    intro callback s
    rfl
  obtain ⟨e', s', sent, isLeft⟩ := ((dispatch_reaches fleeting
    (new.run [.subscribe 1, .subscribe 2, .subscribe 3]) ()).2.2.2 _ selfOnly
      (by rw [isLive]; decide)).1
  rw [isLive] at sent isLeft
  exact ⟨e', s', sent, isLeft⟩

end Event

end Refsapi.Revoice
