/-
# Mysql.SafePoll -- a timeout across interruptions

`safe_poll` calls `poll` again after each signal, with the time that is left of its
timeout.  It takes the time since the call from what was left at the signal before,
so that the time up to an earlier signal is taken again at each later one.

`spent` adds up what has been taken.  The main result is `honoured_iff`: the timeout
is honoured, up to a millisecond for each interruption, exactly when no sum of these
goes ahead of the clock by more than that (`OnTime`).
-/
import Mathlib.Algebra.BigOperators.Group.List.Basic
import Refsapi.Misc.Clock

namespace Refsapi.Mysql

set_option autoImplicit false

/-! ## The loop -/

/-- How a call of `poll` ends: with descriptors, when its time is over, with a signal after
which the clock is read, with a signal after which it cannot be read, or with an error. -/
inductive PollAnswer where
  | ready (more : Nat)
  | expired (time : Int)
  | interrupted (now : Timespec)
  | unread
  | failed

/-- `timeout_ms` after a signal. -/
def timeoutAfter (format : DoubleFormat) (start : Timespec) (timeout : Int) (now : Timespec) :
    Int :=
  if 0 < timeout then
    let elapsed := elapsedMs format start now
    if elapsed < timeout then (timeout - elapsed).bmod (2 ^ 32) else 0
  else timeout

/-- The loop of `safe_poll`, with what `poll` answers; without an answer it still waits. -/
def safePollLoop (format : DoubleFormat) (start : Timespec) : Int → List PollAnswer → Option Int
  | _, [] => none
  | _, .ready more :: _ => some (more + 1)
  | _, .expired _ :: _ => some 0
  | _, .failed :: _ => some (-1)
  | timeout, .unread :: rest =>
      if 0 < timeout then some (-1)
      else if timeout = 0 then some 0
      else safePollLoop format start timeout rest
  | timeout, .interrupted now :: rest =>
      if timeoutAfter format start timeout now = 0 then some 0
      else safePollLoop format start (timeoutAfter format start timeout now) rest

/-- `safe_poll`; `start` is what the clock shows at first, if it can be read. -/
def safePoll (format : DoubleFormat) (start : Option Timespec) (timeout : Int)
    (answers : List PollAnswer) : Option Int :=
  match start with
  | some start => safePollLoop format start timeout answers
  | none => if 0 < timeout then some (-1) else safePollLoop format ⟨0, 0⟩ timeout answers

/-! ## The claim on it -/

/-- The readings of the clock after signals. -/
def readings (answers : List PollAnswer) : List Timespec :=
  answers.filterMap fun
    | .interrupted now => some now
    | _ => none

/-- When `poll` has answered, as far as it is known. -/
def PollAnswer.time : PollAnswer → Int
  | .expired time => time
  | .interrupted now => now.ns
  | _ => 0

/-- The clock does not go back, and `poll` says that its time is over only when it is; without
a time it never does. -/
def Polled (format : DoubleFormat) (start : Timespec) : Int → Int → List PollAnswer → Prop
  | timeout, since, .expired time :: _ => 0 ≤ timeout ∧ since + timeout * 1000000 ≤ time
  | timeout, since, .unread :: rest => Polled format start timeout since rest
  | timeout, since, .interrupted now :: rest =>
      since ≤ now.ns ∧ Polled format start (timeoutAfter format start timeout now) now.ns rest
  | _, _, _ => True

/-- A call that is interrupted at some of these readings, one after the other, is not told that
its time is over too early: not more than a millisecond for each of them. -/
def Honoured (format : DoubleFormat) (start : Timespec) (timeout : Int) (known : List Timespec) :
    Prop :=
  ∀ before last, readings (before ++ [last]) <+: known →
    Polled format start timeout start.ns (before ++ [last]) →
    safePoll format (some start) timeout before = none →
    safePoll format (some start) timeout (before ++ [last]) = some 0 →
    0 ≤ timeout ∧ (0 < timeout →
      start.ns + (timeout - (readings (before ++ [last])).length) * 1000000 ≤ last.time)

/-- What the loop has taken from the timeout. -/
def spent (format : DoubleFormat) (start : Timespec) (known : List Timespec) : Int :=
  (known.map (elapsedMs format start)).sum

/-- At every interruption the time that has passed is that of the whole call, or what has been
taken is hardly more than that: up to a millisecond for each interruption. -/
def OnTime (format : DoubleFormat) (start : Timespec) (timeout : Int) (known : List Timespec) :
    Prop :=
  ∀ before now, before ++ [now] <+: known →
    timeout ≤ wholeMs start now + (before.length + 1) ∨
      spent format start (before ++ [now]) ≤ wholeMs start now + (before.length + 1)

variable {format : DoubleFormat} {start now : Timespec} {timeout since : Int}

/-! ## One interruption -/

/-- What one interruption leaves of a timeout: nothing, the rest of it, or -- where the
conversion to `int` has failed -- a timeout that never ends. -/
theorem timeoutAfter_cases (format : DoubleFormat) (forward : start.ns ≤ now.ns)
    (positive : 0 < timeout)
    (fits : timeout < 2 ^ 31) :
    timeoutAfter format start timeout now = 0 ∧ timeout ≤ elapsedMs format start now ∨
      0 < timeoutAfter format start timeout now ∧ 0 ≤ elapsedMs format start now ∧
        timeoutAfter format start timeout now = timeout - elapsedMs format start now ∨
      timeoutAfter format start timeout now < 0 ∧ 2 ^ 31 - 1 ≤ wholeMs start now := by
  unfold timeoutAfter
  rw [if_pos positive]
  simp only
  rcases elapsedMs_nonneg_or format forward with known | ⟨least, long⟩
  · by_cases less : elapsedMs format start now < timeout
    · rw [if_pos less]
      have exact_ : (timeout - elapsedMs format start now).bmod (2 ^ 32) =
          timeout - elapsedMs format start now := by
        rw [Int.bmod_def]
        split <;> omega
      rw [exact_]
      exact .inr (.inl ⟨by omega, known, rfl⟩)
    · rw [if_neg less]
      exact .inl ⟨rfl, by omega⟩
  · refine .inr (.inr ⟨?_, long⟩)
    rw [least, if_pos (by omega)]
    rw [Int.bmod_def]
    split <;> omega

theorem timeoutAfter_of_neg (negative : timeout < 0) :
    timeoutAfter format start timeout now = timeout :=
  if_neg (by omega)

/-- A call without a timeout is never told that its time is over. -/
theorem loop_ne_zero {answers : List PollAnswer} (negative : timeout < 0)
    (polled : Polled format start timeout since answers) :
    safePollLoop format start timeout answers ≠ some 0 := by
  induction answers generalizing since with
  | nil => simp [safePollLoop]
  | cons answer rest ih =>
      cases answer with
      | ready more =>
          simp only [safePollLoop, ne_eq, Option.some.injEq]
          omega
      | expired time =>
          simp only [Polled] at polled
          omega
      | interrupted now =>
          simp only [Polled, timeoutAfter_of_neg negative] at polled
          simp only [safePollLoop, timeoutAfter_of_neg negative]
          rw [if_neg (by omega)]
          exact ih polled.2
      | unread =>
          simp only [safePollLoop]
          rw [if_neg (by omega), if_neg (by omega)]
          exact ih polled
      | failed => simp [safePollLoop]

/-! ## From interruption to interruption -/

/-- The readings so far, what is left of the timeout, and when the clock was last read. -/
structure Left (format : DoubleFormat) (start : Timespec) (timeout left since : Int)
    (done : List Timespec) : Prop where
  positive : 0 < left
  rest : left = timeout - spent format start done
  fits : left < 2 ^ 31
  read : done = [] ∧ since = start.ns ∨
    ∃ before now, done = before ++ [now] ∧ since = now.ns
  forward : start.ns ≤ since

theorem spent_concat (done : List Timespec) :
    spent format start (done ++ [now]) = spent format start done + elapsedMs format start now := by
  simp [spent]

theorem Left.next {left : Int} {done : List Timespec}
    (before : Left format start timeout left since done) (forward : since ≤ now.ns) :
    timeoutAfter format start left now = 0 ∧ timeout ≤ spent format start (done ++ [now]) ∨
      Left format start timeout (timeoutAfter format start left now) now.ns (done ++ [now]) ∨
      timeoutAfter format start left now < 0 ∧ 2 ^ 31 - 1 ≤ wholeMs start now := by
  have later : start.ns ≤ now.ns := before.forward.trans forward
  have rest := before.rest
  rw [spent_concat]
  rcases timeoutAfter_cases format later before.positive before.fits with
    ⟨ended, long⟩ | ⟨positive, known, same⟩ | overflow
  · exact .inl ⟨ended, by omega⟩
  · have fits := before.fits
    refine .inr (.inl ⟨positive, ?_, by omega, .inr ⟨done, now, rfl, rfl⟩, later⟩)
    rw [spent_concat]
    omega
  · exact .inr (.inr overflow)

/-- Milliseconds that have passed, in nanoseconds. -/
theorem wholeMs_le (start now : Timespec) : wholeMs start now * 1000000 ≤ now.ns - start.ns := by
  unfold wholeMs
  omega

/-- Where no sum goes ahead of the clock, the rest of a call is not over too early. -/
theorem Left.honoured {known : List Timespec} (onTime : OnTime format start timeout known)
    {before : List PollAnswer} {last : PollAnswer} {left : Int} {done : List Timespec}
    (isLeft : Left format start timeout left since done)
    (inside : done ++ readings (before ++ [last]) <+: known)
    (polled : Polled format start left since (before ++ [last]))
    (waits : safePollLoop format start left before = none)
    (ended : safePollLoop format start left (before ++ [last]) = some 0) :
    start.ns + (timeout - (done ++ readings (before ++ [last])).length) * 1000000 ≤ last.time := by
  induction before generalizing left since done with
  | nil =>
      have positive := isLeft.positive
      cases last with
      | ready more =>
          simp only [List.nil_append, safePollLoop, Option.some.injEq] at ended
          omega
      | failed => simp [safePollLoop] at ended
      | unread => simp [safePollLoop, positive] at ended
      | expired time =>
          simp only [List.nil_append, Polled] at polled
          simp only [List.nil_append, readings, List.filterMap_cons, List.filterMap_nil,
            List.append_nil, PollAnswer.time] at inside ⊢
          have rest := isLeft.rest
          rcases isLeft.read with ⟨rfl, rfl⟩ | ⟨before, now, rfl, rfl⟩
          · simp [spent] at rest
            simp only [List.length_nil]
            omega
          · have passed := wholeMs_le start now
            simp only [List.length_append, List.length_singleton]
            push_cast
            rcases onTime before now inside with whole | hardly <;> omega
      | interrupted now =>
          simp only [List.nil_append, Polled] at polled
          simp only [List.nil_append, readings, List.filterMap_cons, List.filterMap_nil,
            PollAnswer.time] at inside ⊢
          have passed := wholeMs_le start now
          simp only [List.nil_append, safePollLoop] at ended
          split at ended
          · next zero =>
              simp only [List.length_append, List.length_singleton]
              push_cast
              rcases isLeft.next polled.1 with ⟨-, long⟩ | more | ⟨negative, -⟩
              · rcases onTime done now inside with whole | hardly <;> omega
              · have := more.positive
                omega
              · omega
          · cases ended
  | cons answer before ih =>
      have positive := isLeft.positive
      cases answer with
      | ready more => simp [safePollLoop] at waits
      | failed => simp [safePollLoop] at waits
      | expired time => simp [safePollLoop] at waits
      | unread => simp [safePollLoop, positive] at waits
      | interrupted now =>
          simp only [List.cons_append, Polled] at polled
          simp only [List.cons_append, safePollLoop] at waits ended
          rcases isLeft.next polled.1 with ⟨zero, -⟩ | more | ⟨negative, -⟩
          · simp [zero] at waits
          · have nonzero := more.positive.ne'
            rw [if_neg nonzero] at waits ended
            have split : readings (.interrupted now :: (before ++ [last])) =
                now :: readings (before ++ [last]) := rfl
            rw [List.cons_append, split, List.append_cons] at inside ⊢
            exact ih more inside polled.2 waits ended
          · rw [if_neg (by omega)] at ended
            exact absurd ended (loop_ne_zero negative polled.2)

/-- Signals at these readings, one after the other. -/
def signals (known : List Timespec) : List PollAnswer := known.map .interrupted

theorem readings_signals (known : List Timespec) : readings (signals known) = known := by
  induction known with
  | nil => rfl
  | cons now rest ih => exact congrArg (now :: ·) ih

theorem readings_append (answers more : List PollAnswer) :
    readings (answers ++ more) = readings answers ++ readings more :=
  List.filterMap_append

/-- What signals do to a call: one of them ends it, or they leave it a rest, or one of them
comes so late that no `int` holds the time. -/
inductive Walk (format : DoubleFormat) (start : Timespec) (timeout left since : Int)
    (done known : List Timespec) : Prop where
  | ends (before : List Timespec) (now : Timespec) : before ++ [now] <+: known →
      safePollLoop format start left (signals before) = none →
      safePollLoop format start left (signals before ++ [.interrupted now]) = some 0 →
      Polled format start left since (signals before ++ [.interrupted now]) →
      Walk format start timeout left since done known
  | rests (left' since' : Int) : Left format start timeout left' since' (done ++ known) →
      (∀ rest, safePollLoop format start left (signals known ++ rest) =
        safePollLoop format start left' rest) →
      (∀ rest, Polled format start left' since' rest →
        Polled format start left since (signals known ++ rest)) →
      Walk format start timeout left since done known
  | long (now : Timespec) : now ∈ known → 2 ^ 31 - 1 ≤ wholeMs start now →
      Walk format start timeout left since done known

theorem Left.walk {left : Int} {done known : List Timespec}
    (isLeft : Left format start timeout left since done)
    (sorted : known.Pairwise fun a b => a.ns ≤ b.ns) (forward : ∀ now ∈ known, since ≤ now.ns) :
    Walk format start timeout left since done known := by
  induction known generalizing left since done with
  | nil => exact .rests left since (by simpa using isLeft) (fun _ => rfl) fun _ polled => polled
  | cons now known ih =>
      obtain ⟨first, sorted⟩ := List.pairwise_cons.1 sorted
      have nowForward := forward now List.mem_cons_self
      rcases isLeft.next nowForward with ⟨zero, -⟩ | more | ⟨-, overflow⟩
      · exact .ends [] now (by simp) rfl (by simp [signals, safePollLoop, zero])
          ⟨nowForward, trivial⟩
      · have nonzero := more.positive.ne'
        have step (rest : List PollAnswer) :
            safePollLoop format start left (.interrupted now :: rest) =
            safePollLoop format start (timeoutAfter format start left now) rest := by
          rw [safePollLoop, if_neg nonzero]
        rcases ih more sorted first with ⟨before, late, inside, waits, ended, polled⟩ |
          ⟨left', since', isLeft', loop, polled⟩ | ⟨late, member, overflow⟩
        · refine .ends (now :: before) late (by simpa using inside) ?_ ?_ ⟨nowForward, polled⟩
          · exact (step _).trans waits
          · exact (step _).trans ended
        · refine .rests left' since' (by simpa using isLeft') (fun rest => ?_) fun rest ok => ?_
          · exact (step _).trans (loop rest)
          · exact ⟨nowForward, polled rest ok⟩
        · exact .long late (List.mem_cons_of_mem _ member) overflow
      · exact .long now List.mem_cons_self overflow

/-- **Exactly when the timeout is honoured across signals.**  For every timeout and every
sequence of readings that does not go back, the call is never told too early that its time is
over -- and never at all without a timeout -- if and only if, where it has one, no sum of what
the interruptions have taken goes ahead of the clock. -/
theorem honoured_iff (format : DoubleFormat) (timeout : BitVec 32) {start : Timespec}
    {known : List Timespec} (sorted : (start :: known).Pairwise fun a b => a.ns ≤ b.ns) :
    Honoured format start timeout.toInt known ↔
      (0 < timeout.toInt → OnTime format start timeout.toInt known) := by
  have fits : timeout.toInt < 2 ^ 31 := by
    have := BitVec.toInt_lt (x := timeout)
    omega
  obtain ⟨forward, sorted⟩ := List.pairwise_cons.1 sorted
  constructor
  · intro honoured positive before now inside
    have isLeft : Left format start timeout.toInt timeout.toInt start.ns [] :=
      ⟨positive, by simp [spent], fits, .inl ⟨rfl, rfl⟩, le_refl _⟩
    obtain ⟨later, split⟩ := inside
    have sortedHere : (before ++ [now]).Pairwise fun a b => a.ns ≤ b.ns := by
      rw [← split] at sorted
      exact (List.pairwise_append.1 sorted).1
    have forwardHere : ∀ reading ∈ before ++ [now], start.ns ≤ reading.ns := fun reading member =>
      forward reading (split ▸ List.mem_append_left later member)
    have last : ∀ reading ∈ before ++ [now], wholeMs start reading ≤ wholeMs start now := by
      intro reading member
      have le : reading.ns ≤ now.ns := by
        rcases List.mem_append.1 member with old | new
        · exact (List.pairwise_append.1 sortedHere).2.2 reading old now (by simp)
        · rw [List.mem_singleton.1 new]
      unfold wholeMs
      omega
    rcases isLeft.walk sortedHere forwardHere with ⟨before', late, inside', waits, ended, polled⟩ |
      ⟨left', since', isLeft', loop, polled⟩ | ⟨late, member, overflow⟩
    · have read : readings (signals before' ++ [.interrupted late]) = before' ++ [late] := by
        rw [readings_append, readings_signals]
        rfl
      have bound := (honoured (signals before') (.interrupted late)
        (by rw [read]; exact inside'.trans ⟨later, split⟩) polled waits ended).2 positive
      have few := inside'.length_le
      have lateLast := last late (inside'.subset (by simp))
      rw [read] at bound
      simp only [List.length_append, List.length_singleton, PollAnswer.time] at bound few
      refine .inl ?_
      unfold wholeMs at lateLast ⊢
      push_cast at bound
      omega
    · have sinceNow : since' = now.ns := by
        rcases isLeft'.read with ⟨none, -⟩ | ⟨before', now', same, isNow⟩
        · simp at none
        · obtain ⟨-, rfl⟩ := List.append_singleton_inj.1 (by simpa using same)
          exact isNow
      have read (time : Int) : readings (signals (before ++ [now]) ++ [.expired time]) =
          before ++ [now] := by
        rw [readings_append, readings_signals]
        simp [readings]
      have bound := (honoured (signals (before ++ [now]))
        (.expired (since' + left' * 1000000)) (by rw [read]; exact ⟨later, split⟩)
        (polled _ ⟨isLeft'.positive.le, le_refl _⟩)
        (by simpa [safePoll, safePollLoop] using loop [])
        (loop [.expired (since' + left' * 1000000)])).2 positive
      have rest := isLeft'.rest
      rw [read] at bound
      rw [List.nil_append] at rest
      simp only [List.length_append, List.length_singleton, PollAnswer.time] at bound
      refine .inr ?_
      unfold wholeMs
      push_cast at bound
      omega
    · have lateLast := last late member
      exact .inl (by omega)
  · intro onTime before last inside polled waits ended
    refine ⟨?_, fun positive => ?_⟩
    · by_contra negative
      exact loop_ne_zero (by omega) polled ended
    · have isLeft : Left format start timeout.toInt timeout.toInt start.ns [] :=
        ⟨positive, by simp [spent], fits, .inl ⟨rfl, rfl⟩, le_refl _⟩
      exact isLeft.honoured (onTime positive) inside polled waits ended

/-- One interruption is never too much. -/
theorem onTime_of_single (forward : start.ns ≤ now.ns) : OnTime format start timeout [now] := by
  intro before reading inside
  obtain ⟨rfl, rfl⟩ : before = [] ∧ reading = now := by
    have few := inside.length_le
    obtain rfl : before = [] := List.length_eq_zero_iff.1 (by simpa using few)
    exact ⟨rfl, by simpa using inside⟩
  refine .inr ?_
  simpa [spent] using elapsedMs_le format forward

theorem honoured_iff_single :
    ([⟨0, 0⟩, ⟨0, 40000000⟩] : List Timespec).Pairwise (fun a b => a.ns ≤ b.ns) ∧
      Honoured .x87 ⟨0, 0⟩ (100 : BitVec 32).toInt [⟨0, 40000000⟩] :=
  ⟨by decide, (honoured_iff .x87 100 (by decide)).2 fun _ => onTime_of_single (by decide)⟩

/-- A timeout of 100 ms is over at the second of two signals, 40 and 60 ms after the call. -/
theorem not_always_honoured : ¬ ∀ (format : DoubleFormat) (timeout : BitVec 32) (start : Timespec)
    (known : List Timespec), ((start :: known).Pairwise fun a b => a.ns ≤ b.ns) →
      Honoured format start timeout.toInt known := by
  intro always
  have honoured := always .x87 100 ⟨0, 0⟩ [⟨0, 40000000⟩, ⟨0, 60000000⟩] (by decide)
    [.interrupted ⟨0, 40000000⟩] (.interrupted ⟨0, 60000000⟩) (List.prefix_rfl)
    ⟨by decide, by decide, trivial⟩ (by decide +kernel) (by decide +kernel)
  exact absurd (honoured.2 (by decide)) (by decide)

end Refsapi.Mysql
