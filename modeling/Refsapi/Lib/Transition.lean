/-
# Lib.Transition -- runs of a machine, and what holds along them

A `Machine` has initial states and a partial step function on actions; an
action that is not enabled has no step.  Interleaving is expressed by the
actions: one that names a thread moves that thread by one step.

`Reaches allowed s` says that `s` ends a run every step of which is allowed, so
a theorem about all runs and a theorem about the runs that avoid some step are
both inductions over the same relation: `Reaches.invariant` is the rule, and
`Reaches.of_exec` and `Reaches.of_execIf` produce a run from a list of actions.
-/
import Mathlib.Data.List.Basic
import Mathlib.Logic.Relation

set_option autoImplicit false

structure Machine (σ α : Type) where
  init : σ → Prop
  step : σ → α → Option σ

namespace Machine

variable {σ α : Type} {M : Machine σ α} {allowed : σ → α → Prop}

/-- The state ends a run whose steps are all allowed. -/
inductive Reaches (M : Machine σ α) (allowed : σ → α → Prop) : σ → Prop where
  | init {s : σ} : M.init s → Reaches M allowed s
  | step {s s' : σ} {a : α} : Reaches M allowed s → allowed s a → M.step s a = some s' →
      Reaches M allowed s'

/-- The state ends a run. -/
def Reachable (M : Machine σ α) (s : σ) : Prop := M.Reaches (fun _ _ => True) s

theorem Reaches.reachable {s : σ} (run : M.Reaches allowed s) : M.Reachable s := by
  induction run with
  | init start => exact .init start
  | step _ _ moved ih => exact .step ih trivial moved

/-- **The invariant rule.**  What holds initially and is kept by every allowed
step out of a reached state holds in every state reached. -/
theorem Reaches.invariant {I : σ → Prop} (base : ∀ s, M.init s → I s)
    (keep : ∀ s a s', M.Reaches allowed s → I s → allowed s a → M.step s a = some s' → I s')
    {s : σ} (run : M.Reaches allowed s) : I s := by
  induction run with
  | init start => exact base _ start
  | step before ok moved ih => exact keep _ _ _ before ih ok moved

/-- Run a list of actions. -/
def exec (M : Machine σ α) : σ → List α → Option σ
  | s, [] => some s
  | s, a :: rest => (M.step s a).bind fun s' => M.exec s' rest

theorem exec_append (M : Machine σ α) (s : σ) (first second : List α) :
    M.exec s (first ++ second) = (M.exec s first).bind fun s' => M.exec s' second := by
  induction first generalizing s with
  | nil => rfl
  | cons a rest ih =>
      simp only [List.cons_append, exec, Option.bind_assoc, ih]

theorem Reaches.of_exec {actions : List α} {s s' : σ} (run : M.Reaches (fun _ _ => True) s)
    (ends : M.exec s actions = some s') : M.Reachable s' := by
  induction actions generalizing s with
  | nil =>
      simp only [exec, Option.some.injEq] at ends
      exact ends ▸ run
  | cons a rest ih =>
      simp only [exec, Option.bind_eq_some_iff] at ends
      obtain ⟨next, moved, ends⟩ := ends
      exact ih (.step run trivial moved) ends

/-- What a replayed run shows of its last state. -/
theorem exists_reachable {actions : List α} {s : σ} {p : σ → Bool} (start : M.init s)
    (ends : (M.exec s actions).map p = some true) : ∃ s', M.Reachable s' ∧ p s' = true := by
  obtain ⟨last, run, holds⟩ := Option.map_eq_some_iff.1 ends
  exact ⟨last, Reaches.of_exec (.init start) run, holds⟩

/-- Run a list of actions as long as each passes a check. -/
def execIf (M : Machine σ α) (ok : σ → α → Bool) : σ → List α → Option σ
  | s, [] => some s
  | s, a :: rest => if ok s a then (M.step s a).bind fun s' => M.execIf ok s' rest else none

/-- A run whose steps pass a check is a run whose steps are allowed. -/
theorem Reaches.of_execIf {ok : σ → α → Bool} (sound : ∀ s a, ok s a = true → allowed s a)
    {actions : List α} {s s' : σ} (run : M.Reaches allowed s)
    (ends : M.execIf ok s actions = some s') : M.Reaches allowed s' := by
  induction actions generalizing s with
  | nil =>
      simp only [execIf, Option.some.injEq] at ends
      exact ends ▸ run
  | cons a rest ih =>
      simp only [execIf] at ends
      split at ends
      · next passes =>
          obtain ⟨next, moved, ends⟩ := Option.bind_eq_some_iff.1 ends
          exact ih (.step run (sound s a passes) moved) ends
      · cases ends

/-- What a replayed and checked run shows of its last state. -/
theorem exists_reaches {ok : σ → α → Bool} (sound : ∀ s a, ok s a = true → allowed s a)
    {actions : List α} {s : σ} {p : σ → Bool} (start : M.init s)
    (ends : (M.execIf ok s actions).map p = some true) :
    ∃ s', M.Reaches allowed s' ∧ p s' = true := by
  obtain ⟨last, run, holds⟩ := Option.map_eq_some_iff.1 ends
  exact ⟨last, Reaches.of_execIf sound (.init start) run, holds⟩

/-! ## Runs from a state -/

/-- A run from one state to another whose steps are all allowed. -/
def Leads (M : Machine σ α) (allowed : σ → α → Prop) : σ → σ → Prop :=
  Relation.ReflTransGen fun s s' => ∃ a, allowed s a ∧ M.step s a = some s'

theorem Leads.reachable {s s' : σ} (more : M.Leads allowed s s') (run : M.Reachable s) :
    M.Reachable s' := by
  induction more with
  | refl => exact run
  | tail _ moved ih =>
      obtain ⟨a, -, moved⟩ := moved
      exact ih.step trivial moved

/-- **The invariant rule** for what follows a reached state. -/
theorem Leads.invariant {I : σ → Prop} {s s' : σ} (more : M.Leads allowed s s')
    (run : M.Reachable s) (base : I s)
    (keep : ∀ s a s', M.Reachable s → I s → allowed s a → M.step s a = some s' → I s') : I s' := by
  induction more with
  | refl => exact base
  | tail before moved ih =>
      obtain ⟨a, ok, moved⟩ := moved
      exact keep _ a _ (Leads.reachable before run) ih ok moved

theorem Leads.of_execIf {ok : σ → α → Bool} (sound : ∀ s a, ok s a = true → allowed s a)
    {actions : List α} {s s' : σ} (ends : M.execIf ok s actions = some s') :
    M.Leads allowed s s' := by
  induction actions generalizing s with
  | nil =>
      simp only [execIf, Option.some.injEq] at ends
      exact ends ▸ .refl
  | cons a rest ih =>
      simp only [execIf] at ends
      split at ends
      · next passes =>
          obtain ⟨next, moved, ends⟩ := Option.bind_eq_some_iff.1 ends
          exact .head ⟨a, sound s a passes, moved⟩ (ih ends)
      · cases ends

/-! ## History variables -/

variable {β : Type} {start : β} {record : β → σ → σ → β}

/-- The machine with a history variable: a value that no step reads, and that every step
brings up to date from the states before and after it. -/
def recorded (M : Machine σ α) (start : β) (record : β → σ → σ → β) : Machine (σ × β) α where
  init x := M.init x.1 ∧ x.2 = start
  step x a := (M.step x.1 a).map fun s' => (s', record x.2 x.1 s')

theorem recorded_step {x x' : σ × β} {a : α}
    (moved : (M.recorded start record).step x a = some x') :
    M.step x.1 a = some x'.1 ∧ x'.2 = record x.2 x.1 x'.1 := by
  obtain ⟨s', step, rfl⟩ := Option.map_eq_some_iff.1 moved
  exact ⟨step, rfl⟩

/-- A recorded run is a run. -/
theorem Reaches.of_recorded {x : σ × β}
    (run : (M.recorded start record).Reaches (fun x a => allowed x.1 a) x) :
    M.Reaches allowed x.1 := by
  induction run with
  | init start => exact .init start.1
  | step _ ok moved ih => exact .step ih ok (recorded_step moved).1

/-- Every run can be recorded. -/
theorem Reaches.recorded {s : σ} (run : M.Reaches allowed s) :
    ∃ b, (M.recorded start record).Reaches (fun x a => allowed x.1 a) (s, b) := by
  induction run with
  | init begin => exact ⟨start, .init ⟨begin, rfl⟩⟩
  | @step s s' a _ ok moved ih =>
      obtain ⟨b, run⟩ := ih
      exact ⟨record b s s', .step run ok (by simp [Machine.recorded, moved])⟩

end Machine
