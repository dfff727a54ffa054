/-
# Lib.Settling -- runs that come to an end

A machine has steps that bring in work and steps that only go on with it (`own`).  Where every
one of the latter takes something from a number (`work`), runs of them are not longer than the
number at their start (`Runs.length_le`), and from every state one leads to a state that has no
such step left (`exists_stuck`).  What is true of those states is what the machine settles to.
-/
import Mathlib.Algebra.BigOperators.Group.Finset.Basic
import Refsapi.Lib.Transition

set_option autoImplicit false

namespace Machine

variable {σ α : Type} {M : Machine σ α} {own : σ → α → Prop} {work : σ → Nat}

theorem Reaches.weaken {allowed allowed' : σ → α → Prop}
    (within : ∀ s a, allowed s a → allowed' s a) {s : σ} (run : M.Reaches allowed s) :
    M.Reaches allowed' s := by
  induction run with
  | init start => exact .init start
  | step _ ok moved ih => exact .step ih (within _ _ ok) moved

/-- The state has none of these steps. -/
def Stuck (M : Machine σ α) (own : σ → α → Prop) (s : σ) : Prop :=
  ∀ a, own s a → M.step s a = none

/-- A run of these steps, with its length. -/
inductive Runs (M : Machine σ α) (own : σ → α → Prop) : Nat → σ → σ → Prop where
  | none {s : σ} : Runs M own 0 s s
  | step {s s' t : σ} {a : α} {n : Nat} : own s a → M.step s a = some s' → Runs M own n s' t →
      Runs M own (n + 1) s t

variable {good : σ → Prop}

theorem Runs.keeps (keep : ∀ s a s', good s → own s a → M.step s a = some s' → good s')
    {n : Nat} {s t : σ} (runs : M.Runs own n s t) (start : good s) : good t := by
  induction runs with
  | none => exact start
  | step isOwn moved _ ih => exact ih (keep _ _ _ start isOwn moved)

theorem Runs.reachable {n : Nat} {s t : σ} (runs : M.Runs own n s t) (run : M.Reachable s) :
    M.Reachable t :=
  runs.keeps (fun _ _ _ run _ moved => run.step trivial moved) run

/-- **A run of steps that work is not longer than the work there is.** -/
theorem Runs.length_le {n : Nat} {s t : σ}
    (keep : ∀ s a s', good s → own s a → M.step s a = some s' → good s')
    (less : ∀ s a s', good s → own s a → M.step s a = some s' → work s' < work s)
    (runs : M.Runs own n s t) (start : good s) : n + work t ≤ work s := by
  induction runs with
  | none => exact Nat.le_of_eq (Nat.zero_add _)
  | step isOwn moved _ ih =>
      have rest := ih (keep _ _ _ start isOwn moved)
      have taken := less _ _ _ start isOwn moved
      omega

/-- The work of many parts, of which one has moved. -/
theorem sum_moved {ι : Type} [DecidableEq ι] {f g : ι → Nat} {parts : Finset ι} {id : ι}
    (member : id ∈ parts) (same : ∀ x, x ≠ id → g x = f x) :
    ∑ x ∈ parts, g x + f id = ∑ x ∈ parts, f x + g id := by
  have others : ∑ x ∈ parts.erase id, g x = ∑ x ∈ parts.erase id, f x :=
    Finset.sum_congr rfl fun x rest => same x (Finset.ne_of_mem_erase rest)
  rw [← Finset.add_sum_erase _ g member, ← Finset.add_sum_erase _ f member, others]
  omega

/-- Every state leads to one that is stuck. -/
theorem exists_stuck (keep : ∀ s a s', good s → own s a → M.step s a = some s' → good s')
    (less : ∀ s a s', good s → own s a → M.step s a = some s' → work s' < work s)
    {s : σ} (start : good s) : ∃ n t, M.Runs own n s t ∧ M.Stuck own t := by
  induction left : work s using Nat.strongRecOn generalizing s with
  | ind left ih =>
      by_cases stuck : M.Stuck own s
      · exact ⟨0, s, .none, stuck⟩
      · unfold Stuck at stuck
        push Not at stuck
        obtain ⟨a, isOwn, moves⟩ := stuck
        obtain ⟨s', moved⟩ := Option.ne_none_iff_exists'.1 moves
        have taken := less s a s' start isOwn moved
        obtain ⟨n, t, runs, stuck⟩ :=
          ih (work s') (left ▸ taken) (keep s a s' start isOwn moved) rfl
        exact ⟨n + 1, t, .step isOwn moved runs, stuck⟩

end Machine
