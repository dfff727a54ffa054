/-
# Lib.Steps -- a program that takes one step after the other, and may fail

`after n` is what a program has come to after a number of steps, when none of them failed; a program
that is done takes no more.  The program is safe when it never fails, and that is said of one step
out of a state that it comes to (`safe_iff`).  A program that is safe, and whose steps go down in a
well-founded order, comes to be done (`stops`).
-/
import Mathlib.Logic.Basic
import Mathlib.Order.WellFounded

namespace Steps

set_option autoImplicit false

variable {σ ε : Type} (step : σ → Except ε σ) (done : σ → Bool)

/-- The state after a number of steps. -/
def after : Nat → σ → Except ε σ
  | 0, s => .ok s
  | n + 1, s => if done s then .ok s else (step s).bind (after n)

/-- The program never fails. -/
def Safe (s : σ) : Prop := ∀ n, ∃ t, after step done n s = .ok t

/-- The program comes to a state. -/
def Comes (s t : σ) : Prop := ∃ n, after step done n s = .ok t

variable {step done}

theorem Comes.refl (s : σ) : Comes step done s s := ⟨0, rfl⟩

theorem Comes.head {s t u : σ} (goes : done s = false) (moved : step s = .ok t)
    (comes : Comes step done t u) : Comes step done s u := by
  obtain ⟨n, ends⟩ := comes
  exact ⟨n + 1, by rw [after, goes, moved]; exact ends⟩

/-- The rule for what the program comes to: nothing, or a step and the rest. -/
theorem comes_iff {s u : σ} : Comes step done s u ↔
    s = u ∨ done s = false ∧ ∃ t, step s = .ok t ∧ Comes step done t u := by
  constructor
  · rintro ⟨n, ends⟩
    cases n with
    | zero => exact .inl (Except.ok.inj ends)
    | succ n =>
        rw [after] at ends
        split at ends
        · exact .inl (Except.ok.inj ends)
        · next goes =>
            cases moved : step s with
            | error => simp [moved, Except.bind] at ends
            | ok t =>
                rw [moved] at ends
                exact .inr ⟨Bool.not_eq_true _ ▸ goes, t, rfl, n, ends⟩
  · rintro (rfl | ⟨goes, t, moved, comes⟩)
    · exact .refl s
    · exact comes.head goes moved

/-- **The invariant rule.** -/
theorem Comes.invariant {I : σ → Prop} (keep : ∀ s t, I s → done s = false → step s = .ok t → I t)
    {s u : σ} (comes : Comes step done s u) (base : I s) : I u := by
  obtain ⟨n, ends⟩ := comes
  induction n generalizing s with
  | zero => exact Except.ok.inj ends ▸ base
  | succ n ih =>
      rcases comes_iff.1 ⟨n + 1, ends⟩ with rfl | ⟨goes, t, moved, -⟩
      · exact base
      · rw [after, goes, moved] at ends
        exact ih (keep s t base goes moved) ends

theorem Comes.tail {s t u : σ} (comes : Comes step done s t) (goes : done t = false)
    (moved : step t = .ok u) : Comes step done s u := by
  obtain ⟨n, ends⟩ := comes
  induction n generalizing s with
  | zero =>
      obtain rfl := Except.ok.inj ends
      exact (Comes.refl u).head goes moved
  | succ n ih =>
      rcases comes_iff.1 ⟨n + 1, ends⟩ with rfl | ⟨goesOn, next, first, -⟩
      · exact (Comes.refl u).head goes moved
      · rw [after, goesOn, first] at ends
        exact (ih ends).head goesOn first

/-- **Safety, one step at a time.** -/
theorem safe_iff {s : σ} : Safe step done s ↔
    ∀ t, Comes step done s t → done t = false → ∃ u, step t = .ok u := by
  constructor
  · rintro safe t ⟨n, ends⟩ goes
    obtain ⟨u, later⟩ := safe (n + 1)
    induction n generalizing s with
    | zero =>
        obtain rfl := Except.ok.inj ends
        rw [after, goes] at later
        cases moved : step s with
        | error => simp [moved, Except.bind] at later
        | ok t => exact ⟨t, rfl⟩
    | succ n ih =>
        rw [after] at ends later
        split at ends
        · next ended =>
            obtain rfl := Except.ok.inj ends
            rw [ended] at goes
            cases goes
        · next goesOn =>
            rw [if_neg goesOn] at later
            cases moved : step s with
            | error => simp [moved, Except.bind] at ends
            | ok next =>
                rw [moved] at ends later
                refine ih (fun m => ?_) ends later
                obtain ⟨v, further⟩ := safe (m + 1)
                rw [after, if_neg goesOn, moved] at further
                exact ⟨v, further⟩
  · intro moves n
    induction n generalizing s with
    | zero => exact ⟨s, rfl⟩
    | succ n ih =>
        rw [after]
        split
        · exact ⟨s, rfl⟩
        · next goes =>
            have goes : done s = false := Bool.not_eq_true _ ▸ goes
            obtain ⟨t, moved⟩ := moves s (.refl s) goes
            rw [moved]
            exact ih fun u comes => moves u (comes.head goes moved)

/-- **A safe program whose steps go down comes to be done.** -/
theorem stops {r : σ → σ → Prop} (wf : WellFounded r) {s : σ} (safe : Safe step done s)
    (down : ∀ t u, Comes step done s t → done t = false → step t = .ok u → r u t) :
    ∃ t, Comes step done s t ∧ done t = true := by
  have moves := safe_iff.1 safe
  have ends (t : σ) (comes : Comes step done s t) : ∃ u, Comes step done s u ∧ done u = true := by
    induction t using wf.induction with
    | _ t ih =>
        cases ended : done t with
        | true => exact ⟨t, comes, ended⟩
        | false =>
            obtain ⟨u, moved⟩ := moves t comes ended
            exact ih u (down t u comes ended moved) (comes.tail ended moved)
  exact ends s (.refl s)

end Steps
