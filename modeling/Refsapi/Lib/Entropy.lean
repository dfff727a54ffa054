/-
# Lib.Entropy -- the entropy of a table of counts

A table counts `n` things by their kinds.  Its entropy is the logarithm of `n` less a mean
of those of the counts (`entropy_eq`), and so it is 0 just when there is one kind
(`entropy_eq_zero_iff`) and `log n` just when no kind has two (`entropy_eq_log_iff`).

The logarithm is any function with its laws, so that the field is any ordered one.
-/
import Mathlib.Algebra.BigOperators.Ring.List
import Mathlib.Algebra.Order.BigOperators.Group.List
import Mathlib.Algebra.Order.Field.Basic
import Mathlib.Data.Nat.Cast.Order.Field
import Mathlib.Tactic.FieldSimp
import Mathlib.Tactic.Linarith
import Mathlib.Tactic.Ring

set_option autoImplicit false

/-- A logarithm to a base above 1. -/
structure Logarithm (K : Type) [Field K] [LinearOrder K] where
  log : K → K
  mul : ∀ {x y : K}, 0 < x → 0 < y → log (x * y) = log x + log y
  pos : ∀ {x : K}, 1 < x → 0 < log x

namespace Logarithm

variable {K : Type} [Field K] [LinearOrder K] [IsStrictOrderedRing K] (L : Logarithm K)

@[simp] theorem log_one : L.log 1 = 0 := by
  have twice := L.mul (x := 1) (y := 1) one_pos one_pos
  rw [mul_one] at twice
  linarith

theorem log_div {x y : K} (hx : 0 < x) (hy : 0 < y) : L.log (x / y) = L.log x - L.log y := by
  have product := L.mul (div_pos hx hy) hy
  rw [div_mul_cancel₀ x hy.ne'] at product
  linarith

theorem log_nonneg {x : K} (above : 1 ≤ x) : 0 ≤ L.log x := by
  rcases above.eq_or_lt with rfl | above
  · exact L.log_one.ge
  · exact (L.pos above).le

theorem log_lt {x y : K} (hx : 0 < x) (lt : x < y) : L.log x < L.log y := by
  have ratio := L.pos ((one_lt_div hx).2 lt)
  rw [L.log_div (hx.trans lt) hx] at ratio
  linarith

theorem log_le {x y : K} (hx : 0 < x) (le : x ≤ y) : L.log x ≤ L.log y := by
  rcases le.eq_or_lt with rfl | lt
  · exact le_rfl
  · exact (L.log_lt hx lt).le

theorem log_natCast_nonneg {k : Nat} (positive : 0 < k) : 0 ≤ L.log (k : K) :=
  L.log_nonneg (Nat.one_le_cast.2 positive)

theorem log_natCast_pos {k : Nat} (many : 1 < k) : 0 < L.log (k : K) :=
  L.pos (Nat.one_lt_cast.2 many)

/-! ## Tables of counts -/

/-- The entropy of a table, as a loop over it computes it. -/
def entropy (counts : List Nat) (n : Nat) : K :=
  counts.foldl (fun (entropy : K) (k : Nat) => entropy - (k : K) / n * L.log ((k : K) / n)) 0

/-- The sum of the counts, each by its logarithm. -/
def weight (counts : List Nat) : K := (counts.map fun (k : Nat) => (k : K) * L.log k).sum

variable {counts : List Nat} {n : Nat}

theorem weight_nonneg (positive : ∀ k ∈ counts, 0 < k) : 0 ≤ L.weight counts := by
  refine List.sum_nonneg fun x member => ?_
  obtain ⟨k, isCount, rfl⟩ := List.mem_map.1 member
  exact mul_nonneg (Nat.cast_nonneg k) (L.log_natCast_nonneg (positive k isCount))

omit [IsStrictOrderedRing K] in
theorem weight_cons (k : Nat) (rest : List Nat) :
    L.weight (k :: rest) = (k : K) * L.log k + L.weight rest := List.sum_cons

theorem weight_eq_zero_iff (positive : ∀ k ∈ counts, 0 < k) :
    L.weight counts = 0 ↔ ∀ k ∈ counts, k = 1 := by
  induction counts with
  | nil => simp [weight]
  | cons k rest ih =>
      obtain ⟨first, others⟩ := List.forall_mem_cons.1 positive
      have nonneg := L.weight_nonneg others
      have own : 0 ≤ (k : K) * L.log k :=
        mul_nonneg (Nat.cast_nonneg k) (L.log_natCast_nonneg first)
      rw [weight_cons, List.forall_mem_cons, ← ih others, add_eq_zero_iff_of_nonneg own nonneg]
      refine and_congr_left' ⟨fun zero => ?_, fun one => by rw [one]; simp⟩
      by_contra unlike
      have many : 1 < k := by omega
      have strict := mul_pos (Nat.cast_pos.2 first : (0 : K) < k) (L.log_natCast_pos many)
      exact strict.ne' zero

/-- No count is above the total. -/
theorem weight_le (positive : ∀ k ∈ counts, 0 < k) (below : ∀ k ∈ counts, k ≤ n) :
    L.weight counts ≤ (counts.sum : K) * L.log n := by
  induction counts with
  | nil => simp [weight]
  | cons k rest ih =>
      obtain ⟨first, others⟩ := List.forall_mem_cons.1 positive
      obtain ⟨le, les⟩ := List.forall_mem_cons.1 below
      have own : (k : K) * L.log k ≤ (k : K) * L.log n :=
        mul_le_mul_of_nonneg_left (L.log_le (Nat.cast_pos.2 first) (Nat.cast_le.2 le))
          (Nat.cast_nonneg k)
      rw [weight_cons, List.sum_cons, Nat.cast_add, add_mul]
      exact add_le_add own (ih others les)

/-- Where a count is below the total, so is what it weighs. -/
theorem weight_lt (positive : ∀ k ∈ counts, 0 < k) (below : ∀ k ∈ counts, k ≤ n)
    {k : Nat} (member : k ∈ counts) (lt : k < n) :
    L.weight counts < (counts.sum : K) * L.log n := by
  induction counts with
  | nil => cases member
  | cons j rest ih =>
      obtain ⟨first, others⟩ := List.forall_mem_cons.1 positive
      obtain ⟨le, les⟩ := List.forall_mem_cons.1 below
      rw [weight_cons, List.sum_cons, Nat.cast_add, add_mul]
      have isFirst : (0 : K) < j := Nat.cast_pos.2 first
      rcases List.mem_cons.1 member with rfl | later
      · refine add_lt_add_of_lt_of_le ?_ (L.weight_le others les)
        exact mul_lt_mul_of_pos_left (L.log_lt isFirst (Nat.cast_lt.2 lt)) isFirst
      · refine add_lt_add_of_le_of_lt ?_ (ih others les later)
        exact mul_le_mul_of_nonneg_left (L.log_le isFirst (Nat.cast_le.2 le)) isFirst.le

theorem entropy_eq_sub (positive : ∀ k ∈ counts, 0 < k) (some : 0 < n) :
    L.entropy counts n = ((counts.sum : K) * L.log n - L.weight counts) / n := by
  have isTotal : (0 : K) < n := Nat.cast_pos.2 some
  have loop (start : K) : counts.foldl
      (fun (entropy : K) (k : Nat) => entropy - (k : K) / n * L.log ((k : K) / n)) start =
        start + ((counts.sum : K) * L.log n - L.weight counts) / n := by
    induction counts generalizing start with
    | nil => simp [weight]
    | cons k rest ih =>
        obtain ⟨first, others⟩ := List.forall_mem_cons.1 positive
        rw [List.foldl_cons, ih others, weight_cons, List.sum_cons, Nat.cast_add,
          L.log_div (Nat.cast_pos.2 first) isTotal]
        field_simp
        ring
  rw [entropy, loop, zero_add]

/-- The entropy of `n` things. -/
theorem entropy_eq (positive : ∀ k ∈ counts, 0 < k) (total : counts.sum = n) (some : 0 < n) :
    L.entropy counts n = L.log n - L.weight counts / n := by
  have isTotal : (0 : K) < n := Nat.cast_pos.2 some
  rw [L.entropy_eq_sub positive some, total]
  field_simp

theorem le_total (total : counts.sum = n) {k : Nat} (member : k ∈ counts) : k ≤ n :=
  total ▸ List.single_le_sum (fun _ _ => Nat.zero_le _) k member

theorem entropy_le_log (positive : ∀ k ∈ counts, 0 < k) (total : counts.sum = n) (some : 0 < n) :
    L.entropy counts n ≤ L.log n := by
  rw [L.entropy_eq positive total some]
  have nonneg := div_nonneg (L.weight_nonneg positive) (Nat.cast_nonneg (α := K) n)
  linarith

theorem entropy_eq_log_iff (positive : ∀ k ∈ counts, 0 < k) (total : counts.sum = n)
    (some : 0 < n) : L.entropy counts n = L.log n ↔ ∀ k ∈ counts, k = 1 := by
  have isTotal : (n : K) ≠ 0 := Nat.cast_ne_zero.2 some.ne'
  rw [L.entropy_eq positive total some, sub_eq_self, div_eq_zero_iff, or_iff_left isTotal,
    L.weight_eq_zero_iff positive]

theorem entropy_nonneg (positive : ∀ k ∈ counts, 0 < k) (total : counts.sum = n) (some : 0 < n) :
    0 ≤ L.entropy counts n := by
  rw [L.entropy_eq_sub positive some]
  refine div_nonneg (sub_nonneg.2 ?_) (Nat.cast_nonneg n)
  exact L.weight_le positive fun k member => le_total total member

theorem entropy_eq_zero_iff (positive : ∀ k ∈ counts, 0 < k) (total : counts.sum = n)
    (some : 0 < n) : L.entropy counts n = 0 ↔ ∀ k ∈ counts, k = n := by
  have isTotal : (n : K) ≠ 0 := Nat.cast_ne_zero.2 some.ne'
  have below : ∀ k ∈ counts, k ≤ n := fun k member => le_total total member
  rw [L.entropy_eq_sub positive some, div_eq_zero_iff, or_iff_left isTotal, sub_eq_zero]
  constructor
  · intro same k member
    by_contra unlike
    exact (L.weight_lt positive below member (lt_of_le_of_ne (below k member) unlike)).ne same.symm
  · intro all
    have each : counts.map (fun (k : Nat) => (k : K) * L.log k) =
        counts.map fun (k : Nat) => (k : K) * L.log n :=
      List.map_congr_left fun k member => by rw [all k member]
    have sums := map_list_sum (Nat.castRingHom K) counts
    rw [weight, each, List.sum_map_mul_right]
    exact congrArg (· * L.log n) sums

end Logarithm
