/-
# Lib.Nodes -- a walk through a list of nodes

The elements of a linked list stand in nodes, and an iterator is the address of a node or
the end.  From the node of an element that has been erased there is no way on
(`next_erase`), so a walk that may erase the element it is at is defined where it erases
nothing (`walk_eq_some_iff`).
-/
import Mathlib.Data.List.Nodup
import Mathlib.Data.List.TakeWhile

/-- The elements of a list in their order, each with the address of its node. -/
abbrev Nodes (α : Type) := List (Nat × α)

namespace Nodes

set_option autoImplicit false

variable {α β : Type} {nodes front back : Nodes α} {it : Nat}

/-- An iterator at the first element; `none` is the end. -/
def first (nodes : Nodes α) : Option Nat := nodes.head?.map Prod.fst

/-- The iterator after one at a node that is there. -/
def next (nodes : Nodes α) (it : Nat) : Option (Option Nat) :=
  match nodes.dropWhile fun e => e.1 != it with
  | [] => none
  | _ :: back => some (first back)

def erase (nodes : Nodes α) (it : Nat) : Nodes α := nodes.filter fun e => e.1 != it

/-- `for (; it != end(); it++)` with a body that changes the list and a value; `none` where
it is undefined, or the fuel is out. -/
def walk (body : Nat → α → Nodes α × β → Nodes α × β) :
    Nat → Nodes α × β → Option Nat → Option (Nodes α × β)
  | _, s, none => some s
  | 0, _, some _ => none
  | fuel + 1, s, some it => do
      let x ← s.1.lookup it
      let it' ← next (body it x s).1 it
      walk body fuel (body it x s) it'

/-! ## One step -/

theorem next_erase : next (nodes.erase it) it = none := by
  have through : (nodes.erase it).dropWhile (fun e => e.1 != it) = [] := by
    rw [List.dropWhile_eq_nil_iff]
    exact fun e member => (List.mem_filter.1 member).2
  simp only [next, through]

/-- Another element is no element that has the address. -/
theorem ne_of_mem_front {x : α} (distinct : ((front ++ (it, x) :: back).map Prod.fst).Nodup) :
    ∀ e ∈ front, (e.1 != it) = true := by
  intro e member
  rw [List.map_append, List.map_cons, List.nodup_append] at distinct
  exact bne_iff_ne.2 (distinct.2.2 _ (List.mem_map_of_mem member) _ List.mem_cons_self)

theorem next_append {x : α} (distinct : ((front ++ (it, x) :: back).map Prod.fst).Nodup) :
    next (front ++ (it, x) :: back) it = some (first back) := by
  have through : (front ++ (it, x) :: back).dropWhile (fun e => e.1 != it) = (it, x) :: back := by
    rw [List.dropWhile_append_of_pos (ne_of_mem_front distinct), List.dropWhile_cons_of_neg]
    simp
  simp only [next, through]

theorem lookup_append {x : α} (distinct : ((front ++ (it, x) :: back).map Prod.fst).Nodup) :
    (front ++ (it, x) :: back).lookup it = some x := by
  induction front with
  | nil => simp
  | cons e front ih =>
      have other : (it == e.1) = false :=
        beq_false_of_ne (bne_iff_ne.1 (ne_of_mem_front distinct e List.mem_cons_self)).symm
      rw [List.cons_append, List.lookup_cons, other]
      exact ih (List.nodup_cons.1 distinct).2

/-! ## Walks -/

variable {body : Nat → α → Nodes α × β → Nodes α × β}

theorem walk_back (front : Nodes α) {fuel : Nat} (enough : back.length ≤ fuel) (value : β)
    (distinct : ((front ++ back).map Prod.fst).Nodup)
    (keeps : ∀ e ∈ back, body e.1 e.2 (front ++ back, value) = (front ++ back, value)) :
    walk body fuel (front ++ back, value) (first back) = some (front ++ back, value) := by
  induction back generalizing front fuel with
  | nil => cases fuel <;> rfl
  | cons e back ih =>
      obtain _ | fuel := fuel
      · cases enough
      have kept := keeps e List.mem_cons_self
      have again : front ++ e :: back = (front ++ [e]) ++ back := by simp
      simp only [first, List.head?_cons, Option.map_some, walk, lookup_append distinct,
        Option.bind_some, kept, next_append distinct, bind]
      rw [again] at distinct keeps ⊢
      exact ih _ (Nat.le_of_succ_le_succ enough) distinct fun e' member =>
        keeps e' (List.mem_cons_of_mem _ member)

/-- The body erases the element it is at, or changes nothing. -/
def Erases (body : Nat → α → Nodes α × β → Nodes α × β) : Prop :=
  ∀ it x s, body it x s = s ∨ (body it x s).1 = s.1.erase it

/-- A walk that goes on from an element has not erased it. -/
theorem walk_succ (erases : Erases body) {fuel : Nat} {s s' : Nodes α × β}
    (ends : walk body (fuel + 1) s (some it) = some s') :
    ∃ x it', s.1.lookup it = some x ∧ body it x s = s ∧ next s.1 it = some it' ∧
      walk body fuel s it' = some s' := by
  simp only [walk, bind, Option.bind_eq_some_iff] at ends
  obtain ⟨x, found, it', goes, ends⟩ := ends
  rcases erases it x s with kept | erased
  · rw [kept] at goes ends
    exact ⟨x, it', found, kept, goes, ends⟩
  · rw [erased, next_erase] at goes
    cases goes

/-- A walk that comes to the end has changed nothing on its way. -/
theorem walk_unchanged (erases : Erases body) {fuel : Nat} {s s' : Nodes α × β}
    {it : Option Nat} (ends : walk body fuel s it = some s') : s' = s := by
  induction fuel generalizing it with
  | zero =>
      cases it with
      | none => exact (Option.some.inj ends).symm
      | some it => cases ends
  | succ fuel ih =>
      cases it with
      | none => exact (Option.some.inj ends).symm
      | some it =>
          obtain ⟨_, _, -, -, -, ends⟩ := walk_succ erases ends
          exact ih ends

theorem kept_of_walk (front : Nodes α) (erases : Erases body) {fuel : Nat} {value : β}
    {s' : Nodes α × β}
    (distinct : ((front ++ back).map Prod.fst).Nodup)
    (ends : walk body fuel (front ++ back, value) (first back) = some s') :
    ∀ e ∈ back, body e.1 e.2 (front ++ back, value) = (front ++ back, value) := by
  induction back generalizing front fuel with
  | nil =>
      intro e member
      cases member
  | cons e back ih =>
      obtain _ | fuel := fuel
      · cases ends
      obtain ⟨x, it', found, kept, goes, ends⟩ := walk_succ erases ends
      obtain rfl : e.2 = x := Option.some.inj ((lookup_append distinct).symm.trans found)
      obtain rfl : first back = it' := Option.some.inj ((next_append distinct).symm.trans goes)
      have again : front ++ e :: back = (front ++ [e]) ++ back := by simp
      intro e' member
      rcases List.mem_cons.1 member with rfl | behind
      · exact kept
      · rw [again] at distinct ends ⊢
        exact ih _ distinct ends e' behind

/-- **A walk that may erase the element it is at.**  It comes to the end where it erases
nothing, and then only. -/
theorem walk_eq_some_iff (erases : Erases body) {fuel : Nat} (enough : nodes.length ≤ fuel)
    {value : β} {s' : Nodes α × β} (distinct : (nodes.map Prod.fst).Nodup) :
    walk body fuel (nodes, value) nodes.first = some s' ↔
      s' = (nodes, value) ∧ ∀ e ∈ nodes, body e.1 e.2 (nodes, value) = (nodes, value) := by
  constructor
  · intro ends
    exact ⟨walk_unchanged erases ends, kept_of_walk [] erases distinct ends⟩
  · rintro ⟨rfl, keeps⟩
    exact walk_back [] enough value distinct keeps

end Nodes
