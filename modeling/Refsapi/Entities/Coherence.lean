/-
# Entities.Coherence -- the class index is coherent

In every run an entity occurs at most once over all vectors of `entities`, and
only in the vector of the name recorded for it (`Coherent`); when it is freed it
is gone from all of them (`coherent_of_reachable`).  A transfer or a free looks
only into the vector of the recorded name, so that is enough to remove the one
occurrence there can be.
-/
import Mathlib.Data.List.Count
import Mathlib.Data.List.Nodup
import Refsapi.Entities.Model

namespace Refsapi.Entities

set_option autoImplicit false

variable {s s' : State}

/-! ## The vectors of a map -/

/-- The values filed under a key. -/
def filed (trie : Trie) (key : List Char) : List Nat := (trie key).getD []

theorem filed_trieAdd (trie : Trie) (key c : List Char) (value : Nat) :
    filed (trieAdd trie key value) c =
      if c = key then filed trie key ++ [value] else filed trie c := by
  by_cases here : c = key
  · subst here
    simp [filed, trieAdd, vectorAdd]
  · simp [filed, trieAdd, here]

theorem filed_trieRemove (trie : Trie) (key c : List Char) (value : Nat) :
    filed (trieRemove trie key value) c =
      if c = key then (filed trie key).erase value else filed trie c := by
  unfold trieRemove
  cases found : trie key with
  | none =>
      by_cases here : c = key
      · subst here
        simp [filed, found]
      · simp [here]
  | some v =>
      by_cases here : c = key
      · subst here
        by_cases empty : v.erase value = []
        · simp [filed, found, vectorRemove, empty]
        · simp [filed, found, vectorRemove, empty]
      · simp [filed, here]

/-! ## Coherence -/

/-- Each entity is filed once, under the name recorded for it. -/
structure Coherent (s : State) : Prop where
  recorded : ∀ c index, index ∈ filed s.entities c → s.classnames index = some c
  once : ∀ c index, (filed s.entities c).count index ≤ 1

/-- The entity is filed nowhere. -/
def Unfiled (trie : Trie) (index : Nat) : Prop := ∀ c, index ∉ filed trie c

theorem Coherent.unfiled (coherent : Coherent s) {index : Nat}
    (untracked : s.classnames index = none) : Unfiled s.entities index := by
  intro c member
  rw [coherent.recorded c index member] at untracked
  cases untracked

/-- The maps and the records agree before and after; the rest plays no part. -/
theorem Coherent.congr (coherent : Coherent s) (entities : s'.entities = s.entities)
    (classnames : s'.classnames = s.classnames) : Coherent s' := by
  constructor
  · rw [entities, classnames]
    exact coherent.recorded
  · rw [entities]
    exact coherent.once

theorem Coherent.filed_congr (coherent : Coherent s)
    (entities : ∀ c, filed s'.entities c = filed s.entities c)
    (classnames : s'.classnames = s.classnames) : Coherent s' := by
  constructor
  · intro c index member
    rw [classnames]
    exact coherent.recorded c index (entities c ▸ member)
  · intro c index
    rw [entities c]
    exact coherent.once c index

/-- An entity that is filed nowhere is filed under a name and recorded. -/
theorem Coherent.add (coherent : Coherent s) {index : Nat} (unfiled : Unfiled s.entities index)
    (key : List Char) (entities : s'.entities = trieAdd s.entities key index)
    (classnames : s'.classnames = Function.update s.classnames index (some key)) :
    Coherent s' := by
  constructor
  · intro c x member
    rw [entities, filed_trieAdd] at member
    rw [classnames]
    by_cases this : x = index
    · subst this
      split at member
      · next here => simp [here]
      · exact absurd member (unfiled c)
    · rw [Function.update_of_ne this]
      split at member
      · next here =>
          subst here
          exact coherent.recorded c x (by simpa [this] using member)
      · exact coherent.recorded c x member
  · intro c x
    rw [entities, filed_trieAdd]
    split
    · next here =>
        have before := coherent.once key x
        rw [List.count_append]
        by_cases this : x = index
        · subst this
          have absent := List.count_eq_zero_of_not_mem (unfiled key)
          simp [absent]
        · have apart : [index].count x = 0 := by simp [Ne.symm this]
          omega
    · exact coherent.once c x

/-- Removing an entity from the vector of its recorded name removes it altogether. -/
theorem Coherent.unfiled_trieRemove (coherent : Coherent s) {index : Nat} {key : List Char}
    (recorded : ∀ c, index ∈ filed s.entities c → c = key) :
    Unfiled (trieRemove s.entities key index) index := by
  intro c member
  rw [filed_trieRemove] at member
  split at member
  · have once := coherent.once key index
    have erased : ((filed s.entities key).erase index).count index = 0 := by
      rw [List.count_erase_self]
      omega
    exact absurd (List.count_pos_iff.2 member) (by omega)
  · next other => exact other (recorded c member)

theorem Coherent.trieRemove (coherent : Coherent s) (key : List Char) (index : Nat)
    (entities : s'.entities = trieRemove s.entities key index)
    (classnames : ∀ x, x ≠ index → s'.classnames x = s.classnames x)
    (gone : Unfiled s'.entities index) : Coherent s' := by
  constructor
  · intro c x member
    have other : x ≠ index := fun same => gone c (same ▸ member)
    rw [classnames x other]
    rw [entities, filed_trieRemove] at member
    split at member
    · next here =>
        subst here
        exact coherent.recorded c x (List.mem_of_mem_erase member)
    · exact coherent.recorded c x member
  · intro c x
    rw [entities, filed_trieRemove]
    split
    · next here =>
        subst here
        exact Nat.le_trans (List.Sublist.count_le x List.erase_sublist) (coherent.once c x)
    · exact coherent.once c x

/-- A transfer from the recorded name. -/
theorem Coherent.trieTransfer (coherent : Coherent s) {index : Nat} {keyFrom : List Char}
    (recorded : ∀ c, index ∈ filed s.entities c → c = keyFrom) (keyTo : List Char) :
    Coherent (s.trieTransfer keyFrom keyTo index) := by
  have gone := coherent.unfiled_trieRemove recorded
  let removed : State := { s with entities := Entities.trieRemove s.entities keyFrom index }
  have without : Coherent removed := coherent.trieRemove keyFrom index rfl (fun _ _ => rfl) gone
  exact without.add gone keyTo rfl rfl

theorem unlist_frame (s : State) (index : Nat) (key : List Char) :
    (s.unlist index key).entities = s.entities ∧
      (s.unlist index key).classnames = s.classnames := by
  unfold State.unlist
  simp only
  split <;> split <;> exact ⟨rfl, rfl⟩

theorem Coherent.of_recorded (coherent : Coherent s) {index : Nat} {key : List Char}
    (recorded : s.classnames index = some key) (c : List Char)
    (member : index ∈ filed s.entities c) : c = key := by
  have := coherent.recorded c index member
  rw [recorded] at this
  exact (Option.some.inj this).symm

/-! ## The actions -/

theorem Coherent.alloc (coherent : Coherent s) {index : Nat}
    (untracked : s.classnames index = none) : Coherent (s.alloc index) := by
  have unfiled := coherent.unfiled untracked
  unfold State.alloc
  split
  · exact coherent
  · next key _ =>
      simp only
      split
      · exact coherent.add unfiled key rfl rfl
      · exact coherent.add unfiled key rfl rfl

/-- The vectors after a free, and the records: the old name gives way to the name that
the entity is removed under, so the entity is filed nowhere. -/
theorem Coherent.free (coherent : Coherent s) (index : Nat) :
    Coherent (s.free index) ∧ Unfiled (s.free index).entities index ∧
      (s.free index).classnames index = none := by
  -- The lookup of a name that is missing records an empty one, for an entity filed nowhere.
  let looked := s.setClassname index (some (s.keyOld index))
  have filedUnder : ∀ c, index ∈ filed s.entities c → c = s.keyOld index := by
    intro c member
    simp [State.keyOld, coherent.recorded c index member]
  have lookedCoherent : Coherent looked := by
    constructor
    · intro c x member
      by_cases this : x = index
      · subst this
        simp [looked, State.setClassname, filedUnder c member]
      · simpa [looked, State.setClassname, this] using coherent.recorded c x member
    · exact coherent.once
  let moved := if s.keyOld index != s.freeKey index then
    looked.trieTransfer (s.keyOld index) (s.freeKey index) index else looked
  have movedCoherent : Coherent moved ∧
      (∀ c, index ∈ filed moved.entities c → c = s.freeKey index) := by
    simp only [moved]
    split
    · have under : ∀ c, index ∈ filed looked.entities c → c = s.keyOld index := filedUnder
      have transferred := lookedCoherent.trieTransfer under (s.freeKey index)
      refine ⟨transferred, fun c member => ?_⟩
      exact transferred.of_recorded (by simp [State.trieTransfer, State.setClassname]) c member
    · next same =>
        have same : s.keyOld index = s.freeKey index := by simpa using same
        exact ⟨lookedCoherent, fun c member => same ▸ filedUnder c member⟩
  obtain ⟨unlisted, unlistedNames⟩ := unlist_frame (s.unfile index) index (s.freeKey index)
  have entities : (s.free index).entities =
      Entities.trieRemove moved.entities (s.freeKey index) index := unlisted
  have classnames : (s.free index).classnames = Function.update moved.classnames index none :=
    (by
      change Function.update ((s.unfile index).unlist index (s.freeKey index)).classnames index
        none = _
      rw [unlistedNames]
      rfl)
  have gone : Unfiled (s.free index).entities index := by
    rw [entities]
    exact movedCoherent.1.unfiled_trieRemove movedCoherent.2
  refine ⟨movedCoherent.1.trieRemove _ index entities (fun x other => ?_) gone, gone, ?_⟩
  · rw [classnames, Function.update_of_ne other]
  · rw [classnames, Function.update_self]

theorem Coherent.setVector (coherent : Coherent s) (path : Path) {v : List Nat}
    (sub : v.Sublist (s.vector path)) : Coherent (s.setVector path v) := by
  cases path with
  | player owner => exact coherent.congr rfl rfl
  | weapons => exact coherent.congr rfl rfl
  | global key =>
      have entities (c : List Char) : filed (s.setVector (.global key) v).entities c =
          if c = key then v else filed s.entities c := by
        by_cases here : c = key
        · subst here
          simp [filed, State.setVector]
        · simp [filed, State.setVector, here]
      constructor
      · intro c index member
        rw [entities] at member
        split at member
        · next here =>
            subst here
            exact coherent.recorded c index (sub.mem member)
        · exact coherent.recorded c index member
      · intro c index
        rw [entities]
        split
        · next here =>
            subst here
            exact Nat.le_trans (sub.count_le index) (coherent.once c index)
        · exact coherent.once c index

theorem Coherent.prune (coherent : Coherent s) (path : Path) : Coherent (s.prune path) :=
  coherent.setVector path List.filter_sublist

theorem Coherent.refile (coherent : Coherent s) {entity : Nat} {recorded : List Char}
    (isRecorded : s.classnames entity = some recorded) : Coherent (s.refile recorded entity) := by
  unfold State.refile
  split
  · exact coherent.trieTransfer (coherent.of_recorded isRecorded) _
  · exact coherent

/-- One induction over the loop: each turn transfers at most the entity it is at. -/
theorem Coherent.copyLoop {path : Path} {key : List Char} {maxSize : Nat} {v dest list : List Nat}
    (coherent : Coherent s) (ends : State.copyLoop path key maxSize v dest s = some (list, s')) :
    Coherent s' := by
  induction v generalizing dest s with
  | nil =>
      cases ends
      exact coherent
  | cons entity rest ih =>
      simp only [State.copyLoop] at ends
      cases recorded : s.classnames entity with
      | none => simp [recorded] at ends
      | some old =>
          simp only [recorded] at ends
          have next := coherent.refile recorded
          split at ends
          · cases ends
          · split at ends
            · exact ih next ends
            · split at ends
              · cases ends
                exact next
              · exact ih next ends

theorem Coherent.copyEntities {path : Path} {key : List Char} {maxSize : Nat} {list : List Nat}
    (coherent : Coherent s) (ends : s.copyEntities path key maxSize = some (list, s')) :
    Coherent s' :=
  (coherent.prune path).copyLoop ends

theorem Coherent.step {a : Action} (coherent : Coherent s) (moved : step s a = some s') :
    Coherent s' := by
  cases a with
  | engine index p =>
      cases moved
      exact coherent.congr rfl rfl
  | alloc index =>
      simp only [Entities.step] at moved
      split at moved
      · cases moved
      · next untracked =>
          cases moved
          exact coherent.alloc (by simpa [State.tracked] using untracked)
  | free index =>
      cases moved
      exact (coherent.free index).1
  | addPlayerItem player item =>
      simp only [Entities.step] at moved
      split at moved
      · cases moved
        exact coherent.congr rfl rfl
      · cases moved
  | removePlayerItem item =>
      cases moved
      unfold State.removePlayerItem
      simp only
      split
      · exact coherent.congr rfl rfl
      · exact coherent
  | getEntByClass key owner maxSize =>
      obtain ⟨⟨list, last⟩, ends, rfl⟩ := Option.map_eq_some_iff.1 moved
      unfold State.rfGetEntByClass at ends
      split at ends
      · cases ends
        exact coherent
      · exact coherent.copyEntities ends
  | prune path =>
      cases moved
      exact coherent.prune path
  | transfer entity =>
      simp only [Entities.step] at moved
      split at moved
      · cases moved
      · next recorded =>
          cases moved
          exact coherent.trieTransfer (coherent.of_recorded recorded) _
  | lookup key =>
      cases moved
      refine coherent.filed_congr (fun c => ?_) rfl
      by_cases here : c = key
      · subst here
        simp [filed]
      · simp [filed, here]

theorem coherent_of_run (run : machine.Reachable s) : Coherent s := by
  refine Machine.Reaches.invariant ?_ (fun _ _ _ _ coherent _ moved => coherent.step moved) run
  rintro _ ⟨maxClients, edicts, rfl⟩
  exact ⟨fun _ _ member => by simp [filed, State.zero] at member, fun _ _ => by
    simp [filed, State.zero]⟩

/-- **The class index is coherent.**  In every run an entity occurs at most once over
all vectors, in the vector of its recorded name; and after `Free_EntPrivateData` it
occurs in none and has no recorded name. -/
theorem coherent_of_reachable (run : machine.Reachable s) :
    (∀ c index, (filed s.entities c).count index ≤ 1) ∧
    (∀ c c' index, index ∈ filed s.entities c → index ∈ filed s.entities c' → c = c') ∧
    (∀ c index, index ∈ filed s.entities c → s.classnames index = some c) ∧
    ∀ index s', machine.step s (.free index) = some s' →
      (∀ c, index ∉ filed s'.entities c) ∧ s'.classnames index = none := by
  have coherent := coherent_of_run run
  refine ⟨coherent.once, fun c c' index member member' => ?_, coherent.recorded, ?_⟩
  · exact coherent.of_recorded (coherent.recorded c' index member') c member
  · rintro index _ ⟨⟩
    exact (coherent.free index).2

/-- An entity is renamed after its allocation, transferred and freed. -/
theorem coherent_of_reachable_renamed : ∃ s : State, filed s.entities ['b'] = [1] ∧
    (∀ c index, (filed s.entities c).count index ≤ 1) ∧
    (∀ c c' index, index ∈ filed s.entities c → index ∈ filed s.entities c' → c = c') ∧
    (∀ c index, index ∈ filed s.entities c → s.classnames index = some c) ∧
    ∀ index s', machine.step s (.free index) = some s' →
      (∀ c, index ∉ filed s'.entities c) ∧ s'.classnames index = none := by
  have ends : (machine.exec (.zero 32 fun _ => .zero)
      [.engine 1 { Edict.zero with classname := some ['a'] }, .alloc 1,
        .engine 1 { Edict.zero with classname := some ['b'] }, .transfer 1]).map
        (fun s => decide (filed s.entities ['b'] = [1])) = some true := by decide
  obtain ⟨s, run, filedOnce⟩ := Machine.exists_reachable (M := machine) ⟨32, _, rfl⟩ ends
  exact ⟨s, of_decide_eq_true filedOnce, coherent_of_reachable run⟩

end Refsapi.Entities
