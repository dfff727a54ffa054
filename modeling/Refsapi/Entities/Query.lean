/-
# Entities.Query -- when a query by class name is exact

`rf_get_ent_by_class` without an owner answers from one vector.  Its answer is
exact precisely when the vector holds every match once and the loop does not
change the vector it walks over (`getEntByClass_exact_iff`); both fail after
renames, because an entity is filed again only when a query meets it under its
old name, and meeting it there erases it from the vector being walked.
-/
import Mathlib.Data.Finset.Card
import Refsapi.Entities.Coherence

namespace Refsapi.Entities

set_option autoImplicit false

variable {s s' : State} {path : Path} {key : List Char} {maxSize : Nat}

/-! ## The exact answer -/

/-- The entity is live, tracked, and has the name now. -/
def Matches (s : State) (key : List Char) (entity : Nat) : Prop :=
  isValidEntity (s.edicts entity) = true ∧ s.tracked entity = true ∧ s.name entity = key

/-- The query has a result, which lists each match once and nothing else. -/
def Exact (s : State) (key : List Char) (owner : Int) (maxSize : Nat) : Prop :=
  ∃ list s', s.rfGetEntByClass key owner maxSize = some (list, s') ∧ list.Nodup ∧
    ∀ entity, entity ∈ list ↔ Matches s key entity

/-- The loop never changes the vector it walks over: an entity of the vector that has
been renamed is filed neither from it nor to it. -/
def Undisturbed (s : State) (path : Path) (v : List Nat) : Prop :=
  ∀ entity ∈ v, ∀ recorded, s.classnames entity = some recorded → recorded ≠ s.name entity →
    path.touched recorded (s.name entity) = false

/-- The condition: each match is once in the vector of the query, and the loop leaves
the vector alone.  Nothing is filed under the empty name. -/
def FiledRight (s : State) (key : List Char) (path : Path) : Prop :=
  (∀ entity, Matches s key entity → key ≠ [] ∧ (s.vector path).count entity = 1) ∧
    (key ≠ [] → Undisturbed s path ((s.vector path).filter s.keeps))

/-! ## The loop -/

@[simp] theorem refile_name (s : State) (recorded : List Char) (entity x : Nat) :
    (s.refile recorded entity).name x = s.name x := by
  unfold State.refile
  split <;> rfl

/-- After a turn the entity is recorded under its present name. -/
theorem refile_classnames {recorded : List Char} {entity : Nat}
    (isRecorded : s.classnames entity = some recorded) :
    (s.refile recorded entity).classnames =
      Function.update s.classnames entity (some (s.name entity)) := by
  unfold State.refile
  split
  · rfl
  · next same =>
      have same : recorded = s.name entity := by simpa using same
      rw [← same, ← isRecorded, Function.update_eq_self]

/-- What a turn leaves undisturbed was so before, and the other way round. -/
theorem undisturbed_cons_iff {recorded : List Char} {entity : Nat} {rest : List Nat}
    (isRecorded : s.classnames entity = some recorded) :
    Undisturbed s path (entity :: rest) ↔
      (recorded ≠ s.name entity → path.touched recorded (s.name entity) = false) ∧
        Undisturbed (s.refile recorded entity) path rest := by
  constructor
  · intro undisturbed
    refine ⟨undisturbed entity List.mem_cons_self recorded isRecorded, ?_⟩
    intro x member old isOld renamed
    rw [refile_classnames isRecorded] at isOld
    rw [refile_name] at renamed ⊢
    by_cases here : x = entity
    · subst here
      rw [Function.update_self] at isOld
      exact absurd (Option.some.inj isOld).symm renamed
    · rw [Function.update_of_ne here] at isOld
      exact undisturbed x (List.mem_cons_of_mem _ member) old isOld renamed
  · rintro ⟨first, others⟩ x member old isOld renamed
    by_cases here : x = entity
    · subst here
      obtain rfl : recorded = old := Option.some.inj (isRecorded.symm.trans isOld)
      exact first renamed
    · have inRest : x ∈ rest := (List.mem_cons.1 member).resolve_left here
      have later := others x inRest old
      rw [refile_classnames isRecorded, Function.update_of_ne here, refile_name] at later
      exact later isOld renamed

theorem tracked_refile {recorded : List Char} {entity : Nat} (x : Nat)
    (isTracked : s.tracked x = true) (isRecorded : s.classnames entity = some recorded) :
    (s.refile recorded entity).tracked x = true := by
  unfold State.tracked at *
  rw [refile_classnames isRecorded]
  by_cases here : x = entity
  · simp [here]
  · simpa [here] using isTracked

/-- One turn of the loop. -/
theorem copyLoop_cons {recorded : List Char} {entity : Nat} {rest dest : List Nat}
    (isRecorded : s.classnames entity = some recorded) :
    State.copyLoop path key maxSize (entity :: rest) dest s =
      if recorded != s.name entity && path.touched recorded (s.name entity) then none
      else if key != s.name entity then
        State.copyLoop path key maxSize rest dest (s.refile recorded entity)
      else if (dest ++ [entity]).length ≥ maxSize then
        some (dest ++ [entity], s.refile recorded entity)
      else State.copyLoop path key maxSize rest (dest ++ [entity]) (s.refile recorded entity) := by
  simp only [State.copyLoop, isRecorded]

/-- A loop that is not disturbed and has room takes every entity of the name. -/
theorem copyLoop_of_undisturbed {v dest : List Nat} (undisturbed : Undisturbed s path v)
    (tracked : ∀ entity ∈ v, s.tracked entity = true)
    (room : (dest ++ v.filter fun entity => s.name entity == key).length < maxSize) :
    ∃ s', State.copyLoop path key maxSize v dest s =
      some (dest ++ v.filter fun entity => s.name entity == key, s') := by
  induction v generalizing dest s with
  | nil => exact ⟨s, by simp [State.copyLoop]⟩
  | cons entity rest ih =>
      obtain ⟨recorded, isRecorded⟩ := Option.isSome_iff_exists.1
        (tracked entity List.mem_cons_self)
      obtain ⟨first, others⟩ := (undisturbed_cons_iff isRecorded).1 undisturbed
      have tracked' : ∀ x ∈ rest, (s.refile recorded entity).tracked x = true := fun x member =>
        tracked_refile x (tracked x (List.mem_cons_of_mem _ member)) isRecorded
      rw [copyLoop_cons isRecorded, if_neg (by simpa using first)]
      by_cases named : s.name entity = key
      · have taken : (entity :: rest).filter (fun entity => s.name entity == key) =
            entity :: rest.filter fun entity => s.name entity == key := by simp [named]
        rw [taken] at room ⊢
        rw [if_neg (by simpa using named.symm),
          if_neg (by
            simp only [List.length_append, List.length_cons, List.length_nil] at room ⊢
            omega)]
        have fits : (dest ++ [entity] ++ rest.filter fun x =>
            (s.refile recorded entity).name x == key).length < maxSize := by
          simpa only [refile_name, List.append_assoc, List.singleton_append] using room
        have ends := ih others tracked' fits
        simpa only [refile_name, List.append_assoc, List.singleton_append] using ends
      · have skipped : (entity :: rest).filter (fun entity => s.name entity == key) =
            rest.filter fun entity => s.name entity == key := by simp [named]
        rw [skipped] at room ⊢
        rw [if_pos (by simpa using fun same => named same.symm)]
        have fits : (dest ++ rest.filter fun x =>
            (s.refile recorded entity).name x == key).length < maxSize := by
          simpa only [refile_name] using room
        have ends := ih others tracked' fits
        simpa only [refile_name] using ends

/-- A loop that ends without filling the destination was not disturbed. -/
theorem undisturbed_of_copyLoop {v dest list : List Nat}
    (ends : State.copyLoop path key maxSize v dest s = some (list, s'))
    (short : list.length < maxSize) :
    Undisturbed s path v ∧ list = dest ++ v.filter fun entity => s.name entity == key := by
  induction v generalizing dest s with
  | nil =>
      cases ends
      exact ⟨fun _ member => absurd member List.not_mem_nil, by simp⟩
  | cons entity rest ih =>
      cases isRecorded : s.classnames entity with
      | none => simp [State.copyLoop, isRecorded] at ends
      | some recorded =>
          rw [copyLoop_cons isRecorded] at ends
          split at ends
          · cases ends
          · next apart =>
              have first : recorded ≠ s.name entity →
                  path.touched recorded (s.name entity) = false := by simpa using apart
              rw [undisturbed_cons_iff isRecorded]
              by_cases named : s.name entity = key
              · rw [if_neg (by simpa using named.symm)] at ends
                split at ends
                · next full =>
                    cases ends
                    omega
                · obtain ⟨others, rfl⟩ := ih ends
                  exact ⟨⟨first, others⟩, by simp [named]⟩
              · rw [if_pos (by simpa using fun same => named same.symm)] at ends
                obtain ⟨others, rfl⟩ := ih ends
                exact ⟨⟨first, others⟩, by simp [named]⟩

/-! ## The query -/

theorem vector_prune (s : State) (path : Path) :
    (s.prune path).vector path = (s.vector path).filter s.keeps := by
  cases path <;> simp [State.prune, State.setVector, State.vector, State.setPlayerEntities]

theorem prune_frame (s : State) (path : Path) :
    (s.prune path).classnames = s.classnames ∧ (s.prune path).edicts = s.edicts := by
  cases path <;> exact ⟨rfl, rfl⟩

/-- The vector that is left has the same disturbances in the pruned state. -/
theorem undisturbed_prune {v : List Nat} :
    Undisturbed (s.prune path) path v ↔ Undisturbed s path v := by
  obtain ⟨classnames, edicts⟩ := prune_frame s path
  simp only [Undisturbed, State.name, classnames, edicts]

/-- The entities of the pruned vector that have the name. -/
def taken (s : State) (key : List Char) (v : List Nat) : List Nat :=
  (v.filter s.keeps).filter fun entity => s.name entity == key

theorem count_taken_of_matches {v : List Nat} {entity : Nat} (holds : Matches s key entity) :
    (taken s key v).count entity = v.count entity := by
  obtain ⟨valid, tracked, named⟩ := holds
  have keeps : s.keeps entity = true := by
    rw [State.keeps, valid, Bool.true_and]
    exact tracked
  rw [taken, List.count_filter (by simpa using named), List.count_filter keeps]

theorem count_taken_of_not {v : List Nat} {entity : Nat} (fails : ¬ Matches s key entity) :
    (taken s key v).count entity = 0 := by
  refine List.count_eq_zero_of_not_mem fun member => fails ?_
  simp only [taken, List.mem_filter, State.keeps, Bool.and_eq_true, beq_iff_eq] at member
  exact ⟨member.1.2.1, member.1.2.2, member.2⟩

/-- A list without repetition is exact when every count is. -/
theorem exact_iff_count {list : List Nat} {p : Nat → Prop} :
    (list.Nodup ∧ ∀ x, x ∈ list ↔ p x) ↔
      ∀ x, (p x → list.count x = 1) ∧ (¬ p x → list.count x = 0) := by
  constructor
  · rintro ⟨nodup, mem⟩ x
    refine ⟨fun holds => ?_, fun fails => ?_⟩
    · exact List.count_eq_one_of_mem nodup ((mem x).2 holds)
    · exact List.count_eq_zero_of_not_mem fun member => fails ((mem x).1 member)
  · intro counts
    refine ⟨List.nodup_iff_count_le_one.2 fun x => ?_, fun x => ⟨fun member => ?_, fun holds => ?_⟩⟩
    · by_cases holds : p x
      · exact Nat.le_of_eq ((counts x).1 holds)
      · rw [(counts x).2 holds]
        exact Nat.zero_le 1
    · refine Classical.byContradiction fun fails => ?_
      exact absurd member (List.count_eq_zero.1 ((counts x).2 fails))
    · refine List.count_pos_iff.1 ?_
      rw [(counts x).1 holds]
      exact Nat.one_pos

theorem taken_exact_iff (s : State) (key : List Char) (v : List Nat) :
    ((taken s key v).Nodup ∧ ∀ entity, entity ∈ taken s key v ↔ Matches s key entity) ↔
      ∀ entity, Matches s key entity → v.count entity = 1 := by
  rw [exact_iff_count]
  constructor
  · intro counts entity holds
    exact (count_taken_of_matches holds).symm.trans ((counts entity).1 holds)
  · intro counts entity
    exact ⟨fun holds => (count_taken_of_matches holds).trans (counts entity holds),
      count_taken_of_not⟩

/-- An exact list has as many entries as there are matches. -/
theorem length_eq_card {list : List Nat} {found : Finset Nat} {p : Nat → Prop}
    (all : ∀ entity, entity ∈ found ↔ p entity) (nodup : list.Nodup)
    (exact : ∀ entity, entity ∈ list ↔ p entity) : list.length = found.card := by
  have same : list.toFinset = found := by
    ext entity
    rw [List.mem_toFinset, exact, all]
  rw [← same, List.toFinset_card_of_nodup nodup]

/-- **A query without an owner is exact precisely when its vector is filed right.** -/
theorem getEntByClass_exact_iff (s : State) (key : List Char) (owner : Int) (maxSize : Nat)
    (found : Finset Nat) (all : ∀ entity, entity ∈ found ↔ Matches s key entity)
    (room : found.card < maxSize) :
    Exact s key owner maxSize ↔ FiledRight s key (s.path key owner) := by
  have positive : maxSize ≠ 0 := by omega
  by_cases empty : key = []
  · subst empty
    have result : s.rfGetEntByClass [] owner maxSize = some ([], s) := by
      simp [State.rfGetEntByClass]
    simp only [Exact, result, FiledRight]
    constructor
    · rintro ⟨_, _, ⟨⟩, -, exact⟩
      exact ⟨fun entity holds => absurd ((exact entity).2 holds) List.not_mem_nil,
        fun isSome => absurd rfl isSome⟩
    · rintro ⟨none, -⟩
      refine ⟨[], s, rfl, List.nodup_nil, fun entity => ⟨fun member => ?_, fun holds => ?_⟩⟩
      · exact absurd member List.not_mem_nil
      · exact absurd rfl (none entity holds).1
  · let path := s.path key owner
    have result : s.rfGetEntByClass key owner maxSize =
        State.copyLoop path key maxSize ((s.vector path).filter s.keeps) [] (s.prune path) := by
      simp [State.rfGetEntByClass, empty, positive, State.copyEntities, vector_prune, path]
    have named : (s.prune path).name = s.name := by
      unfold State.name
      rw [(prune_frame s path).2]
    simp only [Exact, result]
    constructor
    · rintro ⟨list, s', ends, nodup, exact⟩
      have length := length_eq_card all nodup exact
      obtain ⟨undisturbed, isTaken⟩ := undisturbed_of_copyLoop ends (by omega)
      rw [named, List.nil_append] at isTaken
      subst isTaken
      have counts := (taken_exact_iff s key (s.vector path)).1 ⟨nodup, exact⟩
      exact ⟨fun entity holds => ⟨empty, counts entity holds⟩,
        fun _ => undisturbed_prune.1 undisturbed⟩
    · rintro ⟨counts, undisturbed⟩
      obtain ⟨nodup, exact⟩ := (taken_exact_iff s key (s.vector path)).2 fun entity holds =>
        (counts entity holds).2
      have length := length_eq_card all nodup exact
      have tracked : ∀ entity ∈ (s.vector path).filter s.keeps,
          (s.prune path).tracked entity = true := by
        intro entity member
        have keeps := (List.mem_filter.1 member).2
        simp only [State.keeps, Bool.and_eq_true] at keeps
        rw [State.tracked, (prune_frame s path).1]
        exact keeps.2
      have fits : ([] ++ ((s.vector path).filter s.keeps).filter
          fun entity => (s.prune path).name entity == key).length < maxSize := by
        rw [named, List.nil_append]
        exact length ▸ room
      obtain ⟨s', ends⟩ :=
        copyLoop_of_undisturbed (undisturbed_prune.2 (undisturbed empty)) tracked fits
      rw [named, List.nil_append] at ends
      exact ⟨_, s', ends, nodup, exact⟩

/-! ## Three entities of one class -/

/-- A live entity of the class. -/
def live (name : List Char) : Edict :=
  { Edict.zero with privateData := true, classname := some name }

def threeEdicts (index : Nat) : Edict := if index ∈ [1, 2, 3] then live ['a'] else .zero

/-- Entities 1, 2 and 3 have been allocated under the name `a`. -/
def threeFiled : State := (((State.zero 32 threeEdicts).alloc 1).alloc 2).alloc 3

/-- Then the first is renamed. -/
def oneRenamed : State := threeFiled.setEdict 1 (live ['b'])

theorem reachable_oneRenamed : machine.Reachable oneRenamed := by
  have ends : machine.exec (.zero 32 threeEdicts)
      [.alloc 1, .alloc 2, .alloc 3, .engine 1 (live ['b'])] = some oneRenamed := rfl
  exact Machine.Reaches.of_exec (.init ⟨32, threeEdicts, rfl⟩) ends

theorem matches_threeFiled (entity : Nat) :
    entity ∈ ({1, 2, 3} : Finset Nat) ↔ Matches threeFiled ['a'] entity := by
  by_cases here : entity ∈ [1, 2, 3]
  · have live : Matches threeFiled ['a'] entity := by
      simp only [List.mem_cons, List.not_mem_nil, or_false] at here
      rcases here with rfl | rfl | rfl <;> exact ⟨rfl, rfl, rfl⟩
    exact iff_of_true (by simpa using here) live
  · refine iff_of_false (by simpa using here) fun holds => ?_
    have dead : isValidEntity (threeFiled.edicts entity) = false := by
      change isValidEntity (threeEdicts entity) = false
      rw [threeEdicts, if_neg here]
      rfl
    exact absurd holds.1 (by simp [dead])

theorem getEntByClass_exact_iff_threeFiled :
    Exact threeFiled ['a'] 0 4 ↔ FiledRight threeFiled ['a'] (.global ['a']) :=
  getEntByClass_exact_iff threeFiled ['a'] 0 4 {1, 2, 3} matches_threeFiled (by decide)

theorem matches_oneRenamed (entity : Nat) :
    entity ∈ ({2, 3} : Finset Nat) ↔ Matches oneRenamed ['a'] entity := by
  by_cases first : entity = 1
  · subst first
    exact iff_of_false (by decide) fun holds => absurd holds.2.2 (by decide)
  · have same : Matches oneRenamed ['a'] entity ↔ Matches threeFiled ['a'] entity := by
      simp [Matches, oneRenamed, State.setEdict, State.name, State.tracked, first]
    rw [same, ← matches_threeFiled]
    simp [first]

/-- The query for `a` meets the renamed entity and erases it from the vector it is
walking over. -/
theorem not_always_exact : ¬ ∀ s, machine.Reachable s → ∀ key owner maxSize (found : Finset Nat),
    isValidIndex s.maxClients owner.toNat = false →
    (∀ entity, entity ∈ found ↔ Matches s key entity) → found.card < maxSize →
    Exact s key owner maxSize := by
  intro always
  obtain ⟨_, _, ends, -⟩ := always oneRenamed reachable_oneRenamed ['a'] 0 4 {2, 3} rfl
    matches_oneRenamed (by decide)
  have none : oneRenamed.rfGetEntByClass ['a'] 0 4 = none := rfl
  rw [none] at ends
  cases ends

/-- And the query for `b` does not find it before another query has met it. -/
example : (oneRenamed.rfGetEntByClass ['b'] 0 4).map Prod.fst = some [] := rfl

end Refsapi.Entities
