/-
# Entities.Classes -- the classes of `g_Tries.entities`

`trie_remove` erases a class with its last entity and creates none.  But a query and
`get_user_buyzone` look a class up with `[]`, which files an empty vector under it, and a query
prunes a vector in place.  A step keeps the classes nonempty if and only if it looks up what is
there and leaves an entity in what it prunes (`noEmpty_step_iff`); so `r_bMapHasBuyZone` says
whether a buy zone is tracked in runs of such steps (`hasBuyZone_of_reaches`).
-/
import Refsapi.Entities.Coherence

namespace Refsapi.Entities

set_option autoImplicit false

variable {s s' : State} {trie : Trie}

/-! ## Data -/

def funcBuyzone : List Char := ['f', 'u', 'n', 'c', '_', 'b', 'u', 'y', 'z', 'o', 'n', 'e']

/-- `r_bMapHasBuyZone`, as `ServerActivate_Post` computes it. -/
def State.bMapHasBuyZone (s : State) : Bool := (s.entities funcBuyzone).isSome

/-- Every key has a value. -/
def NoEmpty (trie : Trie) : Prop := ∀ key, trie key ≠ some []

/-- A vector of the class index keeps an entity when it is pruned. -/
def LeavesSome (s : State) : Path → Prop
  | .global key => (s.vector (.global key)).filter s.keeps ≠ []
  | _ => True

/-- The step looks up only classes that are there, and prunes only vectors that keep an entity. -/
def Finds (s : State) : Action → Prop
  | .getEntByClass key owner maxSize =>
      (key.isEmpty || maxSize == 0) = false → LeavesSome s (s.path key owner)
  | .prune path => LeavesSome s path
  | .lookup key => s.entities key ≠ none
  | _ => True

/-! ## The operations -/

/-- A key that gets a new vector. -/
theorem NoEmpty.update_iff (noEmpty : NoEmpty trie) (key : List Char) (v : List Nat) :
    NoEmpty (Function.update trie key (some v)) ↔ v ≠ [] := by
  constructor
  · intro kept none
    exact kept key (by rw [Function.update_self, none])
  · intro some c
    by_cases here : c = key
    · subst here
      simpa using some
    · rw [Function.update_of_ne here]
      exact noEmpty c

theorem NoEmpty.trieAdd (noEmpty : NoEmpty trie) (key : List Char) (value : Nat) :
    NoEmpty (trieAdd trie key value) :=
  (noEmpty.update_iff key _).2 (by simp [vectorAdd])

/-- `trie_remove` takes the key with its last value. -/
theorem NoEmpty.trieRemove (noEmpty : NoEmpty trie) (key : List Char) (value : Nat) :
    NoEmpty (trieRemove trie key value) := by
  intro c
  unfold Entities.trieRemove
  cases trie key with
  | none => exact noEmpty c
  | some v =>
      by_cases here : c = key
      · subst here
        by_cases empty : vectorRemove v value = []
        · simp [empty]
        · simp [empty]
      · simpa [here] using noEmpty c

theorem NoEmpty.trieTransfer (noEmpty : NoEmpty s.entities) (keyFrom keyTo : List Char)
    (value : Nat) : NoEmpty (s.trieTransfer keyFrom keyTo value).entities :=
  (noEmpty.trieRemove keyFrom value).trieAdd keyTo value

theorem NoEmpty.refile (noEmpty : NoEmpty s.entities) (recorded : List Char) (entity : Nat) :
    NoEmpty (s.refile recorded entity).entities := by
  unfold State.refile
  split
  · exact noEmpty.trieTransfer _ _ _
  · exact noEmpty

theorem NoEmpty.alloc (noEmpty : NoEmpty s.entities) (index : Nat) :
    NoEmpty (s.alloc index).entities := by
  unfold State.alloc
  split
  · exact noEmpty
  · simp only
    split <;> exact noEmpty.trieAdd _ _

theorem NoEmpty.free (noEmpty : NoEmpty s.entities) (index : Nat) :
    NoEmpty (s.free index).entities := by
  have entities : (s.free index).entities = (s.unfile index).entities :=
    (unlist_frame (s.unfile index) index (s.freeKey index)).1
  rw [entities]
  unfold State.unfile
  simp only
  split
  · exact ((noEmpty.trieTransfer (s := s.setClassname index _) _ _ _)).trieRemove _ _
  · exact noEmpty.trieRemove _ _

/-- One induction over the loop of a query, whose turns transfer. -/
theorem NoEmpty.copyLoop {path : Path} {key : List Char} {maxSize : Nat} {v dest list : List Nat}
    (noEmpty : NoEmpty s.entities)
    (ends : State.copyLoop path key maxSize v dest s = some (list, s')) : NoEmpty s'.entities := by
  induction v generalizing dest s with
  | nil =>
      cases ends
      exact noEmpty
  | cons entity rest ih =>
      simp only [State.copyLoop] at ends
      split at ends
      · cases ends
      · next recorded _ =>
          have next := noEmpty.refile recorded entity
          split at ends
          · cases ends
          · split at ends
            · exact ih next ends
            · split at ends
              · cases ends
                exact next
              · exact ih next ends

theorem NoEmpty.prune_iff (noEmpty : NoEmpty s.entities) (path : Path) :
    NoEmpty (s.prune path).entities ↔ LeavesSome s path := by
  cases path with
  | global key => exact noEmpty.update_iff key _
  | player owner => exact iff_of_true noEmpty trivial
  | weapons => exact iff_of_true noEmpty trivial

/-- A query that prunes everything away leaves the empty vector. -/
theorem NoEmpty.copyEntities_iff {path : Path} {key : List Char} {maxSize : Nat}
    {list : List Nat} (noEmpty : NoEmpty s.entities)
    (ends : s.copyEntities path key maxSize = some (list, s')) :
    NoEmpty s'.entities ↔ LeavesSome s path := by
  by_cases leaves : LeavesSome s path
  · exact iff_of_true (NoEmpty.copyLoop ((noEmpty.prune_iff path).2 leaves) ends) leaves
  · have same : s' = s.prune path := by
      cases path with
      | global key =>
          have none : (s.prune (.global key)).vector (.global key) = [] := by
            simpa [LeavesSome, State.prune, State.vector, State.setVector] using leaves
          rw [State.copyEntities, none] at ends
          exact (Prod.mk.inj (Option.some.inj ends)).2.symm
      | player owner => exact absurd trivial leaves
      | weapons => exact absurd trivial leaves
    rw [same]
    exact noEmpty.prune_iff path

/-! ## The steps and the runs -/

/-- A step keeps the classes nonempty if and only if it finds what it looks up. -/
theorem noEmpty_step_iff {a : Action} (noEmpty : NoEmpty s.entities)
    (moved : step s a = some s') : NoEmpty s'.entities ↔ Finds s a := by
  cases a with
  | engine index p =>
      cases moved
      exact iff_of_true noEmpty trivial
  | alloc index =>
      simp only [step] at moved
      split at moved
      · cases moved
      · cases moved
        exact iff_of_true (noEmpty.alloc index) trivial
  | free index =>
      cases moved
      exact iff_of_true (noEmpty.free index) trivial
  | addPlayerItem player item =>
      simp only [step] at moved
      split at moved
      · cases moved
        exact iff_of_true noEmpty trivial
      · cases moved
  | removePlayerItem item =>
      cases moved
      refine iff_of_true ?_ trivial
      unfold State.removePlayerItem
      simp only
      split <;> exact noEmpty
  | getEntByClass key owner maxSize =>
      obtain ⟨⟨list, last⟩, ends, rfl⟩ := Option.map_eq_some_iff.1 moved
      unfold State.rfGetEntByClass at ends
      split at ends
      · next nothing =>
          cases ends
          exact iff_of_true noEmpty fun some => absurd nothing (by simp [some])
      · next asked =>
          rw [noEmpty.copyEntities_iff ends]
          exact ⟨fun leaves _ => leaves, fun leaves => leaves (Bool.eq_false_iff.2 asked)⟩
  | prune path =>
      cases moved
      exact noEmpty.prune_iff path
  | transfer entity =>
      simp only [step] at moved
      split at moved
      · cases moved
      · cases moved
        exact iff_of_true (noEmpty.trieTransfer _ _ _) trivial
  | lookup key =>
      cases moved
      refine (noEmpty.update_iff key _).trans ?_
      have filed := noEmpty key
      simp only [Finds]
      cases found : s.entities key with
      | none => simp
      | some v => simpa [found] using filed

theorem noEmpty_of_reaches (run : machine.Reaches Finds s) : NoEmpty s.entities := by
  refine Machine.Reaches.invariant (I := fun s => NoEmpty s.entities) ?_ ?_ run
  · rintro _ ⟨maxClients, edicts, rfl⟩ key none
    cases none
  · intro s a s' _ noEmpty finds moved
    exact (noEmpty_step_iff noEmpty moved).2 finds

/-- **Queries create no classes.**  In a run whose steps look up only classes that are there and
leave an entity in what they prune, every class has an entity, and `r_bMapHasBuyZone` says
whether one that is filed under `func_buyzone` is tracked. -/
theorem hasBuyZone_of_reaches (run : machine.Reaches Finds s) :
    (∀ key, s.entities key ≠ some []) ∧
      (s.bMapHasBuyZone = true ↔
        ∃ index, index ∈ filed s.entities funcBuyzone ∧ s.tracked index = true) := by
  have noEmpty := noEmpty_of_reaches run
  have coherent := coherent_of_run run.reachable
  refine ⟨noEmpty, ?_, ?_⟩
  · intro has
    obtain ⟨v, found⟩ := Option.isSome_iff_exists.1 has
    obtain ⟨index, rest, whole⟩ := List.exists_cons_of_ne_nil fun empty : v = [] =>
      noEmpty funcBuyzone (empty ▸ found)
    have member : index ∈ filed s.entities funcBuyzone := by
      rw [filed, found, whole]
      exact List.mem_cons_self
    have recorded := coherent.recorded funcBuyzone index member
    exact ⟨index, member, by rw [State.tracked, recorded]; rfl⟩
  · rintro ⟨index, member, -⟩
    cases found : s.entities funcBuyzone with
    | none =>
        rw [filed, found] at member
        cases member
    | some v => rw [State.bMapHasBuyZone, found]; rfl

/-- `Finds`, to be tested. -/
def finds (s : State) : Action → Bool
  | .getEntByClass key owner maxSize =>
      key.isEmpty || maxSize == 0 || leaves (s.path key owner)
  | .prune path => leaves path
  | .lookup key => (s.entities key).isSome
  | _ => true
where
  leaves : Path → Bool
    | .global key => !((s.vector (.global key)).filter s.keeps).isEmpty
    | _ => true

theorem leaves_sound {path : Path} (ok : finds.leaves s path = true) : LeavesSome s path := by
  cases path with
  | global key => simpa only [LeavesSome, finds.leaves, Bool.not_eq_eq_eq_not, Bool.not_true,
      List.isEmpty_eq_false_iff] using ok
  | player owner => exact trivial
  | weapons => exact trivial

theorem finds_sound (s : State) (a : Action) (ok : finds s a = true) : Finds s a := by
  cases a with
  | getEntByClass key owner maxSize =>
      intro asked
      rw [finds, asked, Bool.false_or] at ok
      exact leaves_sound ok
  | prune path => exact leaves_sound ok
  | lookup key => exact Option.isSome_iff_ne_none.1 ok
  | _ => trivial

/-- The edict of a buy zone. -/
def buyZone : Edict := { Edict.zero with privateData := true, classname := some funcBuyzone }

/-- A buy zone is allocated before a plugin asks for the class. -/
theorem hasBuyZone_of_reaches_asked : ∃ s : State, s.bMapHasBuyZone = true ∧
    (∀ key, s.entities key ≠ some []) ∧ (s.bMapHasBuyZone = true ↔
      ∃ index, index ∈ filed s.entities funcBuyzone ∧ s.tracked index = true) := by
  have ends : (machine.execIf finds (.zero 1 fun _ => .zero)
      [.engine 40 buyZone, .alloc 40, .getEntByClass funcBuyzone 0 4]).map
        State.bMapHasBuyZone = some true := by decide
  obtain ⟨s, run, has⟩ := Machine.exists_reaches (M := machine) finds_sound ⟨1, _, rfl⟩ ends
  exact ⟨s, has, hasBuyZone_of_reaches run⟩

/-- A plugin asks for the class before there is a buy zone. -/
theorem not_always_nonempty : ¬ ∀ s, machine.Reachable s → (∀ key, s.entities key ≠ some []) ∧
    (s.bMapHasBuyZone = true ↔
      ∃ index, index ∈ filed s.entities funcBuyzone ∧ s.tracked index = true) := by
  intro always
  have ends : (machine.exec (.zero 1 fun _ => .zero) [.getEntByClass funcBuyzone 0 4]).map
      (fun s => s.entities funcBuyzone == some []) = some true := by decide
  obtain ⟨s, run, empty⟩ := Machine.exists_reachable (M := machine) ⟨1, _, rfl⟩ ends
  exact (always s run).1 funcBuyzone (beq_iff_eq.1 empty)

end Refsapi.Entities
