/-
# Entities.Secondary -- what a free leaves in the secondary indexes

`Free_EntPrivateData` takes an entity out of `wp_entities` if it has a weapon's
name then, and out of the list of the owner it has then, one occurrence each.
So a free is clean precisely when that is all there is (`clean_free_iff`).  In a
run in which a listed weapon keeps a weapon's name, a carried item keeps its
owner, and nothing is listed twice, every free is clean (`clean_of_reaches`).
-/
import Refsapi.Entities.Coherence

namespace Refsapi.Entities

set_option autoImplicit false

variable {s s' : State}

/-! ## One free -/

/-- The index is in no secondary index. -/
def Clean (s : State) (index : Nat) : Prop :=
  index ∉ s.wpEntities ∧
    ∀ player, isValidIndex s.maxClients player = true → index ∉ s.playerEntities player

/-- What a free removes is all there is: the entity is listed once as a weapon and is
freed under a weapon's name, and it is carried once, by the owner it has. -/
def ListedRight (s : State) (index : Nat) : Prop :=
  s.wpEntities.count index ≤ (isWeapon (s.freeKey index)).toNat ∧
    ∀ player, isValidIndex s.maxClients player = true →
      (s.playerEntities player).count index ≤ (player == (s.edicts index).owner).toNat

/-- The class index apart, nothing changes. -/
structure SameListed (s s' : State) : Prop where
  max : s'.maxClients = s.maxClients
  edicts : s'.edicts = s.edicts
  wp : s'.wpEntities = s.wpEntities
  players : s'.playerEntities = s.playerEntities

theorem sameListed_unfile (s : State) (index : Nat) : SameListed s (s.unfile index) := by
  unfold State.unfile
  simp only
  split <;> exact ⟨rfl, rfl, rfl, rfl⟩

theorem unlist_eq (s : State) (index : Nat) (key : List Char) :
    (s.unlist index key).maxClients = s.maxClients ∧ (s.unlist index key).edicts = s.edicts ∧
    (s.unlist index key).wpEntities =
      (if isWeapon key then s.wpEntities.erase index else s.wpEntities) ∧
    (s.unlist index key).playerEntities =
      if isValidIndex s.maxClients (s.edicts index).owner then
        Function.update s.playerEntities (s.edicts index).owner
          ((s.playerEntities (s.edicts index).owner).erase index)
      else s.playerEntities := by
  unfold State.unlist
  cases owned : isValidIndex s.maxClients (s.edicts index).owner <;> cases isWeapon key <;>
    simp [owned, State.setPlayerEntities, vectorRemove]

theorem free_eq (s : State) (index : Nat) :
    (s.free index).maxClients = s.maxClients ∧ (s.free index).edicts = s.edicts ∧
    (s.free index).wpEntities =
      (if isWeapon (s.freeKey index) then s.wpEntities.erase index else s.wpEntities) ∧
    (s.free index).playerEntities =
      if isValidIndex s.maxClients (s.edicts index).owner then
        Function.update s.playerEntities (s.edicts index).owner
          ((s.playerEntities (s.edicts index).owner).erase index)
      else s.playerEntities := by
  obtain ⟨max, edicts, wp, players⟩ := sameListed_unfile s index
  have unlisted := unlist_eq (s.unfile index) index (s.freeKey index)
  rw [max, edicts, wp, players] at unlisted
  exact unlisted

/-- The list of a player after a free. -/
theorem free_playerEntities (s : State) (index : Nat) {player : Nat}
    (valid : isValidIndex s.maxClients player = true) : (s.free index).playerEntities player =
      if player = (s.edicts index).owner then (s.playerEntities player).erase index
      else s.playerEntities player := by
  rw [(free_eq s index).2.2.2]
  by_cases owner : player = (s.edicts index).owner
  · rw [if_pos (owner ▸ valid), if_pos owner, ← owner, Function.update_self]
  · rw [if_neg owner]
    split
    · rw [Function.update_of_ne owner]
    · rfl

theorem mem_erase_iff_count {v : List Nat} {index : Nat} :
    index ∉ v.erase index ↔ v.count index ≤ 1 := by
  rw [← List.count_eq_zero, List.count_erase_self]
  omega

/-- **A free is clean precisely when the entity was listed right.** -/
theorem clean_free_iff (s : State) (index : Nat) :
    Clean (s.free index) index ↔ ListedRight s index := by
  obtain ⟨max, -, wp, -⟩ := free_eq s index
  unfold Clean ListedRight
  rw [wp, max]
  refine and_congr ?_ (forall₂_congr fun player valid => ?_)
  · cases isWeapon (s.freeKey index)
    · simp [List.count_eq_zero]
    · simpa using mem_erase_iff_count
  · rw [free_playerEntities s index valid]
    by_cases owner : player = (s.edicts index).owner
    · simpa [owner] using mem_erase_iff_count
    · have apart : (player == (s.edicts index).owner) = false := by simpa using owner
      simp [owner, apart, List.count_eq_zero]

/-! ## Runs in which entities are listed right -/

/-- Every entity is listed right, whatever is freed next. -/
structure Listed (s : State) : Prop where
  wpOnce : ∀ index, s.wpEntities.count index ≤ 1
  wpNamed : ∀ index ∈ s.wpEntities, ∃ name, (s.edicts index).classname = some name ∧
    isWeapon name = true
  once : ∀ player, isValidIndex s.maxClients player = true →
    ∀ index, (s.playerEntities player).count index ≤ 1
  owned : ∀ player, isValidIndex s.maxClients player = true →
    ∀ index ∈ s.playerEntities player, (s.edicts index).owner = player

theorem Listed.listedRight (listed : Listed s) (index : Nat) : ListedRight s index := by
  constructor
  · by_cases member : index ∈ s.wpEntities
    · obtain ⟨name, named, weapon⟩ := listed.wpNamed index member
      have key : s.freeKey index = name := by simp [State.freeKey, named]
      rw [key, weapon]
      exact listed.wpOnce index
    · rw [List.count_eq_zero_of_not_mem member]
      exact Nat.zero_le _
  · intro player valid
    by_cases member : index ∈ s.playerEntities player
    · rw [listed.owned player valid index member, beq_self_eq_true]
      exact listed.once player valid index
    · rw [List.count_eq_zero_of_not_mem member]
      exact Nat.zero_le _

/-- Entities may leave the lists. -/
theorem Listed.of_sublist (listed : Listed s) (max : s'.maxClients = s.maxClients)
    (edicts : s'.edicts = s.edicts) (wp : s'.wpEntities.Sublist s.wpEntities)
    (players : ∀ player, (s'.playerEntities player).Sublist (s.playerEntities player)) :
    Listed s' where
  wpOnce index := Nat.le_trans (wp.count_le index) (listed.wpOnce index)
  wpNamed index member := edicts ▸ listed.wpNamed index (wp.mem member)
  once player valid index :=
    Nat.le_trans ((players player).count_le index) (listed.once player (max ▸ valid) index)
  owned player valid index member :=
    edicts ▸ listed.owned player (max ▸ valid) index ((players player).mem member)

theorem Listed.of_same (listed : Listed s) (same : SameListed s s') : Listed s' :=
  listed.of_sublist same.max same.edicts (same.wp ▸ .refl _) fun player =>
    congrFun same.players player ▸ .refl _

theorem SameListed.trans {s₁ s₂ s₃ : State} (first : SameListed s₁ s₂) (second : SameListed s₂ s₃) :
    SameListed s₁ s₃ :=
  ⟨second.max.trans first.max, second.edicts.trans first.edicts, second.wp.trans first.wp,
    second.players.trans first.players⟩

theorem sameListed_refile (s : State) (recorded : List Char) (entity : Nat) :
    SameListed s (s.refile recorded entity) := by
  unfold State.refile
  split <;> exact ⟨rfl, rfl, rfl, rfl⟩

/-- The loop of a query touches only the class index. -/
theorem sameListed_copyLoop {path : Path} {key : List Char} {maxSize : Nat} {v dest list : List Nat}
    (ends : State.copyLoop path key maxSize v dest s = some (list, s')) : SameListed s s' := by
  induction v generalizing dest s with
  | nil =>
      cases ends
      exact ⟨rfl, rfl, rfl, rfl⟩
  | cons entity rest ih =>
      simp only [State.copyLoop] at ends
      split at ends
      · cases ends
      · next recorded _ =>
          have turn := sameListed_refile s recorded entity
          split at ends
          · cases ends
          · split at ends
            · exact turn.trans (ih ends)
            · split at ends
              · cases ends
                exact turn
              · exact turn.trans (ih ends)

theorem Listed.prune (listed : Listed s) (path : Path) : Listed (s.prune path) := by
  cases path with
  | player owner =>
      refine listed.of_sublist rfl rfl (.refl _) fun player => ?_
      by_cases here : player = owner
      · subst here
        simp [State.prune, State.setVector, State.setPlayerEntities, State.vector]
      · simp [State.prune, State.setVector, State.setPlayerEntities, here]
  | weapons => exact listed.of_sublist rfl rfl List.filter_sublist fun _ => .refl _
  | global key => exact listed.of_same ⟨rfl, rfl, rfl, rfl⟩

/-- The discipline: a listed weapon is only given weapons' names, a carried item keeps
its owner, and what is listed is not listed again. -/
def Disciplined (s : State) : Action → Prop
  | .engine index p =>
      (index ∈ s.wpEntities → ∃ name, p.classname = some name ∧ isWeapon name = true) ∧
        ∀ player, isValidIndex s.maxClients player = true → index ∈ s.playerEntities player →
          p.owner = player
  | .alloc index => index ∉ s.wpEntities
  | .addPlayerItem _ item => ∀ player, isValidIndex s.maxClients player = true →
      item ∉ s.playerEntities player
  | _ => True

theorem Listed.engine (listed : Listed s) {index : Nat} {p : Edict}
    (disciplined : Disciplined s (.engine index p)) : Listed (s.setEdict index p) := by
  obtain ⟨named, owned⟩ := disciplined
  refine ⟨listed.wpOnce, fun x member => ?_, listed.once, fun player valid x member => ?_⟩
  · by_cases here : x = index
    · subst here
      simpa [State.setEdict] using named member
    · simpa [State.setEdict, here] using listed.wpNamed x member
  · by_cases here : x = index
    · subst here
      simpa [State.setEdict] using owned player valid member
    · simpa [State.setEdict, here] using listed.owned player valid x member

theorem Listed.alloc (listed : Listed s) {index : Nat} (unlisted : index ∉ s.wpEntities) :
    Listed (s.alloc index) := by
  unfold State.alloc
  split
  · exact listed
  · next key named =>
      simp only
      split
      · next weapon =>
          refine ⟨fun x => ?_, fun x member => ?_, listed.once, listed.owned⟩
          · have before := listed.wpOnce x
            change (s.wpEntities ++ [index]).count x ≤ 1
            rw [List.count_append]
            by_cases here : x = index
            · subst here
              simp [List.count_eq_zero_of_not_mem unlisted]
            · have apart : [index].count x = 0 := by simp [Ne.symm here]
              omega
          · have member : x ∈ s.wpEntities ++ [index] := member
            rcases List.mem_append.1 member with old | new
            · exact listed.wpNamed x old
            · obtain rfl := List.mem_singleton.1 new
              exact ⟨key, named, weapon⟩
      · exact listed.of_same ⟨rfl, rfl, rfl, rfl⟩

theorem Listed.addPlayerItem (listed : Listed s) {player item : Nat}
    (unlisted : ∀ player, isValidIndex s.maxClients player = true →
      item ∉ s.playerEntities player) :
    Listed (s.addPlayerItem player item) := by
  have vector (k : Nat) : (s.addPlayerItem player item).playerEntities k =
      if k = player then s.playerEntities player ++ [item] else s.playerEntities k := by
    by_cases here : k = player
    · subst here
      simp [State.addPlayerItem, State.setEdict, State.setPlayerEntities, vectorAdd]
    · simp [State.addPlayerItem, State.setEdict, State.setPlayerEntities, here]
  have edict (x : Nat) : (s.addPlayerItem player item).edicts x =
      if x = item then { s.edicts item with owner := player } else s.edicts x := by
    by_cases here : x = item
    · subst here
      simp [State.addPlayerItem, State.setEdict, State.setPlayerEntities]
    · simp [State.addPlayerItem, State.setEdict, State.setPlayerEntities, here]
  refine ⟨listed.wpOnce, fun x member => ?_, fun k valid x => ?_, fun k valid x member => ?_⟩
  · rw [edict]
    split
    · next here => exact here ▸ listed.wpNamed x member
    · exact listed.wpNamed x member
  · have valid : isValidIndex s.maxClients k = true := valid
    rw [vector]
    split
    · next here =>
        subst here
        have before := listed.once k valid x
        rw [List.count_append]
        by_cases here : x = item
        · subst here
          simp [List.count_eq_zero_of_not_mem (unlisted k valid)]
        · have apart : [item].count x = 0 := by simp [Ne.symm here]
          omega
    · exact listed.once k valid x
  · have valid : isValidIndex s.maxClients k = true := valid
    rw [vector] at member
    rw [edict]
    by_cases this : x = item
    · subst this
      rw [if_pos rfl]
      split at member
      · next here => exact here.symm
      · exact absurd member (unlisted k valid)
    · rw [if_neg this]
      split at member
      · next here =>
          subst here
          exact listed.owned k valid x (by simpa [this] using member)
      · exact listed.owned k valid x member

theorem Listed.free (listed : Listed s) (index : Nat) : Listed (s.free index) := by
  obtain ⟨max, edicts, wp, players⟩ := free_eq s index
  refine listed.of_sublist max edicts ?_ fun player => ?_
  · rw [wp]
    split
    · exact List.erase_sublist
    · exact .refl _
  · rw [players]
    split
    · by_cases here : player = (s.edicts index).owner
      · rw [here, Function.update_self]
        exact List.erase_sublist
      · rw [Function.update_of_ne here]
    · exact .refl _

theorem Listed.step {a : Action} (listed : Listed s) (disciplined : Disciplined s a)
    (moved : step s a = some s') : Listed s' := by
  cases a with
  | engine index p =>
      cases moved
      exact listed.engine disciplined
  | alloc index =>
      simp only [Entities.step] at moved
      split at moved
      · cases moved
      · cases moved
        exact listed.alloc disciplined
  | free index =>
      cases moved
      exact listed.free index
  | addPlayerItem player item =>
      simp only [Entities.step] at moved
      split at moved
      · cases moved
        exact listed.addPlayerItem disciplined
      · cases moved
  | removePlayerItem item =>
      cases moved
      unfold State.removePlayerItem
      simp only
      split
      · refine listed.of_sublist rfl rfl (.refl _) fun player => ?_
        by_cases here : player = (s.edicts item).owner
        · subst here
          simpa [State.setPlayerEntities, vectorRemove] using List.erase_sublist
        · simp [State.setPlayerEntities, here]
      · exact listed
  | getEntByClass key owner maxSize =>
      obtain ⟨⟨list, last⟩, ends, rfl⟩ := Option.map_eq_some_iff.1 moved
      unfold State.rfGetEntByClass at ends
      split at ends
      · cases ends
        exact listed
      · exact (listed.prune _).of_same (sameListed_copyLoop ends)
  | prune path =>
      cases moved
      exact listed.prune path
  | transfer entity =>
      simp only [Entities.step] at moved
      split at moved
      · cases moved
      · cases moved
        exact listed.of_same ⟨rfl, rfl, rfl, rfl⟩
  | lookup key =>
      cases moved
      exact listed.of_same ⟨rfl, rfl, rfl, rfl⟩

/-- A disciplined run lists every entity right. -/
theorem listed_of_reaches (run : machine.Reaches Disciplined s) : Listed s := by
  refine Machine.Reaches.invariant ?_
    (fun _ _ _ _ listed disciplined moved => listed.step disciplined moved) run
  rintro _ ⟨maxClients, edicts, rfl⟩
  exact ⟨fun _ => Nat.zero_le 1, fun _ member => absurd member List.not_mem_nil,
    fun _ _ _ => Nat.zero_le 1, fun _ _ _ member => absurd member List.not_mem_nil⟩

/-- **No dangling secondary index.**  A free is clean precisely when the entity was
listed right; and in every state of a disciplined run every free is clean. -/
theorem free_clean (s : State) :
    (∀ index, Clean (s.free index) index ↔ ListedRight s index) ∧
      (machine.Reaches Disciplined s → ∀ index, Clean (s.free index) index) :=
  ⟨clean_free_iff s, fun run index =>
    (clean_free_iff s index).2 ((listed_of_reaches run).listedRight index)⟩

/-- A weapon's name. -/
def ak47 : List Char := wpClassPrefix ++ ['a', 'k', '4', '7']

/-- `Disciplined`, to be tested on a few players. -/
def disciplined (s : State) : Action → Bool
  | .engine index _ => index ∉ s.wpEntities && s.maxClients == 1 && index ∉ s.playerEntities 1
  | .alloc index => index ∉ s.wpEntities
  | .addPlayerItem _ item => s.maxClients == 1 && item ∉ s.playerEntities 1
  | _ => true

theorem disciplined_sound (s : State) (a : Action) (ok : disciplined s a = true) :
    Disciplined s a := by
  have only {player : Nat} (one : s.maxClients = 1)
      (valid : isValidIndex s.maxClients player = true) :
      player = 1 := by
    rw [isValidIndex_iff] at valid
    omega
  cases a with
  | engine index p =>
      simp only [disciplined, Bool.and_eq_true, decide_eq_true_eq, beq_iff_eq] at ok
      refine ⟨fun member => absurd member ok.1.1, fun player valid member => ?_⟩
      exact absurd (only ok.1.2 valid ▸ member) ok.2
  | alloc index => simpa [disciplined, Disciplined] using ok
  | addPlayerItem player item =>
      simp only [disciplined, Bool.and_eq_true, decide_eq_true_eq, beq_iff_eq] at ok
      exact fun player valid member => ok.2 (only ok.1 valid ▸ member)
  | _ => trivial

/-- A weapon is allocated and picked up; its free is clean. -/
theorem free_clean_pickedUp : ∃ s : State,
    (1 ∈ s.wpEntities ∧ 1 ∈ s.playerEntities 1) ∧ Clean (s.free 1) 1 := by
  have ends : (machine.execIf disciplined (.zero 1 fun _ => .zero)
      [.engine 1 { Edict.zero with classname := some ak47 }, .alloc 1, .addPlayerItem 1 1]).map
        (fun s => decide (1 ∈ s.wpEntities ∧ 1 ∈ s.playerEntities 1)) = some true := by decide
  obtain ⟨s, run, listed⟩ := Machine.exists_reaches (M := machine) disciplined_sound
    ⟨1, _, rfl⟩ ends
  exact ⟨s, of_decide_eq_true listed, (free_clean s).2 run 1⟩

/-- A weapon is renamed before it is freed, and stays in `wp_entities`. -/
theorem not_always_clean : ¬ ∀ s, machine.Reachable s → ∀ index s',
    machine.step s (.free index) = some s' → Clean s' index := by
  intro always
  have ends : (machine.exec (.zero 32 fun _ => .zero)
      [.engine 1 { Edict.zero with classname := some ak47 }, .alloc 1,
        .engine 1 { Edict.zero with classname := some ['x'] }]).map
        (fun s => decide (1 ∈ (s.free 1).wpEntities)) = some true := by decide
  obtain ⟨s, run, stays⟩ := Machine.exists_reachable (M := machine) ⟨32, _, rfl⟩ ends
  exact (always s run 1 _ rfl).1 (of_decide_eq_true stays)

end Refsapi.Entities
