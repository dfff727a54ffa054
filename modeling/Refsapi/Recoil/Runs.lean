/-
# Recoil.Runs -- runs of the manager, and the records that it keeps

Maps end, plugins switch the manager on and off and call `cvar_mngr`, players spawn, leave
and shoot, and `think_post` looks for shots.  `enable` fills the entries again, so while
the manager is on each of them is that of a record of this map (`World.Sound`).
-/
import Refsapi.Cvars.Records
import Refsapi.Recoil.Manager

namespace Refsapi.Recoil

set_option autoImplicit false

/-! ## Runs -/

/-- The world, the `m_flLastFired` of each player, how often the game has set it, how often
the slot has been reset and how often the view has been scaled. -/
structure Watched where
  world : World
  fired : Nat → Fp
  shots : Nat → Nat
  resets : Nat → Nat
  scaled : Nat → Nat

inductive Action where
  | cvar (a : Cvars.Action)
  | enable (offset : Int)
  | disable
  | deactivate
  | reset (id : Nat)
  | shoot (id : Nat) (time : Fp)
  | think (player : Player)

/-- One more of what is counted for a player. -/
def count (counts : Nat → Nat) (id : Nat) : Nat → Nat :=
  Function.update counts id (counts id + 1)

/-- The time of a shot is a number. -/
def Watched.step (game : Game) (run : Cvars.Forwards) (x : Watched) : Action → Option Watched
  | .cvar a => (x.world.cvars.step game.env run a).map fun cvars =>
      { x with world := { x.world with cvars := cvars } }
  | .enable offset =>
      some { x with world := x.world.enable game offset, resets := fun id => x.resets id + 1 }
  | .disable => some { x with world := x.world.disable }
  | .deactivate => some { x with world := x.world.serverDeactivate }
  | .reset id => some { x with world := x.world.resetPlayer id, resets := count x.resets id }
  | .shoot id time =>
      if time.equal time then
        some { x with fired := Function.update x.fired id time, shots := count x.shots id }
      else none
  | .think player =>
      if player.flLastFired = x.fired player.entindex then
        if x.world.hooks.contains .postThink then
          (x.world.thinkPost player).toOption.map fun (w, factor) =>
            { x with
              world := w
              scaled := if factor.isSome then count x.scaled player.entindex else x.scaled }
        else some x
      else none

/-- The server has been started, and nothing is tracked. -/
structure Watched.Starts (game : Game) (x : Watched) : Prop where
  world : ∃ cvars maxClients, cvars.Fresh game.env ∧ x.world = World.loaded cvars maxClients
  fired : ∀ id, (x.fired id).equal (x.fired id) = true
  scaled : ∀ id, x.scaled id = 0

def machine (game : Game) (run : Cvars.Forwards) : Machine Watched Action where
  init := Watched.Starts game
  step := Watched.step game run

/-! ## The records that are kept -/

variable {game : Game} {run : Cvars.Forwards} {w w' : World}

/-- `init` has an entry for the weapon. -/
def Game.listed (game : Game) (weaponId : Nat) : Bool :=
  match game.slotInfo weaponId with
  | none => false
  | some info => info.firearm && !info.weaponName.isEmpty

/-- The entries that have been made in this map have their records. -/
structure World.Filled (made : Nat → Prop) (w : World) : Prop where
  holding : w.cvars.Holding fun c => ∃ i m, made i ∧ w.weaponRecoil i = some m ∧ m.cvar = c
  era : ∀ i m, made i → w.weaponRecoil i = some m → m.era = w.era

theorem World.Filled.mono {made fewer : Nat → Prop} (filled : w.Filled made)
    (sub : ∀ i m, w.weaponRecoil i = some m → fewer i → made i) : w.Filled fewer where
  holding := filled.holding.mono fun _ ⟨i, m, isMade, entry, same⟩ =>
    ⟨i, m, sub i m entry isMade, entry, same⟩
  era i m isMade entry := filled.era i m (sub i m entry isMade) entry

theorem World.Filled.none (holding : w.cvars.Holding fun _ => False) :
    w.Filled fun _ => False where
  holding := holding.mono fun _ ⟨_, _, made, _⟩ => made
  era _ _ made := made.elim

/-- `add` makes an entry. -/
theorem World.Filled.add {made : Nat → Prop} (filled : w.Filled made) (weaponId : Nat)
    (weaponName : Text) :
    (w.add game weaponId weaponName).Filled fun i => made i ∨ i = weaponId := by
  have got := @Cvars.State.Holding.getName game.env _ _ filled.holding
    (World.cvarPrefix ++ stows weaponName)
  have isRecord := @Cvars.State.Holding.isSome_getName game.env _ _ filled.holding
    (World.cvarPrefix ++ stows weaponName)
  unfold World.add
  generalize w.cvars.getName game.env (World.cvarPrefix ++ stows weaponName) = answer
    at got isRecord
  have entry (i : Nat) (m : Record) (found : Function.update w.weaponRecoil weaponId
      (answer.2.map fun c => ⟨w.era, c⟩) i = some m) :
      (i = weaponId ∧ answer.2 = some m.cvar ∧ m.era = w.era) ∨
        (i ≠ weaponId ∧ w.weaponRecoil i = some m) := by
    rw [Function.update_apply] at found
    split at found
    · next same =>
        obtain ⟨c, isCvar, rfl⟩ := Option.map_eq_some_iff.1 found
        exact .inl ⟨same, isCvar, rfl⟩
    · next unlike => exact .inr ⟨unlike, found⟩
  refine ⟨⟨got.listed, got.known, ?_⟩, ?_⟩
  · rintro c ⟨i, m, isMade, found, rfl⟩
    rcases entry i m found with ⟨_, isCvar, _⟩ | ⟨other, old⟩
    · exact isRecord isCvar
    · exact got.kept m.cvar ⟨i, m, isMade.resolve_right other, old, rfl⟩
  · intro i m isMade found
    rcases entry i m found with ⟨_, _, era⟩ | ⟨other, old⟩
    · exact era
    · exact filled.era i m (isMade.resolve_right other) old

theorem exists_initWeapon {weaponId : Nat} (listed : game.listed weaponId = true) :
    ∃ name, w.initWeapon game weaponId = w.add game weaponId name := by
  unfold Game.listed at listed
  unfold World.initWeapon
  cases found : game.slotInfo weaponId with
  | none =>
      rw [found] at listed
      cases listed
  | some info =>
      rw [found] at listed
      exact ⟨info.weaponName, if_pos listed⟩

theorem initWeapon_of_unlisted {weaponId : Nat} (unlisted : ¬ game.listed weaponId = true) :
    w.initWeapon game weaponId = w := by
  unfold Game.listed at unlisted
  unfold World.initWeapon
  cases found : game.slotInfo weaponId with
  | none => rfl
  | some info =>
      rw [found] at unlisted
      exact if_neg unlisted

theorem World.Filled.initWeapons {made : Nat → Prop} (filled : w.Filled made) (ids : List Nat) :
    (ids.foldl (World.initWeapon game) w).Filled
      fun i => made i ∨ i ∈ ids ∧ game.listed i = true := by
  induction ids generalizing w made with
  | nil =>
      refine filled.mono fun i _ _ isMade => Or.resolve_right isMade ?_
      rintro ⟨member, _⟩
      exact List.not_mem_nil member
  | cons id rest ih =>
      have first : (w.initWeapon game id).Filled
          fun i => made i ∨ i = id ∧ game.listed id = true := by
        by_cases listed : game.listed id = true
        · obtain ⟨name, same⟩ := exists_initWeapon (w := w) listed
          rw [same]
          exact (filled.add id name).mono fun _ _ _ isMade => Or.imp_right And.left isMade
        · rw [initWeapon_of_unlisted listed]
          refine filled.mono fun _ _ _ isMade => Or.resolve_right isMade ?_
          rintro ⟨_, passes⟩
          exact listed passes
      refine (ih first).mono fun i m _ isMade => ?_
      rcases isMade with old | ⟨member, listed⟩
      · exact .inl (.inl old)
      · rcases List.mem_cons.1 member with rfl | later
        · exact .inl (.inr ⟨rfl, listed⟩)
        · exact .inr ⟨later, listed⟩

/-- The entries are those that `init` makes. -/
def World.Stays (game : Game) (w : World) : Prop :=
  ∀ i m, w.weaponRecoil i = some m →
    i = 0 ∨ i ∈ List.range' 1 weaponP90 ∧ game.listed i = true

theorem World.Stays.add (stays : w.Stays game) {weaponId : Nat}
    (listed : weaponId = 0 ∨ weaponId ∈ List.range' 1 weaponP90 ∧ game.listed weaponId = true)
    (weaponName : Text) : (w.add game weaponId weaponName).Stays game := by
  intro i m found
  change Function.update w.weaponRecoil weaponId _ i = some m at found
  rw [Function.update_apply] at found
  split at found
  · next same => exact same ▸ listed
  · exact stays i m found

theorem World.Stays.init (stays : w.Stays game) : (w.init game).Stays game := by
  have rounds (ids : List Nat) (inside : ids ⊆ List.range' 1 weaponP90) (w : World)
      (stays : w.Stays game) : (ids.foldl (World.initWeapon game) w).Stays game := by
    induction ids generalizing w with
    | nil => exact stays
    | cons id rest ih =>
        obtain ⟨first, others⟩ := List.cons_subset.1 inside
        refine ih others _ ?_
        by_cases listed : game.listed id = true
        · obtain ⟨name, same⟩ := exists_initWeapon (w := w) listed
          rw [same]
          exact stays.add (.inr ⟨first, listed⟩) name
        · rw [initWeapon_of_unlisted listed]
          exact stays
  exact rounds _ (List.Subset.refl _) _ (stays.add (.inl rfl) _)

/-- After `init` every entry has its record. -/
theorem World.Filled.init {made : Nat → Prop} (filled : w.Filled made) (stays : w.Stays game) :
    (w.init game).Filled fun _ => True := by
  refine ((filled.add 0 allName).initWeapons (List.range' 1 weaponP90)).mono fun i m found _ => ?_
  rcases stays.init i m found with rfl | listed
  · exact .inl (.inr rfl)
  · exact .inr listed

/-! ## The invariant of the manager -/

/-- The hooks are set while the manager is on, and then no entry dangles. -/
structure World.Sound (game : Game) (w : World) : Prop where
  hooked : w.hooks = if w.isEnabled then Hook.all else []
  filled : w.Filled fun _ => w.isEnabled = true
  stays : w.Stays game

theorem sound_loaded {cvars : Cvars.State} (fresh : cvars.Fresh game.env) (maxClients : Nat) :
    (World.loaded cvars maxClients).Sound game where
  hooked := rfl
  filled := (World.Filled.none (Cvars.holding_fresh fresh)).mono fun _ _ _ on => by cases on
  stays _ _ found := by cases found

theorem World.Sound.disable (sound : w.Sound game) : w.disable.Sound game := by
  unfold World.disable
  split
  · next on =>
      refine ⟨?_, ⟨sound.filled.holding.mono ?_, ?_⟩, sound.stays⟩
      · show Hook.all.foldl List.erase w.hooks = []
        rw [sound.hooked, if_pos on]
        decide
      · rintro _ ⟨_, _, off, _⟩
        cases off
      · intro _ _ off
        cases off
  · exact sound

theorem isEnabled_disable (w : World) : w.disable.isEnabled = false := by
  unfold World.disable
  split
  · rfl
  · next off => exact Bool.eq_false_iff.2 off

theorem hooks_initWeapons (ids : List Nat) :
    (ids.foldl (World.initWeapon game) w).hooks = w.hooks := by
  induction ids generalizing w with
  | nil => rfl
  | cons id rest ih =>
      rw [List.foldl_cons, ih]
      by_cases listed : game.listed id = true
      · obtain ⟨name, same⟩ := exists_initWeapon (w := w) listed
        rw [same]
        rfl
      · rw [initWeapon_of_unlisted listed]

theorem World.Sound.enable (sound : w.Sound game) (offset : Int) :
    (w.enable game offset).Sound game := by
  have off : (if w.isEnabled then w.disable else w).Sound game ∧
      (if w.isEnabled then w.disable else w).isEnabled = false := by
    split
    · exact ⟨sound.disable, isEnabled_disable w⟩
    · next off => exact ⟨sound, Bool.eq_false_iff.2 off⟩
  unfold World.enable
  generalize (if w.isEnabled then w.disable else w) = v at off
  obtain ⟨before, isOff⟩ := off
  have filled := before.filled.init before.stays
  refine ⟨?_, ⟨filled.holding.mono ?_, fun i m _ => filled.era i m trivial⟩, before.stays.init⟩
  swap
  · rintro c ⟨i, m, _, entry, same⟩
    exact ⟨i, m, trivial, entry, same⟩
  show (v.init game).hooks ++ Hook.all = Hook.all
  rw [World.init, hooks_initWeapons]
  show v.hooks ++ Hook.all = Hook.all
  rw [before.hooked, isOff]
  rfl

theorem World.Sound.serverDeactivate (sound : w.Sound game) : w.serverDeactivate.Sound game where
  hooked := sound.disable.hooked
  filled := by
    have isOff : w.serverDeactivate.isEnabled = false := isEnabled_disable w
    refine ⟨⟨?_, ?_, ?_⟩, ?_⟩
    · intro _ _ found
      cases found
    · intro _ found
      cases found
    · rintro _ ⟨_, _, on, _⟩
      rw [isOff] at on
      cases on
    · intro _ _ on
      rw [isOff] at on
      cases on
  stays := sound.disable.stays

/-- A change that leaves the entries and the hooks as they are. -/
theorem World.Sound.setLastFired (sound : w.Sound game) (lastFired : Nat → Fp) :
    World.Sound game { w with lastFired := lastFired } :=
  ⟨sound.hooked, ⟨sound.filled.holding, sound.filled.era⟩, sound.stays⟩

theorem World.Sound.resetPlayer (sound : w.Sound game) (id : Nat) :
    (w.resetPlayer id).Sound game := by
  unfold World.resetPlayer
  split
  · exact sound.setLastFired _
  · exact sound

/-- What `think_post` does to the world: it notes the time of the shot that it finds. -/
theorem thinkPost_cases {player : Player} {factor : Option Fp}
    (thinks : w.thinkPost player = .ok (w', factor)) :
    (w.findsShot player = true ∧ w' = { w with
        lastFired := Function.update w.lastFired player.entindex player.flLastFired }) ∨
      (w.findsShot player = false ∧ w' = w ∧ factor = none) := by
  unfold World.thinkPost at thinks
  split at thinks
  · next finds =>
      simp only at thinks
      generalize World.viewFactor _ player = view at thinks
      cases view with
      | error fault => cases thinks
      | ok found =>
          cases thinks
          exact .inl ⟨finds, rfl⟩
  · next misses =>
      cases thinks
      exact .inr ⟨Bool.eq_false_iff.2 misses, rfl, rfl⟩

/-! ## Every state of a run -/

theorem sound_of_step (hooks : ∀ held, Cvars.Holds run held) {x x' : Watched} {a : Action}
    (sound : x.world.Sound game) (moved : x.step game run a = some x') : x'.world.Sound game := by
  cases a with
  | cvar a =>
      obtain ⟨cvars, called, rfl⟩ := Option.map_eq_some_iff.1 moved
      have holding := Cvars.holding_of_step (hooks _) sound.filled.holding called
      exact ⟨sound.hooked, ⟨holding, sound.filled.era⟩, sound.stays⟩
  | enable offset =>
      cases moved
      exact sound.enable offset
  | disable =>
      cases moved
      exact sound.disable
  | deactivate =>
      cases moved
      exact sound.serverDeactivate
  | reset id =>
      cases moved
      exact sound.resetPlayer id
  | shoot id time =>
      simp only [Watched.step] at moved
      split at moved
      · cases moved
        exact sound
      · cases moved
  | think player =>
      simp only [Watched.step] at moved
      split at moved
      · split at moved
        · generalize thinks : x.world.thinkPost player = thought at moved
          cases thought with
          | error fault => cases moved
          | ok next =>
              cases moved
              rcases thinkPost_cases thinks with ⟨_, same⟩ | ⟨_, same, _⟩
              · show World.Sound game next.1
                rw [same]
                exact sound.setLastFired _
              · show World.Sound game next.1
                rw [same]
                exact sound
        · cases moved
          exact sound
      · cases moved

theorem sound_of_reachable (hooks : ∀ held, Cvars.Holds run held) {x : Watched}
    (reached : (machine game run).Reachable x) : x.world.Sound game := by
  refine Machine.Reaches.invariant (I := fun x => x.world.Sound game) (fun x starts => ?_)
    (fun _ _ _ _ sound _ moved => sound_of_step hooks sound moved) reached
  obtain ⟨cvars, maxClients, fresh, same⟩ := starts.world
  rw [same]
  exact sound_loaded fresh maxClients

end Refsapi.Recoil
