/-
# Entities.Give -- the transfer phase of `rf_transfer_items`

The phase walks over a copy of `player_entities` of the giver.  A weapon that is not in the mask is
passed to `RemovePlayerItem`.  When that succeeds, a weapon the receiver may not have is killed,
and any other one is passed to `AddPlayerItem` and attached to the receiver.  For an
`AddPlayerItem` that refuses there is no branch: the weapon stays alive, and no player holds it.

So the weapons are conserved if and only if no turn strands one in this way (`giveItems_iff`).

The game library is a parameter with a state of its own.  Of its calls it is only assumed what
they do to the item they are about, and that they leave any other item alone or take it from its
player and kill it, as the game does with a grenade that is used up.
-/
import Refsapi.Entities.Model
import Refsapi.Lib.Binary

namespace Refsapi.Entities

set_option autoImplicit false

/-! ## Data -/

/-- The fields of a `CBasePlayerWeapon` that the phase reads or writes. -/
structure Weapon where
  /-- what `IsWeapon` answers -/
  isWeapon : Bool
  iId : BitVec 32
  /-- what `PrimaryAmmoIndex` answers -/
  primaryAmmoIndex : Int
  flStartThrow : Fp
  flReleaseThrow : Fp
  flTimeWeaponIdle : Fp
  flNextPrimaryAttack : Fp
  flNextSecondaryAttack : Fp
  iWeaponState : BitVec 32

/-- The fields of a `CBasePlayer`. -/
structure Player where
  /-- `m_pActiveItem`, `none` for the null pointer -/
  activeItem : Option Nat
  rgAmmo : Nat → Int
  iTeam : Int
  /-- `edict()->v.button` -/
  button : BitVec 32
  flNextAttack : Fp
  hasC4 : Bool

/-- What the game keeps of an item.  `taken` is for the theorems: a `RemovePlayerItem` has removed
the item since the phase began. -/
structure Holding where
  /-- the player in whose list of items it is -/
  holder : Option Nat
  attached : Option Nat
  /-- `Kill` has been called -/
  killed : Bool
  taken : Bool
  deriving DecidableEq, Repr

/-- The state of the game, where `world` is what the phase does not look at. -/
structure Game (W : Type) where
  tries : State
  weapons : Nat → Weapon
  players : Nat → Player
  time : Fp
  bombDropped : Bool
  holdings : Nat → Holding
  world : W

/-- The calls of the game library, given a player and an item. -/
structure Library (W : Type) where
  removePlayerItem : Game W → Nat → Nat → Bool × Game W
  canHavePlayerItem : Game W → Nat → Nat → Bool
  addPlayerItem : Game W → Nat → Nat → Bool × Game W
  attachToPlayer : Game W → Nat → Nat → Game W
  getNextBestWeapon : Game W → Nat → Nat → Game W
  switchWeapon : Game W → Nat → Nat → Game W
  setBombIcon : Game W → Nat → Game W
  kill : Game W → Nat → Game W

/-- What the phase is asked for. -/
structure Give where
  /-- `params[arg_from]` -/
  giver : Nat
  /-- `params[arg_to]` -/
  receiver : Nat
  skipItems : BitVec 32
  force : Bool

/-- The loop between two turns; `activeItem` is the local `active_item`. -/
structure Hand (W : Type) where
  game : Game W
  activeItem : Option Nat

variable {W : Type}

/-! ## The phase -/

namespace Game

def setWeapon (g : Game W) (x : Nat) (item : Weapon) : Game W :=
  { g with weapons := Function.update g.weapons x item }

def setPlayer (g : Game W) (p : Nat) (player : Player) : Game W :=
  { g with players := Function.update g.players p player }

/-- Nothing is taken yet. -/
def openBook (g : Game W) : Game W :=
  { g with holdings := fun x => { g.holdings x with taken := false } }

end Game

/-- `RemovePlayerItem` with its hook. -/
def Library.remove (lib : Library W) (g : Game W) (player item : Nat) : Bool × Game W :=
  let origin := lib.removePlayerItem g player item
  if origin.1 then (true, { origin.2 with tries := origin.2.tries.removePlayerItem item })
  else origin

/-- `AddPlayerItem` with its hook. -/
def Library.add (lib : Library W) (g : Game W) (player item : Nat) : Bool × Game W :=
  let origin := lib.addPlayerItem g player item
  if origin.1 then (true, { origin.2 with tries := origin.2.tries.addPlayerItem player item })
  else origin

/-- `1 << m_iId`; a shift takes the low five bits of its count. -/
def Weapon.bit (item : Weapon) : BitVec 32 := 1#32 <<< (item.iId.toNat % 32)

/-- `WEAPON_HEGRENADE`, `WEAPON_FLASHBANG` or `WEAPON_SMOKEGRENADE`. -/
def Weapon.isGrenade (item : Weapon) : Bool :=
  item.bit &&& ((1#32 <<< 4) ||| (1#32 <<< 25) ||| (1#32 <<< 9)) != 0

/-- `WEAPON_C4`. -/
def Weapon.isC4 (item : Weapon) : Bool := item.bit &&& (1#32 <<< 6) != 0

namespace Give

def skips (r : Give) (item : Weapon) : Bool := item.bit &&& r.skipItems != 0

/-- The tests of a turn. -/
def passes (r : Give) (g : Game W) (x : Nat) : Bool :=
  (g.tries.edicts x).privateData && (g.tries.edicts x).owner == r.giver &&
    (g.weapons x).isWeapon && !r.skips (g.weapons x)

def bpAmmo (r : Give) (g : Game W) (x : Nat) : Int :=
  let ammoType := (g.weapons x).primaryAmmoIndex
  if ammoType ≥ 0 then max ((g.players r.giver).rgAmmo ammoType.toNat) 0 else 0

/-- The giver has a grenade in the hand. -/
def wields (r : Give) (g : Game W) (x : Nat) : Bool :=
  (g.weapons x).isGrenade && (g.players r.giver).activeItem == some x

/-- The grenade has been thrown, and it was the last one. -/
def thrown (r : Give) (g : Game W) (x : Nat) : Bool :=
  r.wields g x && (Fp.fin false 0).lt (g.weapons x).flReleaseThrow &&
    (g.weapons x).flTimeWeaponIdle.le g.time && r.bpAmmo g x == 0

/-- A grenade in the hand is not thrown any more: `WPNSTATE_SHIELD_DRAWN` and `IN_ATTACK` go. -/
def ready (r : Give) (g : Game W) (x : Nat) : Game W :=
  if r.wields g x then
    let item := g.weapons x
    let g := g.setWeapon x
      { item with
        flStartThrow := .fin false 0
        flReleaseThrow := .fin true 1
        iWeaponState := item.iWeaponState &&& ~~~(1#32 <<< 5)
        flTimeWeaponIdle := Fp.add binary32 g.time (Fp.ofRat binary32 (55 / 100))
        flNextPrimaryAttack := g.time
        flNextSecondaryAttack := g.time }
    let g := g.setPlayer r.giver
      { g.players r.giver with button := (g.players r.giver).button &&& ~~~1#32 }
    if (g.players r.receiver).activeItem == some x then
      g.setPlayer r.receiver { g.players r.receiver with flNextAttack := g.time }
    else g
  else g

/-- What follows an `AddPlayerItem` that succeeds. -/
def outfit (lib : Library W) (r : Give) (g : Game W) (x : Nat) (ammoType bpAmmo : Int) : Game W :=
  let g := lib.attachToPlayer g r.receiver x
  let g :=
    if bpAmmo > 0 then
      let player := g.players r.receiver
      g.setPlayer r.receiver
        { player with rgAmmo := Function.update player.rgAmmo ammoType.toNat bpAmmo }
    else g
  if (g.weapons x).isC4 && (g.players r.giver).iTeam == (g.players r.receiver).iTeam then
    let g := g.setPlayer r.receiver { g.players r.receiver with hasC4 := true }
    { lib.setBombIcon g r.receiver with bombDropped := false }
  else g

/-- `if (pl_from->m_pActiveItem == item) active_item = item`. -/
def track (r : Give) (l : Hand W) (x : Nat) : Hand W :=
  if (l.game.players r.giver).activeItem == some x then { l with activeItem := some x } else l

/-- `AddPlayerItem`, and what follows it. -/
def receive (lib : Library W) (r : Give) (g : Game W) (x : Nat) (ammoType bpAmmo : Int) : Game W :=
  let addition := lib.add g r.receiver x
  if addition.1 then r.outfit lib addition.2 x ammoType bpAmmo else addition.2

/-- From `RemovePlayerItem` to the end of a turn. -/
def handOver (lib : Library W) (r : Give) (l : Hand W) (x : Nat) (ammoType bpAmmo : Int) :
    Hand W :=
  let removal := lib.remove l.game r.giver x
  if removal.1 then
    if r.force || lib.canHavePlayerItem removal.2 r.receiver x then
      r.track { l with game := r.receive lib removal.2 x ammoType bpAmmo } x
    else { l with game := lib.kill removal.2 x }
  else r.track { l with game := removal.2 } x

/-- One turn. -/
def turn (lib : Library W) (r : Give) (l : Hand W) (x : Nat) : Hand W :=
  let g := l.game
  if r.passes g x then
    if r.thrown g x then { l with game := lib.getNextBestWeapon g r.giver x }
    else
      r.handOver lib { l with game := r.ready g x } x (g.weapons x).primaryAmmoIndex (r.bpAmmo g x)
  else l

/-- The loop over some of the items. -/
def walk (lib : Library W) (r : Give) (g : Game W) (items : List Nat) : Hand W :=
  items.foldl (r.turn lib) ⟨g.openBook, none⟩

/-- The phase. -/
def giveItems (lib : Library W) (r : Give) (g : Game W) : Game W :=
  let l := r.walk lib g (g.tries.playerEntities r.giver)
  match l.activeItem with
  | none => l.game
  | some x =>
      if (l.game.players r.receiver).activeItem == some x then l.game
      else lib.switchWeapon l.game r.receiver x

/-- `AddPlayerItem` refuses an item that has been removed and that the receiver may have, and it
leaves it alive. -/
def refuses (lib : Library W) (r : Give) (g : Game W) (x : Nat) : Bool :=
  let removal := lib.remove g r.giver x
  let addition := lib.add removal.2 r.receiver x
  removal.1 && (r.force || lib.canHavePlayerItem removal.2 r.receiver x) && !addition.1 &&
    !(addition.2.holdings x).killed

/-- A turn comes to such a refusal. -/
def strands (lib : Library W) (r : Give) (g : Game W) (x : Nat) : Bool :=
  r.passes g x && !r.thrown g x && r.refuses lib (r.ready g x) x

end Give

/-! ## What it is for -/

/-- An item is left alone: in the game, and in the books of the module. -/
structure Game.Same (g g' : Game W) (x : Nat) : Prop where
  holding : g'.holdings x = g.holdings x
  owner : (g'.tries.edicts x).owner = (g.tries.edicts x).owner
  listed : ∀ p, (g'.tries.playerEntities p).count x = (g.tries.playerEntities p).count x

/-- An item that a player holds is taken from it and killed. -/
structure Game.Destroyed (g g' : Game W) (x : Nat) : Prop where
  held : (g.holdings x).holder ≠ none
  gone : (g'.holdings x).holder = none
  killed : (g'.holdings x).killed = true
  taken : (g'.holdings x).taken = true

/-- What a call may do to an item it is not about. -/
def Game.Apart (g g' : Game W) (x : Nat) : Prop := g.Same g' x ∨ g.Destroyed g' x

/-- What the calls of the game library do to the items. -/
structure Library.Lawful (lib : Library W) : Prop where
  removed : ∀ g p x, (lib.removePlayerItem g p x).1 = true → (g.holdings x).holder = some p ∧
    (lib.removePlayerItem g p x).2.holdings x =
      { g.holdings x with holder := none, taken := true } ∧
    ∀ y ≠ x, g.Apart (lib.removePlayerItem g p x).2 y
  kept : ∀ g p x, (lib.removePlayerItem g p x).1 = false →
    ∀ y, g.Apart (lib.removePlayerItem g p x).2 y
  added : ∀ g p x, (lib.addPlayerItem g p x).1 = true →
    (lib.addPlayerItem g p x).2.holdings x = { g.holdings x with holder := some p } ∧
    ∀ y ≠ x, g.Apart (lib.addPlayerItem g p x).2 y
  refused : ∀ g p x, (lib.addPlayerItem g p x).1 = false →
    (∃ killed, (lib.addPlayerItem g p x).2.holdings x = { g.holdings x with killed := killed }) ∧
    ∀ y ≠ x, g.Apart (lib.addPlayerItem g p x).2 y
  attached : ∀ g p x, (lib.attachToPlayer g p x).holdings x =
      { g.holdings x with attached := some p } ∧
    ((lib.attachToPlayer g p x).tries.edicts x).owner = p ∧
    (∀ q, ((lib.attachToPlayer g p x).tries.playerEntities q).count x =
      (g.tries.playerEntities q).count x) ∧
    ∀ y ≠ x, g.Apart (lib.attachToPlayer g p x) y
  killed : ∀ g x, (lib.kill g x).holdings x = { g.holdings x with killed := true } ∧
    ∀ y ≠ x, g.Apart (lib.kill g x) y
  nextBest : ∀ (g : Game W) p x y, g.Apart (lib.getNextBestWeapon g p x) y
  switched : ∀ (g : Game W) p x y, g.Apart (lib.switchWeapon g p x) y
  icon : ∀ (g : Game W) p y, g.Apart (lib.setBombIcon g p) y

/-- A weapon that was taken is killed, or it belongs to the receiver. -/
def Give.Housed (r : Give) (g : Game W) (x : Nat) : Prop :=
  (g.holdings x).killed = true ∨
    (g.holdings x).holder = some r.receiver ∧ (g.holdings x).attached = some r.receiver ∧
    (g.tries.edicts x).owner = r.receiver ∧ x ∈ g.tries.playerEntities r.receiver

/-- Each weapon taken ends with the receiver or is killed, each weapon not taken stays where it
is, and no weapon that a player held is alive and held by nobody. -/
structure Conserved (r : Give) (g g' : Game W) : Prop where
  taken : ∀ x, (g'.holdings x).taken = true → r.Housed g' x
  stays : ∀ x, (g'.holdings x).taken = false → g.openBook.Same g' x
  nobody : ∀ x, (g.holdings x).holder ≠ none →
    (g'.holdings x).holder ≠ none ∨ (g'.holdings x).killed = true

/-- A weapon was taken, it is alive, and nobody holds it. -/
structure Stranded (g : Game W) (x : Nat) : Prop where
  taken : (g.holdings x).taken = true
  holder : (g.holdings x).holder = none
  alive : (g.holdings x).killed = false

/-! ## What the calls do to an item -/

variable {lib : Library W} {r : Give} {g g' g'' : Game W} {x y : Nat}

theorem Game.Same.refl (g : Game W) (x : Nat) : g.Same g x := ⟨rfl, rfl, fun _ => rfl⟩

theorem Game.Same.trans (first : g.Same g' x) (second : g'.Same g'' x) : g.Same g'' x :=
  ⟨second.holding.trans first.holding, second.owner.trans first.owner,
    fun p => (second.listed p).trans (first.listed p)⟩

theorem Game.Apart.trans (first : g.Apart g' x) (second : g'.Apart g'' x) : g.Apart g'' x := by
  rcases first with same | destroyed
  · rcases second with same' | destroyed'
    · exact .inl (same.trans same')
    · exact .inr { destroyed' with held := same.holding ▸ destroyed'.held }
  · rcases second with same' | destroyed'
    · exact .inr ⟨destroyed.held, same'.holding ▸ destroyed.gone, same'.holding ▸ destroyed.killed,
        same'.holding ▸ destroyed.taken⟩
    · exact absurd destroyed.gone destroyed'.held

theorem Game.Apart.taken (apart : g.Apart g' x) (taken : (g.holdings x).taken = true) :
    (g'.holdings x).taken = true := by
  rcases apart with same | destroyed
  · exact same.holding ▸ taken
  · exact destroyed.taken

theorem Give.Housed.apart (housed : r.Housed g x) (apart : g.Apart g' x) : r.Housed g' x := by
  rcases apart with same | destroyed
  · rcases housed with killed | ⟨holder, attached, owner, listed⟩
    · exact .inl (same.holding ▸ killed)
    · refine .inr ⟨same.holding ▸ holder, same.holding ▸ attached, same.owner.trans owner, ?_⟩
      rw [← List.count_pos_iff, same.listed]
      exact List.count_pos_iff.2 listed
  · exact .inl destroyed.killed

/-- What nobody holds is not destroyed. -/
theorem Stranded.apart (stranded : Stranded g x) (apart : g.Apart g' x) : Stranded g' x := by
  rcases apart with same | destroyed
  · exact ⟨same.holding ▸ stranded.taken, same.holding ▸ stranded.holder,
      same.holding ▸ stranded.alive⟩
  · exact absurd stranded.holder destroyed.held

/-- What changes neither what the game keeps of the items nor the books. -/
theorem Game.Apart.of_eq (holdings : g'.holdings = g.holdings) (tries : g'.tries = g.tries) :
    g.Apart g' x :=
  .inl ⟨by rw [holdings], by rw [tries], fun _ => by rw [tries]⟩

theorem ready_same (r : Give) (g : Game W) (x : Nat) :
    (r.ready g x).holdings = g.holdings ∧ (r.ready g x).tries = g.tries := by
  unfold Give.ready
  split
  · extract_lets item g1 g2
    split <;> exact ⟨rfl, rfl⟩
  · exact ⟨rfl, rfl⟩

/-- The hooks change the vectors at the item alone. -/
theorem count_removePlayerItem (s : State) (other : y ≠ x) (p : Nat) :
    ((s.removePlayerItem x).playerEntities p).count y = (s.playerEntities p).count y := by
  unfold State.removePlayerItem
  simp only
  split
  · by_cases same : p = (s.edicts x).owner
    · simp [State.setPlayerEntities, vectorRemove, same, List.count_erase_of_ne other]
    · simp [State.setPlayerEntities, same]
  · rfl

theorem count_addPlayerItem (s : State) (other : y ≠ x) (p q : Nat) :
    ((s.addPlayerItem q x).playerEntities p).count y = (s.playerEntities p).count y := by
  by_cases same : p = q
  · simp [State.addPlayerItem, State.setPlayerEntities, State.setEdict, vectorAdd, same,
      Ne.symm other]
  · simp [State.addPlayerItem, State.setPlayerEntities, State.setEdict, same]

theorem owner_removePlayerItem (s : State) (x y : Nat) :
    ((s.removePlayerItem x).edicts y).owner = (s.edicts y).owner := by
  unfold State.removePlayerItem
  simp only
  split <;> rfl

/-- An `AddPlayerItem` that succeeds lists the item, and makes the player its owner. -/
theorem addPlayerItem_self (s : State) (p x : Nat) :
    ((s.addPlayerItem p x).edicts x).owner = p ∧ x ∈ (s.addPlayerItem p x).playerEntities p := by
  simp [State.addPlayerItem, State.setPlayerEntities, State.setEdict, vectorAdd]

theorem owner_addPlayerItem (s : State) (other : y ≠ x) (p : Nat) :
    ((s.addPlayerItem p x).edicts y).owner = (s.edicts y).owner := by
  simp [State.addPlayerItem, State.setPlayerEntities, State.setEdict, other]

theorem remove_apart (lawful : lib.Lawful) (g : Game W) (p : Nat) (other : y ≠ x) :
    g.Apart (lib.remove g p x).2 y := by
  unfold Library.remove
  simp only
  split
  · next yes =>
      refine ((lawful.removed g p x yes).2.2 y other).trans (.inl ⟨rfl, ?_, ?_⟩)
      · exact owner_removePlayerItem _ x y
      · exact count_removePlayerItem _ other
  · next no => exact lawful.kept g p x (Bool.eq_false_of_not_eq_true no) y

theorem remove_yes (lawful : lib.Lawful) (g : Game W) (p x : Nat)
    (yes : (lib.remove g p x).1 = true) : (g.holdings x).holder = some p ∧
      (lib.remove g p x).2.holdings x = { g.holdings x with holder := none, taken := true } := by
  unfold Library.remove at yes ⊢
  simp only at yes ⊢
  split at yes
  · next removed =>
      rw [if_pos removed]
      obtain ⟨held, holding, -⟩ := lawful.removed g p x removed
      exact ⟨held, holding⟩
  · next kept => exact absurd yes kept

theorem remove_no (lawful : lib.Lawful) (g : Game W) (p x : Nat)
    (no : (lib.remove g p x).1 = false) : g.Apart (lib.remove g p x).2 x := by
  unfold Library.remove at no ⊢
  simp only at no ⊢
  split at no
  · cases no
  · next kept =>
      rw [if_neg kept]
      exact lawful.kept g p x no x

theorem add_apart (lawful : lib.Lawful) (g : Game W) (p : Nat) (other : y ≠ x) :
    g.Apart (lib.add g p x).2 y := by
  unfold Library.add
  simp only
  split
  · next yes =>
      refine ((lawful.added g p x yes).2 y other).trans (.inl ⟨rfl, ?_, fun q => ?_⟩)
      · exact owner_addPlayerItem _ other p
      · exact count_addPlayerItem _ other q p
  · next no => exact (lawful.refused g p x (Bool.eq_false_of_not_eq_true no)).2 y other

theorem add_yes (lawful : lib.Lawful) (g : Game W) (p x : Nat) (yes : (lib.add g p x).1 = true) :
    (lib.add g p x).2.holdings x = { g.holdings x with holder := some p } ∧
      ((lib.add g p x).2.tries.edicts x).owner = p ∧
      x ∈ (lib.add g p x).2.tries.playerEntities p := by
  unfold Library.add at yes ⊢
  simp only at yes ⊢
  split at yes
  · next added =>
      rw [if_pos added]
      exact ⟨(lawful.added g p x added).1, addPlayerItem_self _ p x⟩
  · next refused => exact absurd yes refused

theorem add_no (lawful : lib.Lawful) (g : Game W) (p x : Nat) (no : (lib.add g p x).1 = false) :
    ∃ killed, (lib.add g p x).2.holdings x = { g.holdings x with killed := killed } := by
  unfold Library.add at no ⊢
  simp only at no ⊢
  split at no
  · cases no
  · next refused =>
      rw [if_neg refused]
      exact (lawful.refused g p x no).1

/-! ## What a turn does -/

theorem track_game (r : Give) (l : Hand W) (x : Nat) : (r.track l x).game = l.game := by
  unfold Give.track
  split <;> rfl

/-- Behind `AttachToPlayer` no item is touched, but for the bomb icon. -/
theorem outfit_attached (lawful : lib.Lawful) (r : Give) (g : Game W) (x y : Nat)
    (ammoType bpAmmo : Int) :
    (lib.attachToPlayer g r.receiver x).Apart (r.outfit lib g x ammoType bpAmmo) y := by
  unfold Give.outfit
  extract_lets attached player armed owner bomb
  have ammo : attached.Apart armed y := by
    unfold armed
    split <;> exact .of_eq rfl rfl
  split
  · have bearer : armed.Apart bomb y := .of_eq rfl rfl
    have icon : bomb.Apart (lib.setBombIcon bomb r.receiver) y := lawful.icon bomb r.receiver y
    exact ((ammo.trans bearer).trans icon).trans (.of_eq rfl rfl)
  · exact ammo

theorem receive_other (lawful : lib.Lawful) (r : Give) (g : Game W) (ammoType bpAmmo : Int)
    (other : y ≠ x) : g.Apart (r.receive lib g x ammoType bpAmmo) y := by
  have added := add_apart lawful g r.receiver other
  unfold Give.receive
  extract_lets addition
  split
  · have attached := (lawful.attached addition.2 r.receiver x).2.2.2 y other
    exact (added.trans attached).trans (outfit_attached lawful r _ x y _ _)
  · exact added

/-- An item that has been removed belongs to the receiver, if the receiver takes it. -/
theorem receive_yes (lawful : lib.Lawful) (r : Give) (g : Game W) (x : Nat) (ammoType bpAmmo : Int)
    (taken : (g.holdings x).taken = true) (yes : (lib.add g r.receiver x).1 = true) :
    let g' := r.receive lib g x ammoType bpAmmo
    (g'.holdings x).taken = true ∧ r.Housed g' x := by
  obtain ⟨added, -, listed⟩ := add_yes lawful g r.receiver x yes
  obtain ⟨attached, owner, same, -⟩ := lawful.attached (lib.add g r.receiver x).2 r.receiver x
  have after := outfit_attached lawful r (lib.add g r.receiver x).2 x x ammoType bpAmmo
  unfold Give.receive
  simp only [yes, if_true]
  rw [added] at attached
  refine ⟨after.taken (by rw [attached]; exact taken), .apart (.inr ⟨?_, ?_, owner, ?_⟩) after⟩
  · rw [attached]
  · rw [attached]
  · rw [← List.count_pos_iff, same]
    exact List.count_pos_iff.2 listed

/-- If the receiver refuses it, it stays with nobody, alive or not. -/
theorem receive_no (lawful : lib.Lawful) (r : Give) (g : Game W) (x : Nat) (ammoType bpAmmo : Int)
    (taken : (g.holdings x).taken = true) (free : (g.holdings x).holder = none)
    (no : (lib.add g r.receiver x).1 = false) :
    let g' := r.receive lib g x ammoType bpAmmo
    g' = (lib.add g r.receiver x).2 ∧ (g'.holdings x).taken = true ∧
      (g'.holdings x).holder = none := by
  obtain ⟨killed, refused⟩ := add_no lawful g r.receiver x no
  have same : r.receive lib g x ammoType bpAmmo = (lib.add g r.receiver x).2 := by
    simp only [Give.receive, no]
    exact if_neg Bool.false_ne_true
  refine ⟨same, ?_, ?_⟩
  · rw [same, refused]
    exact taken
  · rw [same, refused]
    exact free

theorem handOver_game (lib : Library W) (r : Give) (l : Hand W) (x : Nat) (ammoType bpAmmo : Int) :
    (r.handOver lib l x ammoType bpAmmo).game =
      let removal := lib.remove l.game r.giver x
      if removal.1 then
        if r.force || lib.canHavePlayerItem removal.2 r.receiver x then
          r.receive lib removal.2 x ammoType bpAmmo
        else lib.kill removal.2 x
      else removal.2 := by
  unfold Give.handOver
  extract_lets removal
  split
  · split
    · exact track_game r _ x
    · rfl
  · exact track_game r _ x

theorem handOver_other (lawful : lib.Lawful) (r : Give) (l : Hand W) (ammoType bpAmmo : Int)
    (other : y ≠ x) : l.game.Apart (r.handOver lib l x ammoType bpAmmo).game y := by
  have removed := remove_apart lawful l.game r.giver other
  rw [handOver_game]
  extract_lets removal
  split
  · split
    · exact removed.trans (receive_other lawful r _ _ _ other)
    · exact removed.trans ((lawful.killed _ _).2 y other)
  · exact removed

/-- What becomes of the item of a turn: it is left alone, or it is taken off the giver; then it is
housed, unless the receiver refuses it. -/
theorem handOver_self (lawful : lib.Lawful) (r : Give) (l : Hand W) (x : Nat)
    (ammoType bpAmmo : Int) (ends : (r.handOver lib l x ammoType bpAmmo).game = g) :
    l.game.Apart g x ∧ r.refuses lib l.game x = false ∨
      (l.game.holdings x).holder = some r.giver ∧
        ((g.holdings x).taken = true ∧ r.Housed g x ∧ r.refuses lib l.game x = false ∨
          Stranded g x ∧ r.refuses lib l.game x = true) := by
  rw [handOver_game] at ends
  have no := remove_no lawful l.game r.giver x
  have yes := remove_yes lawful l.game r.giver x
  unfold Give.refuses
  generalize lib.remove l.game r.giver x = removal at *
  dsimp only at ends ⊢
  cases answer : removal.1 with
  | false =>
      rw [answer, if_neg Bool.false_ne_true] at ends
      exact .inl ⟨ends ▸ no answer, rfl⟩
  | true =>
      obtain ⟨held, removed⟩ := yes answer
      refine .inr ⟨held, ?_⟩
      have taken : (removal.2.holdings x).taken = true := by rw [removed]
      rw [if_pos answer] at ends
      cases allowed : r.force || lib.canHavePlayerItem removal.2 r.receiver x with
      | false =>
          rw [allowed, if_neg Bool.false_ne_true] at ends
          have killed : g.holdings x = { removal.2.holdings x with killed := true } :=
            ends ▸ (lawful.killed removal.2 x).1
          exact .inl ⟨by rw [killed]; exact taken, .inl (by rw [killed]), rfl⟩
      | true =>
          rw [if_pos allowed] at ends
          cases addition : (lib.add removal.2 r.receiver x).1 with
          | true =>
              have housed := receive_yes lawful r removal.2 x ammoType bpAmmo taken addition
              rw [ends] at housed
              exact .inl ⟨housed.1, housed.2, rfl⟩
          | false =>
              have free : (removal.2.holdings x).holder = none := by rw [removed]
              have refused :=
                receive_no lawful r removal.2 x ammoType bpAmmo taken free addition
              rw [ends] at refused
              obtain ⟨same, taken', free'⟩ := refused
              cases alive : ((lib.add removal.2 r.receiver x).2.holdings x).killed with
              | true => exact .inl ⟨taken', .inl (by rw [same]; exact alive), rfl⟩
              | false => exact .inr ⟨⟨taken', free', by rw [same]; exact alive⟩, rfl⟩

/-- A turn leaves every item but its own alone. -/
theorem turn_other (lawful : lib.Lawful) (r : Give) (l : Hand W) (other : y ≠ x) :
    l.game.Apart (r.turn lib l x).game y := by
  have readied : l.game.Apart (r.ready l.game x) y :=
    .of_eq (ready_same r l.game x).1 (ready_same r l.game x).2
  unfold Give.turn
  extract_lets g
  split
  · split
    · exact lawful.nextBest g r.giver x y
    · exact readied.trans
        (handOver_other lawful r { l with game := r.ready l.game x } _ _ other)
  · exact .inl (.refl _ _)

/-- What becomes of the item of a turn. -/
theorem turn_self (lawful : lib.Lawful) (r : Give) (l : Hand W) (x : Nat) :
    l.game.Apart (r.turn lib l x).game x ∧ r.strands lib l.game x = false ∨
      (l.game.holdings x).holder = some r.giver ∧
        ((((r.turn lib l x).game.holdings x).taken = true ∧ r.Housed (r.turn lib l x).game x) ∧
            r.strands lib l.game x = false ∨
          Stranded (r.turn lib l x).game x ∧ r.strands lib l.game x = true) := by
  obtain ⟨holdings, tries⟩ := ready_same r l.game x
  have readied : l.game.Apart (r.ready l.game x) x := .of_eq holdings tries
  unfold Give.turn Give.strands
  dsimp only
  cases passes : r.passes l.game x with
  | false => exact .inl ⟨.inl (.refl _ _), rfl⟩
  | true =>
      cases thrown : r.thrown l.game x with
      | true => exact .inl ⟨lawful.nextBest l.game r.giver x x, rfl⟩
      | false =>
          have self := handOver_self lawful r { l with game := r.ready l.game x } x
            (l.game.weapons x).primaryAmmoIndex (r.bpAmmo l.game x) rfl
          dsimp only at self
          rw [holdings] at self
          rcases self with ⟨apart, no⟩ | ⟨held, ⟨taken, housed, no⟩ | ⟨stranded, yes⟩⟩
          · exact .inl ⟨readied.trans apart, no⟩
          · exact .inr ⟨held, .inl ⟨⟨taken, housed⟩, no⟩⟩
          · exact .inr ⟨held, .inr ⟨stranded, yes⟩⟩

/-! ## What the loop does -/

/-- An item is where it was, or it was taken and is housed. -/
def Give.Settled (r : Give) (g g' : Game W) (x : Nat) : Prop :=
  (g'.holdings x).taken = false ∧ g.Same g' x ∨ (g'.holdings x).taken = true ∧ r.Housed g' x

theorem Give.Settled.apart (settled : r.Settled g g' x) (apart : g'.Apart g'' x) :
    r.Settled g g'' x := by
  rcases settled with ⟨open', same⟩ | ⟨taken, housed⟩
  · rcases apart with same' | destroyed
    · exact .inl ⟨same'.holding ▸ open', same.trans same'⟩
    · exact .inr ⟨destroyed.taken, .inl destroyed.killed⟩
  · exact .inr ⟨apart.taken taken, housed.apart apart⟩

/-- A turn that strands nothing keeps every item settled. -/
theorem Give.Settled.turn (lawful : lib.Lawful) {l : Hand W} {g : Game W}
    (settled : ∀ y, r.Settled g l.game y) (safe : r.strands lib l.game x = false) (y : Nat) :
    r.Settled g (r.turn lib l x).game y := by
  by_cases other : y = x
  · subst other
    rcases turn_self lawful r l y with ⟨apart, -⟩ | ⟨-, ⟨housed, -⟩ | ⟨-, strands⟩⟩
    · exact (settled y).apart apart
    · exact .inr housed
    · rw [safe] at strands
      cases strands
  · exact (settled y).apart (turn_other lawful r l other)

/-- What is stranded stays stranded: `RemovePlayerItem` does not find it. -/
theorem Stranded.turn (lawful : lib.Lawful) {l : Hand W} (stranded : Stranded l.game y) (x : Nat) :
    Stranded (r.turn lib l x).game y := by
  by_cases other : y = x
  · subst other
    rcases turn_self lawful r l y with ⟨apart, -⟩ | ⟨held, -⟩
    · exact stranded.apart apart
    · rw [stranded.holder] at held
      cases held
  · exact stranded.apart (turn_other lawful r l other)

/-- A loop no turn of which strands anything keeps every item settled. -/
theorem Give.Settled.foldl (lawful : lib.Lawful) {l : Hand W} {g : Game W} {items : List Nat}
    (settled : ∀ y, r.Settled g l.game y)
    (safe : ∀ before x after, items = before ++ x :: after →
      r.strands lib (before.foldl (r.turn lib) l).game x = false) (y : Nat) :
    r.Settled g (items.foldl (r.turn lib) l).game y := by
  induction items generalizing l with
  | nil => exact settled y
  | cons x rest ih =>
      refine ih (fun y => .turn lawful settled (safe [] x rest rfl) y) ?_
      intro before z after split
      exact safe (x :: before) z after (by rw [split]; rfl)

theorem Stranded.foldl (lawful : lib.Lawful) {l : Hand W} (stranded : Stranded l.game y)
    (items : List Nat) : Stranded (items.foldl (r.turn lib) l).game y := by
  induction items generalizing l with
  | nil => exact stranded
  | cons x rest ih => exact ih (stranded.turn lawful x)

/-- Behind the loop no item is touched, but for the switch of the weapon. -/
theorem giveItems_apart (lawful : lib.Lawful) (r : Give) (g : Game W) (y : Nat) :
    (r.walk lib g (g.tries.playerEntities r.giver)).game.Apart (r.giveItems lib g) y := by
  unfold Give.giveItems
  extract_lets l
  split
  · exact .inl (.refl _ _)
  · split
    · exact .inl (.refl _ _)
    · exact lawful.switched _ _ _ y

theorem Conserved.of_settled (settled : ∀ y, r.Settled g.openBook g' y) : Conserved r g g' := by
  refine ⟨fun x taken => ?_, fun x open' => ?_, fun x held => ?_⟩
  · rcases settled x with ⟨open', -⟩ | ⟨-, housed⟩
    · rw [taken] at open'
      cases open'
    · exact housed
  · rcases settled x with ⟨-, same⟩ | ⟨taken, -⟩
    · exact same
    · rw [taken] at open'
      cases open'
  · rcases settled x with ⟨-, same⟩ | ⟨-, killed | ⟨holder, -⟩⟩
    · left
      rw [same.holding]
      exact held
    · exact .inr killed
    · left
      rw [holder]
      exact Option.some_ne_none _

theorem Stranded.not_conserved (stranded : Stranded g' x) : ¬ Conserved r g g' := by
  intro conserved
  rcases conserved.taken x stranded.taken with killed | ⟨holder, -⟩
  · rw [stranded.alive] at killed
    cases killed
  · rw [stranded.holder] at holder
    cases holder

/-- **When the weapons are conserved.**  Every weapon taken from the giver ends with the receiver or
is killed, every weapon not taken stays, and none is alive with nobody, if and only if in no turn
`AddPlayerItem` refuses, and leaves alive, a weapon that `RemovePlayerItem` has removed and that the
receiver may have. -/
theorem giveItems_iff (lib : Library W) (lawful : lib.Lawful) (r : Give) (g : Game W) :
    Conserved r g (r.giveItems lib g) ↔
      ∀ before x after, g.tries.playerEntities r.giver = before ++ x :: after →
        r.strands lib (r.walk lib g before).game x = false := by
  constructor
  · intro conserved before x after split
    by_contra strands
    have stranded : Stranded (r.walk lib g (before ++ [x])).game x := by
      unfold Give.walk
      rw [List.foldl_append]
      rcases turn_self lawful r (r.walk lib g before) x with
        ⟨-, no⟩ | ⟨-, ⟨-, no⟩ | ⟨stranded, -⟩⟩
      · exact absurd no strands
      · exact absurd no strands
      · exact stranded
    have later : Stranded (r.walk lib g (g.tries.playerEntities r.giver)).game x := by
      rw [split, List.append_cons]
      unfold Give.walk
      rw [List.foldl_append]
      exact stranded.foldl lawful after
    exact (later.apart (giveItems_apart lawful r g x)).not_conserved conserved
  · intro safe
    have start (y : Nat) : r.Settled g.openBook g.openBook y := .inl ⟨rfl, .refl _ _⟩
    refine .of_settled fun y => ?_
    exact (Give.Settled.foldl lawful start safe y).apart (giveItems_apart lawful r g y)

/-! ## A game -/

def Game.setHolding (g : Game W) (x : Nat) (holding : Holding) : Game W :=
  { g with holdings := Function.update g.holdings x holding }

theorem setHolding_other (g : Game W) (holding : Holding) (other : y ≠ x) :
    g.Apart (g.setHolding x holding) y :=
  .inl ⟨Function.update_of_ne other _ _, rfl, fun _ => rfl⟩

/-- A player refuses a second item of a kind. -/
def shelf : Library Unit where
  removePlayerItem g p x :=
    if (g.holdings x).holder = some p then
      (true, g.setHolding x { g.holdings x with holder := none, taken := true })
    else (false, g)
  canHavePlayerItem _ _ _ := true
  addPlayerItem g p x :=
    if (g.tries.playerEntities p).any fun y => (g.weapons y).iId == (g.weapons x).iId then
      (false, g)
    else (true, g.setHolding x { g.holdings x with holder := some p })
  attachToPlayer g p x :=
    let g := g.setHolding x { g.holdings x with attached := some p }
    { g with tries := g.tries.setEdict x { g.tries.edicts x with owner := p } }
  getNextBestWeapon g _ _ := g
  switchWeapon g p x := g.setPlayer p { g.players p with activeItem := some x }
  setBombIcon g _ := g
  kill g x := g.setHolding x { g.holdings x with killed := true }

theorem shelf_lawful : shelf.Lawful where
  removed g p x yes := by
    simp only [shelf] at yes ⊢
    split at yes
    · next held =>
        rw [if_pos held]
        exact ⟨held, Function.update_self _ _ _, fun y other => setHolding_other g _ other⟩
    · cases yes
  kept g p x no y := by
    simp only [shelf] at no ⊢
    split at no
    · cases no
    · next free =>
        rw [if_neg free]
        exact .inl (.refl _ _)
  added g p x yes := by
    simp only [shelf] at yes ⊢
    split at yes
    · cases yes
    · next new =>
        rw [if_neg new]
        exact ⟨Function.update_self _ _ _, fun y other => setHolding_other g _ other⟩
  refused g p x no := by
    simp only [shelf] at no ⊢
    split at no
    · next second =>
        rw [if_pos second]
        exact ⟨⟨_, rfl⟩, fun y _ => .inl (.refl _ _)⟩
    · cases no
  attached g p x := by
    refine ⟨Function.update_self _ _ _, ?_, fun q => rfl,
      fun y other => .inl ⟨?_, ?_, fun _ => rfl⟩⟩
    · simp [shelf, State.setEdict]
    · exact Function.update_of_ne other _ _
    · simp [shelf, State.setEdict, Game.setHolding, other]
  killed g x := ⟨Function.update_self _ _ _, fun y other => setHolding_other g _ other⟩
  nextBest g p x y := .inl (.refl _ _)
  switched g p x y := .of_eq rfl rfl
  icon g p y := .inl (.refl _ _)

/-- Each player holds one item, and the items are of these kinds. -/
def knives (kind : Nat → BitVec 32) : Game Unit where
  tries :=
    { State.zero 2 (fun x => { Edict.zero with privateData := true, owner := x - 39 }) with
      playerEntities := fun p => [p + 39] }
  weapons x :=
    { isWeapon := true, iId := kind x, primaryAmmoIndex := -1, flStartThrow := .fin false 0
      flReleaseThrow := .fin false 0, flTimeWeaponIdle := .fin false 0
      flNextPrimaryAttack := .fin false 0, flNextSecondaryAttack := .fin false 0
      iWeaponState := 0 }
  players _ :=
    { activeItem := none, rgAmmo := fun _ => 0, iTeam := 1, button := 0
      flNextAttack := .fin false 0, hasC4 := false }
  time := .fin false 1
  bombDropped := false
  holdings x := ⟨some (x - 39), some (x - 39), false, false⟩
  world := ()

/-- Everything, and by force. -/
def giveAll : Give := { giver := 1, receiver := 2, skipItems := 0, force := true }

/-- Only the first item is a pistol. -/
def pistol (x : Nat) : BitVec 32 := if x = 40 then 16 else 29

/-- A pistol goes to a player with a knife. -/
theorem giveItems_iff_pistol :
    Conserved giveAll (knives pistol) (giveAll.giveItems shelf (knives pistol)) :=
  (giveItems_iff shelf shelf_lawful giveAll (knives pistol)).2 (by
    intro before x after split
    match before, split with
    | [], split =>
        obtain ⟨rfl, -⟩ := List.cons.inj split
        decide
    | [_], split => cases (List.cons.inj split).2
    | _ :: _ :: _, split => cases (List.cons.inj split).2)

/-- Of two players with a knife, one gives the knife to the other: it is held by nobody. -/
theorem not_always_conserved : ¬ ∀ (lib : Library Unit), lib.Lawful → ∀ (r : Give) (g : Game Unit),
    Conserved r g (r.giveItems lib g) := by
  intro always
  have conserved := always shelf shelf_lawful giveAll (knives fun _ => 29)
  rcases conserved.nobody 40 (by decide) with held | killed
  · revert held
    decide
  · revert killed
    decide

end Refsapi.Entities
