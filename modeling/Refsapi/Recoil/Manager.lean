/-
# Recoil.Manager -- `recoil_mngr`, and the hooks that it sets

The manager scales what a shot does to the view of a player and to the spread of the
bullets.  The factor is that of the weapon if it carries one, else that of the cvar of
the weapon, else that of the cvar of all weapons; 1 is no factor.

The manager keeps pointers to the records of the cvars, which `clear_all` frees when the
map ends.  A `Record` names the map in which its record was made, so that one of an
earlier map is seen to be freed.
-/
import Refsapi.Cvars.Manager
import Refsapi.Misc.Edict

namespace Refsapi.Recoil

set_option autoImplicit false

/-! ## Data -/

/-- What cannot go well: a record is read that was freed, or a difference of two `int`s
is none. -/
inductive Fault where
  | dangling
  | overflow
  deriving DecidableEq, Repr

/-- An `m_cvar_t *`: the map in which its record was made, and its cvar. -/
structure Record where
  era : Nat
  cvar : Nat
  deriving DecidableEq, Repr

/-- The functions that are registered with hook chains of the game. -/
inductive Hook where
  | fireBullets3
  | fireBuckshots
  | fireBullets
  | postThink
  deriving DecidableEq, Repr

/-- `WeaponSlotInfo`, with the slot as its number. -/
structure SlotInfo where
  slot : Nat
  weaponName : Text

/-- What does not change: the engine, and `GetWeaponSlot` of the game. -/
structure Game where
  env : Cvars.Env
  slotInfo : Nat → Option SlotInfo

/-- `recoil_mngr`, the cvars, how many maps have ended and the registered hooks. -/
structure World where
  cvars : Cvars.State
  era : Nat
  maxClients : Nat
  impulseOffset : Int
  weaponRecoil : Nat → Option Record
  lastFired : Nat → Fp
  isEnabled : Bool
  hooks : List Hook

/-- A weapon: its `m_iId`, and what its edict has. -/
structure Weapon where
  mIId : Int
  iuser4 : Int
  impulse : Int
  fuser1 : Fp

/-- The `m_pActiveItem` of a player. -/
structure Item extends Weapon where
  isWeapon : Bool

structure Vec where
  x : Fp
  y : Fp
  z : Fp
  deriving DecidableEq

/-- What `think_post` reads of a player, and the `punchangle` that it writes. -/
structure Player where
  isBot : Bool
  isAlive : Bool
  entindex : Nat
  flLastFired : Fp
  activeItem : Option Item
  punchangle : Vec

def zero : Fp := .fin false 0

def one : Fp := .fin false 1

/-- `RECOIL_MAX` -/
def recoilMax : Fp := .fin false 100

/-- `RECOIL_LAST_FIRED_NONE` -/
def lastFiredNone : Fp := .fin true 15

/-- `WEAPON_P90`, the last of the weapons. -/
def weaponP90 : Nat := 30

/-- `PRIMARY_WEAPON_SLOT` and `PISTOL_SLOT` -/
def SlotInfo.firearm (info : SlotInfo) : Bool := info.slot = 1 || info.slot = 2

def Hook.all : List Hook := [.fireBullets3, .fireBuckshots, .fireBullets, .postThink]

/-- `v * fl`, and `v *= fl` component by component. -/
def Vec.scale (v : Vec) (fl : Fp) : Vec :=
  ⟨.mul binary32 v.x fl, .mul binary32 v.y fl, .mul binary32 v.z fl⟩

namespace World

/-! ## Switching on and off -/

/-- When the module is loaded: the constructor. -/
def loaded (cvars : Cvars.State) (maxClients : Nat) : World where
  cvars := cvars
  era := 0
  maxClients := maxClients
  impulseOffset := 0
  weaponRecoil := fun _ => none
  lastFired := fun _ => lastFiredNone
  isEnabled := false
  hooks := []

/-- `"wcs_recoil_"` -/
def cvarPrefix : Wide := "wcs_recoil_".toList

/-- `add` -/
def add (game : Game) (w : World) (weaponId : Nat) (weaponName : Text) : World :=
  let got := w.cvars.getName game.env (cvarPrefix ++ stows weaponName)
  { w with
    cvars := got.1
    weaponRecoil := Function.update w.weaponRecoil weaponId (got.2.map fun c => ⟨w.era, c⟩) }

/-- The round of the loop of `init` for a weapon. -/
def initWeapon (game : Game) (w : World) (weaponId : Nat) : World :=
  match game.slotInfo weaponId with
  | none => w
  | some info =>
      if info.firearm && !info.weaponName.isEmpty then w.add game weaponId info.weaponName else w

/-- `"weapon_all"` -/
def allName : Text := "weapon_all".toList.map fun c => .ofNat c.toNat

/-- `init` -/
def init (game : Game) (w : World) : World :=
  (List.range' 1 weaponP90).foldl (initWeapon game) (w.add game 0 allName)

/-- `disable` -/
def disable (w : World) : World :=
  if w.isEnabled then
    { w with isEnabled := false, hooks := Hook.all.foldl List.erase w.hooks }
  else w

/-- `enable` -/
def enable (game : Game) (w : World) (offset : Int) : World :=
  let w := if w.isEnabled then w.disable else w
  let w := w.init game
  { w with
    isEnabled := true
    impulseOffset := offset
    lastFired := fun _ => lastFiredNone
    hooks := w.hooks ++ Hook.all }

/-- `on_client_disconnected`, and `reset_player`. -/
def resetPlayer (w : World) (id : Nat) : World :=
  if isValidIndex w.maxClients id then
    { w with lastFired := Function.update w.lastFired id lastFiredNone }
  else w

/-- `ServerDeactivate_Post`: `disable`, and `clear_all` of the cvars. -/
def serverDeactivate (w : World) : World :=
  let w := w.disable
  { w with cvars := w.cvars.clearAll, era := w.era + 1 }

/-! ## The factor -/

/-- `m_cvar->cvar->value`, where the record has not been freed. -/
def value (w : World) (m : Record) : Except Fault Fp :=
  if m.era = w.era then
    match w.cvars.pCvar m.cvar, w.cvars.cvars[m.cvar]? with
    | some _, some cvar => .ok cvar.value
    | _, _ => .error .dangling
  else .error .dangling

/-- The factor that the cvar of an entry decides. -/
def cvarRecoil (w : World) (entry : Nat) : Except Fault (Option Fp) :=
  match w.weaponRecoil entry with
  | none => .ok none
  | some m => (w.value m).map fun v => if zero.le v && !v.equal one then some v else none

/-- The factor that the weapon carries. -/
def ownRecoil (w : World) (weapon : Weapon) : Except Fault (Option Fp) :=
  if 0 < w.impulseOffset then
    if weapon.iuser4 - w.impulseOffset < -2 ^ 31 then .error .overflow
    else if 0 ≤ weapon.iuser4 - w.impulseOffset && weapon.impulse = weapon.iuser4 &&
        zero.le weapon.fuser1 then .ok (some weapon.fuser1)
    else .ok none
  else .ok none

/-- The first of two sources that decides. -/
def orElse (first second : Except Fault (Option Fp)) : Except Fault (Option Fp) :=
  first.bind fun found => match found with
    | some r => .ok (some r)
    | none => second

/-- `get_weapon_recoil` -/
def getWeaponRecoil (w : World) (weapon : Option Weapon) : Except Fault Fp :=
  match weapon with
  | none => .ok one
  | some weapon =>
      if !w.isEnabled then .ok one
      else if weapon.mIId ≤ 0 || weaponP90 < weapon.mIId then .ok one
      else
        (orElse (w.ownRecoil weapon)
          (orElse (w.cvarRecoil weapon.mIId.toNat) (w.cvarRecoil 0))).map fun found =>
            let r := found.getD one
            if recoilMax.lt r then recoilMax else r

/-- `recoil >= 0.0f && recoil != 1.0f` -/
def scales (recoil : Fp) : Bool := zero.le recoil && !recoil.equal one

/-! ## The hooks -/

/-- The grenades, the knife and the bomb. -/
def noView : List Int := [4, 25, 9, 6, 29]

/-- The active item of the player is a weapon whose recoil is seen. -/
def seenItem (player : Player) : Option Item :=
  player.activeItem.filter fun item =>
    item.isWeapon && !(item.mIId ≤ 0 || weaponP90 < item.mIId) && !noView.contains item.mIId

/-- What `think_post` makes of the shot that it finds: the factor of the view, if it has
one. -/
def viewFactor (w : World) (player : Player) : Except Fault (Option Fp) :=
  match seenItem player with
  | none => .ok none
  | some item =>
      (w.getWeaponRecoil (some item.toWeapon)).map fun recoil =>
        if scales recoil then some recoil else none

/-- `think_post` finds a shot. -/
def findsShot (w : World) (player : Player) : Bool :=
  w.isEnabled && !player.isBot && player.isAlive && isValidIndex w.maxClients player.entindex &&
    !player.flLastFired.equal (w.lastFired player.entindex)

/-- `think_post`, with the factor of the view. -/
def thinkPost (w : World) (player : Player) : Except Fault (World × Option Fp) :=
  if w.findsShot player then
    let w := { w with
      lastFired := Function.update w.lastFired player.entindex player.flLastFired }
    (w.viewFactor player).map fun factor => (w, factor)
  else .ok (w, none)

/-- `RG_CBasePlayer_PostThink`, if the game calls it, and the `punchangle` that it leaves. -/
def postThink (w : World) (player : Player) : Except Fault (World × Vec) :=
  if w.hooks.contains .postThink then
    (w.thinkPost player).map fun (w, factor) =>
      (w, (factor.map player.punchangle.scale).getD player.punchangle)
  else .ok (w, player.punchangle)

end World

/-! ## The spread of the bullets -/

/-- `entvars_t *pevAttacker`: its `FL_CLIENT`, and what `UTIL_PlayerByIndexSafe` finds. -/
structure Attacker where
  isClient : Bool
  player : Option Player

/-- The active item, if it is a weapon. -/
def Player.weapon (player : Player) : Option Weapon :=
  (player.activeItem.filter Item.isWeapon).map Item.toWeapon

/-- `recoil_resolve_shooter`, of an entity that is a player or counts as none. -/
def resolveShooter (pevAttacker : Option Attacker) (pEntity : Option Player) : Option Player :=
  match (pevAttacker.filter Attacker.isClient).bind Attacker.player with
  | some player => some player
  | none => pEntity

/-- `recoil_scale_spread` -/
def scaleSpread (vecSpread : Vec) (recoil : Fp) : Vec :=
  if !zero.le recoil || recoil.equal one then vecSpread
  else vecSpread.scale (if recoilMax.lt recoil then recoilMax else recoil)

/-- `WEAPON_XM1014` and `WEAPON_M3` -/
def shotguns : List Int := [5, 21]

namespace World

/-- `RG_CBaseEntity_FireBullets3`, and the `flSpread` that it passes on. -/
def fireBullets3 (w : World) (pevAttacker : Option Attacker) (flSpread : Fp) : Except Fault Fp :=
  if w.hooks.contains .fireBullets3 then
    match ((pevAttacker.filter Attacker.isClient).bind Attacker.player).bind Player.weapon with
    | none => .ok flSpread
    | some weapon =>
        (w.getWeaponRecoil (some weapon)).map fun recoil =>
          if scales recoil then .mul binary32 flSpread recoil else flSpread
  else .ok flSpread

/-- `RG_CBaseEntity_FireBuckshots`, and the `vecSpread` that it passes on. -/
def fireBuckshots (w : World) (pevAttacker : Option Attacker) (pEntity : Option Player)
    (vecSpread : Vec) : Except Fault Vec :=
  if w.hooks.contains .fireBuckshots then
    match (resolveShooter pevAttacker pEntity).bind Player.weapon with
    | none => .ok vecSpread
    | some weapon => (w.getWeaponRecoil (some weapon)).map (scaleSpread vecSpread)
  else .ok vecSpread

/-- `RG_CBaseEntity_FireBullets`, which a tank calls as well. -/
def fireBullets (w : World) (pevAttacker : Option Attacker) (pEntity : Option Player)
    (vecSpread : Vec) : Except Fault Vec :=
  if w.hooks.contains .fireBullets then
    match (resolveShooter pevAttacker pEntity).bind Player.weapon with
    | none => .ok vecSpread
    | some weapon =>
        if shotguns.contains weapon.mIId then
          (w.getWeaponRecoil (some weapon)).map (scaleSpread vecSpread)
        else .ok vecSpread
  else .ok vecSpread

end World

end Refsapi.Recoil
