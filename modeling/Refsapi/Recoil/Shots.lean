/-
# Recoil.Shots -- what a shot is multiplied with, and how often

* `recoil_sound`: a record that `clear_all` freed is never read, the only fault left is
  the difference of `get_weapon_recoil`, and what the hooks multiply with is between 0
  and 100;
* `view_once`: the view of a player is scaled at most once for each time that the game
  sets `m_flLastFired` or the slot is reset.
-/
import Refsapi.Recoil.Runs

namespace Refsapi.Recoil

set_option autoImplicit false

variable {game : Game} {run : Cvars.Forwards} {w w' : World}

/-! ## The factor -/

/-- What a shot may be multiplied with. -/
def Factor (recoil : Fp) : Prop := zero.le recoil = true ∧ recoil.le recoilMax = true

instance (recoil : Fp) : Decidable (Factor recoil) := instDecidableAnd

theorem factor_one : Factor one := by decide

/-- No NaN is a factor. -/
theorem le_recoilMax {recoil : Fp} (nonneg : zero.le recoil = true) :
    recoil.le recoilMax = !recoilMax.lt recoil := by
  cases recoil with
  | nan a => cases nonneg
  | inf a => rfl
  | fin a q => rfl

/-- The bound at the end of `get_weapon_recoil`. -/
theorem factor_bound {recoil : Fp} (nonneg : zero.le recoil = true) :
    Factor (if recoilMax.lt recoil then recoilMax else recoil) := by
  split
  · decide
  · next small =>
      refine ⟨nonneg, ?_⟩
      rw [le_recoilMax nonneg, Bool.eq_false_iff.2 small]
      rfl

/-- The bound is not passed a second time. -/
theorem scaleSpread_of_factor {recoil : Fp} (factor : Factor recoil) (vecSpread : Vec) :
    scaleSpread vecSpread recoil =
      if World.scales recoil then vecSpread.scale recoil else vecSpread := by
  have small : recoilMax.lt recoil = false := by
    have le := factor.2
    rw [le_recoilMax factor.1] at le
    simpa using le
  unfold scaleSpread World.scales
  rw [factor.1, small]
  cases recoil.equal one <;> rfl

/-- The difference of `get_weapon_recoil` is no `int`. -/
def World.Overflows (w : World) (weapon : Weapon) : Prop :=
  w.isEnabled = true ∧ 0 < weapon.mIId ∧ weapon.mIId ≤ weaponP90 ∧ 0 < w.impulseOffset ∧
    weapon.iuser4 - w.impulseOffset < -2 ^ 31

theorem World.Sound.cvarRecoil_ok (sound : w.Sound game) (on : w.isEnabled = true) (entry : Nat) :
    ∃ found, w.cvarRecoil entry = .ok found ∧ ∀ r ∈ found, zero.le r = true := by
  unfold World.cvarRecoil
  cases found : w.weaponRecoil entry with
  | none => exact ⟨none, rfl, by simp⟩
  | some m =>
      have live := sound.filled.era entry m on found
      have tracked := sound.filled.holding.kept m.cvar ⟨entry, m, on, found, rfl⟩
      obtain ⟨record, isRecord⟩ := Option.isSome_iff_exists.1 tracked
      have isCvar := List.getElem?_eq_getElem (sound.filled.holding.known m.cvar tracked)
      simp only [World.value, live, if_true, isRecord, isCvar, Except.map]
      refine ⟨_, rfl, fun r member => ?_⟩
      split at member
      · next passes =>
          cases member
          exact (Bool.and_eq_true_iff.1 passes).1
      · cases member

/-- What the weapon carries is no factor below 0. -/
theorem ownRecoil_cases (w : World) (weapon : Weapon) :
    (0 < w.impulseOffset ∧ weapon.iuser4 - w.impulseOffset < -2 ^ 31 ∧
        w.ownRecoil weapon = .error .overflow) ∨
      (¬ (0 < w.impulseOffset ∧ weapon.iuser4 - w.impulseOffset < -2 ^ 31) ∧
        ∃ found, w.ownRecoil weapon = .ok found ∧ ∀ r ∈ found, zero.le r = true) := by
  unfold World.ownRecoil
  by_cases set : 0 < w.impulseOffset
  · rw [if_pos set]
    by_cases low : weapon.iuser4 - w.impulseOffset < -2 ^ 31
    · exact .inl ⟨set, low, if_pos low⟩
    · rw [if_neg low]
      refine .inr ⟨fun both => low both.2, ?_⟩
      split
      · next passes =>
          refine ⟨_, rfl, fun r member => ?_⟩
          cases member
          exact (Bool.and_eq_true_iff.1 passes).2
      · exact ⟨none, rfl, by simp⟩
  · rw [if_neg set]
    exact .inr ⟨fun both => set both.1, none, rfl, by simp⟩

/-- Two sources of factors are one. -/
theorem orElse_ok {first second : Except Fault (Option Fp)} {a b : Option Fp}
    (isFirst : first = .ok a) (isSecond : second = .ok b) (nonnegA : ∀ r ∈ a, zero.le r = true)
    (nonnegB : ∀ r ∈ b, zero.le r = true) :
    ∃ found, World.orElse first second = .ok found ∧ ∀ r ∈ found, zero.le r = true := by
  subst isFirst isSecond
  cases a with
  | none => exact ⟨b, rfl, nonnegB⟩
  | some r => exact ⟨some r, rfl, nonnegA⟩

/-- What `get_weapon_recoil` does: the difference is no `int`, or the factor is a good one. -/
theorem World.Sound.getWeaponRecoil (sound : w.Sound game) (weapon : Weapon) :
    (w.Overflows weapon ∧ w.getWeaponRecoil (some weapon) = .error .overflow) ∨
      (¬ w.Overflows weapon ∧ ∃ recoil, w.getWeaponRecoil (some weapon) = .ok recoil ∧
        Factor recoil) := by
  unfold World.getWeaponRecoil
  simp only
  split
  · next off =>
      refine .inr ⟨fun bad => ?_, one, rfl, factor_one⟩
      rw [bad.1] at off
      cases off
  next isOn =>
  have on : w.isEnabled = true := by simpa using isOn
  split
  · next invalid =>
      refine .inr ⟨fun bad => ?_, one, rfl, factor_one⟩
      simp only [Bool.or_eq_true, decide_eq_true_eq] at invalid
      have := bad.2.1
      have := bad.2.2.1
      omega
  next valid =>
  simp only [Bool.or_eq_true, decide_eq_true_eq, not_or, not_le, not_lt] at valid
  rcases ownRecoil_cases w weapon with ⟨set, low, fails⟩ | ⟨fits, own, isOwn, nonneg⟩
  · rw [fails]
    exact .inl ⟨⟨on, valid.1, valid.2, set, low⟩, rfl⟩
  · obtain ⟨single, isSingle, nonnegSingle⟩ := sound.cvarRecoil_ok on weapon.mIId.toNat
    obtain ⟨all, isAll, nonnegAll⟩ := sound.cvarRecoil_ok on 0
    obtain ⟨cvars, isCvars, nonnegCvars⟩ := orElse_ok isSingle isAll nonnegSingle nonnegAll
    obtain ⟨found, isFound, nonnegFound⟩ := orElse_ok isOwn isCvars nonneg nonnegCvars
    rw [isFound]
    refine .inr ⟨fun bad => fits bad.2.2.2, _, rfl, factor_bound ?_⟩
    cases found with
    | none => decide
    | some r => exact nonnegFound r rfl

/-! ## Each shot is seen once -/

/-- A time that is not the last that was seen is still to be seen. -/
def owed (isEnabled : Bool) (fired seen : Fp) : Nat :=
  if isEnabled && !fired.equal seen then 1 else 0

def Watched.pending (x : Watched) (id : Nat) : Nat :=
  owed x.world.isEnabled (x.fired id) (x.world.lastFired id)

/-- The times are numbers, and what is left to be scaled has been counted. -/
structure Watched.Counted (x : Watched) : Prop where
  number : ∀ id, (x.fired id).equal (x.fired id) = true
  bounded : ∀ id, x.scaled id + x.pending id ≤ x.shots id + x.resets id

variable {x x' : Watched}

theorem pending_le_one (x : Watched) (id : Nat) : x.pending id ≤ 1 := by
  unfold Watched.pending owed
  split
  · exact Nat.le_refl 1
  · exact Nat.zero_le 1

theorem pending_of_off (off : x.world.isEnabled = false) (id : Nat) : x.pending id = 0 := by
  rw [Watched.pending, off]
  rfl

@[simp] theorem count_self (counts : Nat → Nat) (id : Nat) : count counts id id = counts id + 1 :=
  Function.update_self ..

theorem count_of_ne {id other : Nat} (unlike : other ≠ id) (counts : Nat → Nat) :
    count counts id other = counts other :=
  Function.update_of_ne unlike ..

/-- Nothing becomes pending, or something does that has been counted. -/
theorem Watched.Counted.of_le (counted : x.Counted)
    (number : ∀ id, (x'.fired id).equal (x'.fired id) = true)
    (le : ∀ id, x'.scaled id + x'.pending id + (x.shots id + x.resets id) ≤
      x.scaled id + x.pending id + (x'.shots id + x'.resets id)) : x'.Counted where
  number := number
  bounded id := by
    have before := counted.bounded id
    have step := le id
    omega

/-- `think_post` finds what is pending. -/
theorem Watched.Counted.think (counted : x.Counted) {player : Player} {factor : Option Fp}
    (isTime : player.flLastFired = x.fired player.entindex)
    (thinks : x.world.thinkPost player = .ok (w', factor)) :
    Watched.Counted { x with
      world := w'
      scaled := if factor.isSome then count x.scaled player.entindex else x.scaled } := by
  refine counted.of_le counted.number fun id => ?_
  rcases thinkPost_cases thinks with ⟨finds, rfl⟩ | ⟨_, rfl, rfl⟩
  · simp only [World.findsShot, Bool.and_eq_true, Bool.not_eq_true'] at finds
    show (if factor.isSome then count x.scaled player.entindex else x.scaled) id +
        owed x.world.isEnabled (x.fired id)
          (Function.update x.world.lastFired player.entindex player.flLastFired id) +
        (x.shots id + x.resets id) ≤
      x.scaled id + owed x.world.isEnabled (x.fired id) (x.world.lastFired id) +
        (x.shots id + x.resets id)
    by_cases own : id = player.entindex
    · have found : owed x.world.isEnabled (x.fired id) (x.world.lastFired id) = 1 := by
        rw [own, ← isTime, owed, finds.1.1.1.1, finds.2]
        rfl
      have seen : owed x.world.isEnabled (x.fired id) (x.fired id) = 0 := by
        rw [owed, counted.number, Bool.not_true, Bool.and_false]
        rfl
      rw [found, own, Function.update_self, isTime, ← own, seen]
      split
      · rw [count_self]
      · omega
    · rw [Function.update_of_ne own]
      split
      · rw [count_of_ne own]
      · exact Nat.le_refl _
  · cases x
    exact Nat.le_refl _

theorem Watched.Counted.step (counted : x.Counted) {a : Action}
    (moved : x.step game run a = some x') : x'.Counted := by
  cases a with
  | cvar a =>
      obtain ⟨cvars, _, rfl⟩ := Option.map_eq_some_iff.1 moved
      exact counted.of_le counted.number fun _ => Nat.le_refl _
  | enable offset =>
      cases moved
      refine counted.of_le counted.number fun id => ?_
      have pending := pending_le_one
        { x with world := x.world.enable game offset, resets := fun id => x.resets id + 1 } id
      show x.scaled id + _ + _ ≤ x.scaled id + _ + (x.shots id + (x.resets id + 1))
      omega
  | disable =>
      cases moved
      refine counted.of_le counted.number fun id => ?_
      rw [pending_of_off (isEnabled_disable x.world)]
      show x.scaled id + 0 + (x.shots id + x.resets id) ≤ _ + (x.shots id + x.resets id)
      omega
  | deactivate =>
      cases moved
      refine counted.of_le counted.number fun id => ?_
      rw [pending_of_off (isEnabled_disable x.world)]
      show x.scaled id + 0 + (x.shots id + x.resets id) ≤ _ + (x.shots id + x.resets id)
      omega
  | reset id =>
      cases moved
      refine counted.of_le counted.number fun other => ?_
      by_cases own : other = id
      · have pending := pending_le_one
          { x with world := x.world.resetPlayer id, resets := count x.resets id } other
        show x.scaled other + _ + _ ≤ x.scaled other + _ + (x.shots other + count x.resets id other)
        rw [own, count_self]
        rw [own] at pending
        omega
      · have same : Watched.pending
            { x with world := x.world.resetPlayer id, resets := count x.resets id } other =
              x.pending other := by
          unfold Watched.pending World.resetPlayer
          split
          · show owed _ _ (Function.update x.world.lastFired id lastFiredNone other) = _
            rw [Function.update_of_ne own]
          · rfl
        rw [same]
        show _ ≤ x.scaled other + _ + (x.shots other + count x.resets id other)
        rw [count_of_ne own]
  | shoot id time =>
      simp only [Watched.step] at moved
      split at moved
      · next isTime =>
          cases moved
          refine counted.of_le (fun other => ?_) fun other => ?_
          · simp only [Function.update_apply]
            split
            · exact isTime
            · exact counted.number other
          · by_cases own : other = id
            · have pending := pending_le_one
                { x with fired := Function.update x.fired id time, shots := count x.shots id } other
              show x.scaled other + _ + _ ≤
                x.scaled other + _ + (count x.shots id other + x.resets other)
              rw [own, count_self]
              rw [own] at pending
              omega
            · have same : Watched.pending
                  { x with
                    fired := Function.update x.fired id time
                    shots := count x.shots id } other = x.pending other := by
                show owed _ (Function.update x.fired id time other) _ = _
                rw [Function.update_of_ne own]
                rfl
              rw [same]
              show _ ≤ x.scaled other + _ + (count x.shots id other + x.resets other)
              rw [count_of_ne own]
      · cases moved
  | think player =>
      simp only [Watched.step] at moved
      split at moved
      · next isTime =>
          split at moved
          · generalize thinks : x.world.thinkPost player = thought at moved
            cases thought with
            | error fault => cases moved
            | ok next =>
                cases moved
                exact counted.think isTime thinks
          · cases moved
            exact counted
      · cases moved

theorem counted_of_reachable {x : Watched} (reached : (machine game run).Reachable x) :
    x.Counted := by
  refine Machine.Reaches.invariant (I := Watched.Counted) (fun x starts => ?_)
    (fun _ _ _ _ counted _ moved => counted.step moved) reached
  obtain ⟨cvars, maxClients, _, same⟩ := starts.world
  refine ⟨starts.fired, fun id => ?_⟩
  rw [starts.scaled, pending_of_off (by rw [same]; rfl)]
  exact Nat.zero_le _

/-! ## What holds along every run -/

/-- What a hook leaves of a spread or of the view: it is as it was, or it is scaled. -/
def Scaled (before after : Vec) : Prop := after = before ∨ ∃ r, Factor r ∧ after = before.scale r

/-- What `RG_CBaseEntity_FireBullets3` leaves of a spread that is one number. -/
def ScaledSpread (before after : Fp) : Prop :=
  after = before ∨ ∃ r, Factor r ∧ after = .mul binary32 before r

theorem scaled_scaleSpread {recoil : Fp} (factor : Factor recoil) (vecSpread : Vec) :
    Scaled vecSpread (scaleSpread vecSpread recoil) := by
  rw [scaleSpread_of_factor factor]
  split
  · exact .inr ⟨recoil, factor, rfl⟩
  · exact .inl rfl

theorem World.Sound.factor (sound : w.Sound game) {weapon : Option Weapon} {recoil : Fp}
    (isRecoil : w.getWeaponRecoil weapon = .ok recoil) : Factor recoil := by
  cases weapon with
  | none =>
      cases isRecoil
      exact factor_one
  | some weapon =>
      rcases sound.getWeaponRecoil weapon with ⟨_, fails⟩ | ⟨_, other, isOther, factor⟩
      · rw [fails] at isRecoil
        cases isRecoil
      · rw [isOther] at isRecoil
        cases isRecoil
        exact factor

theorem World.Sound.error_iff (sound : w.Sound game) (weapon : Weapon) (fault : Fault) :
    w.getWeaponRecoil (some weapon) = .error fault ↔ fault = .overflow ∧ w.Overflows weapon := by
  rcases sound.getWeaponRecoil weapon with ⟨bad, fails⟩ | ⟨good, other, isOther, _⟩
  · rw [fails]
    constructor
    · intro same
      cases same
      exact ⟨rfl, bad⟩
    · rintro ⟨rfl, _⟩
      rfl
  · rw [isOther]
    constructor
    · intro same
      cases same
    · rintro ⟨_, bad⟩
      exact absurd bad good

theorem World.Sound.scaled_of_map (sound : w.Sound game) {weapon : Weapon} {before after : Vec}
    (fires : (w.getWeaponRecoil (some weapon)).map (scaleSpread before) = .ok after) :
    Scaled before after := by
  generalize isRecoil : w.getWeaponRecoil (some weapon) = answer at fires
  cases answer with
  | error fault => cases fires
  | ok recoil =>
      cases fires
      exact scaled_scaleSpread (sound.factor isRecoil) before

theorem World.Sound.fireBullets3 (sound : w.Sound game) {pevAttacker : Option Attacker}
    {before after : Fp} (fires : w.fireBullets3 pevAttacker before = .ok after) :
    ScaledSpread before after := by
  unfold World.fireBullets3 at fires
  split at fires
  · split at fires
    · cases fires
      exact .inl rfl
    · next weapon _ =>
        generalize isRecoil : w.getWeaponRecoil (some weapon) = answer at fires
        cases answer with
        | error fault => cases fires
        | ok recoil =>
            cases fires
            by_cases isScaled : World.scales recoil = true
            · exact .inr ⟨recoil, sound.factor isRecoil, if_pos isScaled⟩
            · exact .inl (if_neg isScaled)
  · cases fires
    exact .inl rfl

theorem World.Sound.fireBuckshots (sound : w.Sound game) {pevAttacker : Option Attacker}
    {pEntity : Option Player} {before after : Vec}
    (fires : w.fireBuckshots pevAttacker pEntity before = .ok after) : Scaled before after := by
  unfold World.fireBuckshots at fires
  split at fires
  · split at fires
    · cases fires
      exact .inl rfl
    · exact sound.scaled_of_map fires
  · cases fires
    exact .inl rfl

theorem World.Sound.fireBullets (sound : w.Sound game) {pevAttacker : Option Attacker}
    {pEntity : Option Player} {before after : Vec}
    (fires : w.fireBullets pevAttacker pEntity before = .ok after) : Scaled before after := by
  unfold World.fireBullets at fires
  split at fires
  · split at fires
    · cases fires
      exact .inl rfl
    · split at fires
      · exact sound.scaled_of_map fires
      · cases fires
        exact .inl rfl
  · cases fires
    exact .inl rfl

/-- The view is scaled with what the manager says of the active item. -/
theorem viewFactor_eq_some {player : Player} {r : Fp}
    (scales : w.viewFactor player = .ok (some r)) :
    ∃ weapon, player.weapon = some weapon ∧ w.getWeaponRecoil (some weapon) = .ok r ∧
      World.scales r = true := by
  unfold World.viewFactor at scales
  cases seen : World.seenItem player with
  | none =>
      rw [seen] at scales
      cases scales
  | some item =>
      rw [seen] at scales
      obtain ⟨active, passes⟩ := Option.filter_eq_some_iff.1 seen
      simp only [Bool.and_eq_true] at passes
      refine ⟨item.toWeapon, ?_, ?_⟩
      · rw [Player.weapon, active, Option.filter_some, if_pos passes.1.1]
        rfl
      · simp only at scales
        generalize w.getWeaponRecoil (some item.toWeapon) = answer at scales
        cases answer with
        | error fault => cases scales
        | ok recoil =>
            by_cases isScaled : World.scales recoil = true
            · simp only [Except.map, if_pos isScaled, Except.ok.injEq, Option.some.injEq] at scales
              exact ⟨congrArg _ scales, scales ▸ isScaled⟩
            · simp [Except.map, if_neg isScaled] at scales

theorem World.Sound.postThink (sound : w.Sound game) {player : Player} {after : Vec}
    (thinks : w.postThink player = .ok (w', after)) : Scaled player.punchangle after := by
  unfold World.postThink at thinks
  split at thinks
  · generalize thought : w.thinkPost player = answer at thinks
    cases answer with
    | error fault => cases thinks
    | ok next =>
        obtain ⟨v, factor⟩ := next
        cases thinks
        cases factor with
        | none => exact .inl rfl
        | some r =>
            unfold World.thinkPost at thought
            split at thought
            · simp only at thought
              generalize view : World.viewFactor _ player = found at thought
              cases found with
              | error fault => cases thought
              | ok factor =>
                  cases thought
                  obtain ⟨weapon, _, isRecoil, _⟩ := viewFactor_eq_some view
                  exact .inr ⟨r, (sound.setLastFired _).factor isRecoil, rfl⟩
            · cases thought
  · cases thinks
    exact .inl rfl

/-- What scales the view of a shot scales its bullets. -/
theorem World.Sound.fireBullets3_of_view (sound : w.Sound game) (on : w.isEnabled = true)
    {player : Player} {r : Fp} (scales : w.viewFactor player = .ok (some r)) (flSpread : Fp) :
    w.fireBullets3 (some ⟨true, some player⟩) flSpread = .ok (.mul binary32 flSpread r) := by
  obtain ⟨weapon, active, isRecoil, isScaled⟩ := viewFactor_eq_some scales
  have hooked : w.hooks.contains Hook.fireBullets3 = true := by
    rw [sound.hooked, if_pos on]
    rfl
  have resolved : (((some ⟨true, some player⟩ : Option Attacker).filter Attacker.isClient).bind
      Attacker.player).bind Player.weapon = some weapon := active
  rw [World.fireBullets3, if_pos hooked, resolved]
  show (w.getWeaponRecoil (some weapon)).map _ = _
  rw [isRecoil]
  exact congrArg Except.ok (if_pos isScaled)

/-- And its pellets. -/
theorem World.Sound.fireBuckshots_of_view (sound : w.Sound game) (on : w.isEnabled = true)
    {player : Player} {r : Fp} (scales : w.viewFactor player = .ok (some r))
    (pEntity : Option Player) (vecSpread : Vec) :
    w.fireBuckshots (some ⟨true, some player⟩) pEntity vecSpread = .ok (vecSpread.scale r) := by
  obtain ⟨weapon, active, isRecoil, isScaled⟩ := viewFactor_eq_some scales
  have hooked : w.hooks.contains Hook.fireBuckshots = true := by
    rw [sound.hooked, if_pos on]
    rfl
  have resolved : (resolveShooter (some ⟨true, some player⟩) pEntity).bind Player.weapon =
      some weapon := active
  rw [World.fireBuckshots, if_pos hooked, resolved]
  show (w.getWeaponRecoil (some weapon)).map (scaleSpread vecSpread) = _
  rw [isRecoil]
  show Except.ok (scaleSpread vecSpread r) = _
  rw [scaleSpread_of_factor (sound.factor isRecoil), if_pos isScaled]

/-- **A freed record is never read.**  However maps end, the manager is switched, cvars are
called for and players shoot: the hooks are set just while the manager is on;
`get_weapon_recoil` fails only in its difference of two `int`s; and what a hook scales is
scaled with a number between 0 and 100, the bullets and the pellets of a shot with that of
its view. -/
theorem recoil_sound (hooks : ∀ held, Cvars.Holds run held) {x : Watched}
    (reached : (machine game run).Reachable x) :
    (x.world.hooks = if x.world.isEnabled then Hook.all else []) ∧
      (∀ weapon fault, x.world.getWeaponRecoil (some weapon) = .error fault ↔
        fault = .overflow ∧ x.world.Overflows weapon) ∧
      (∀ pevAttacker pEntity before after,
        x.world.fireBuckshots pevAttacker pEntity before = .ok after ∨
          x.world.fireBullets pevAttacker pEntity before = .ok after → Scaled before after) ∧
      (∀ pevAttacker before after, x.world.fireBullets3 pevAttacker before = .ok after →
        ScaledSpread before after) ∧
      (∀ player w after, x.world.postThink player = .ok (w, after) →
        Scaled player.punchangle after) ∧
      ∀ player r, x.world.isEnabled = true → x.world.viewFactor player = .ok (some r) →
        (∀ flSpread, x.world.fireBullets3 (some ⟨true, some player⟩) flSpread =
          .ok (.mul binary32 flSpread r)) ∧
        ∀ pEntity vecSpread, x.world.fireBuckshots (some ⟨true, some player⟩) pEntity vecSpread =
          .ok (vecSpread.scale r) := by
  have sound := sound_of_reachable hooks reached
  refine ⟨sound.hooked, sound.error_iff, fun pevAttacker pEntity before after fires => ?_,
    fun pevAttacker before after fires => sound.fireBullets3 fires,
    fun player w after thinks => sound.postThink thinks,
    fun player r on scales => ⟨sound.fireBullets3_of_view on scales,
      sound.fireBuckshots_of_view on scales⟩⟩
  rcases fires with buckshots | bullets
  · exact sound.fireBuckshots buckshots
  · exact sound.fireBullets bullets

/-- **The view is scaled once for a shot.**  In every run the view of a player has been
scaled no more often than the game has set the time of the player's last shot and the slot
has been reset. -/
theorem view_once {x : Watched} (reached : (machine game run).Reachable x) (id : Nat) :
    x.scaled id ≤ x.shots id + x.resets id :=
  (Nat.le_add_right _ _).trans ((counted_of_reachable reached).bounded id)

/-! ## A run through two maps -/

/-- `WEAPON_AK47`, as the game has it. -/
def ak47Info : SlotInfo := ⟨1, "weapon_ak47".toList.map fun c => .ofNat c.toNat⟩

def plainGame : Game where
  env := .plain
  slotInfo id := if id = 28 then some ak47Info else none

/-- The config has set the cvar of the AK-47 to 0. -/
def ak47Cvar : Cvars.Cvar :=
  ⟨wstos (World.cvarPrefix ++ stows ak47Info.weaponName), [0x30], .fin false 0, 0⟩

def started : Watched where
  world := .loaded { Cvars.State.empty with cvars := [ak47Cvar] } 32
  fired _ := zero
  shots _ := 0
  resets _ := 0
  scaled _ := 0

theorem started_starts : started.Starts plainGame where
  world := by
    refine ⟨_, _, ⟨fun _ => rfl, fun _ => rfl, fun _ => rfl, fun c cvar found => ?_,
      fun c cvar found => ?_⟩, rfl⟩
    all_goals
      obtain ⟨inside, -⟩ := List.getElem?_eq_some_iff.1 found
      obtain rfl : c = 0 := Nat.lt_one_iff.1 inside
      cases found
      decide +kernel
  fired _ := by
    show zero.equal zero = true
    decide
  scaled _ := rfl

/-- A player with an AK-47 whose last shot was at the time. -/
def shooter (time : Fp) : Player where
  isBot := false
  isAlive := true
  entindex := 1
  flLastFired := time
  activeItem := some ⟨⟨28, 0, 0, zero⟩, true⟩
  punchangle := ⟨one, one, zero⟩

/-- A shot in the first map and one in the second, each looked for twice. -/
def twoMaps : List Action :=
  [.enable 0, .shoot 1 one, .think (shooter one), .think (shooter one), .deactivate, .enable 0,
    .shoot 1 recoilMax, .think (shooter recoilMax), .think (shooter recoilMax)]

/-- In the second map the view is scaled with the cvar of the AK-47, once. -/
theorem recoil_sound_twoMaps : ∃ x : Watched,
    (x.world.era = 1 ∧ x.scaled 1 = 2 ∧
        x.world.viewFactor (shooter recoilMax) = .ok (some zero)) ∧
      (x.world.hooks = if x.world.isEnabled then Hook.all else []) ∧
      (∀ weapon fault, x.world.getWeaponRecoil (some weapon) = .error fault ↔
        fault = .overflow ∧ x.world.Overflows weapon) ∧
      (∀ pevAttacker pEntity before after,
        x.world.fireBuckshots pevAttacker pEntity before = .ok after ∨
          x.world.fireBullets pevAttacker pEntity before = .ok after → Scaled before after) ∧
      (∀ pevAttacker before after, x.world.fireBullets3 pevAttacker before = .ok after →
        ScaledSpread before after) ∧
      (∀ player w after, x.world.postThink player = .ok (w, after) →
        Scaled player.punchangle after) ∧
      ∀ player r, x.world.isEnabled = true → x.world.viewFactor player = .ok (some r) →
        (∀ flSpread, x.world.fireBullets3 (some ⟨true, some player⟩) flSpread =
          .ok (.mul binary32 flSpread r)) ∧
        ∀ pEntity vecSpread, x.world.fireBuckshots (some ⟨true, some player⟩) pEntity vecSpread =
          .ok (vecSpread.scale r) := by
  have ends : ((machine plainGame Cvars.quiet).exec started twoMaps).map (fun x =>
      x.world.era == 1 && x.scaled 1 == 2 &&
        (x.world.viewFactor (shooter recoilMax)).toOption == some (some zero)) = some true := by
    decide +kernel
  obtain ⟨x, reached, shows⟩ :=
    Machine.exists_reachable (M := machine plainGame Cvars.quiet) started_starts ends
  simp only [Bool.and_eq_true, beq_iff_eq] at shows
  refine ⟨x, ⟨shows.1.1, shows.1.2, ?_⟩, recoil_sound (fun _ => Cvars.holds_quiet) reached⟩
  have view := shows.2
  generalize x.world.viewFactor (shooter recoilMax) = answer at view
  cases answer with
  | error fault => cases view
  | ok factor =>
      cases view
      rfl

theorem view_once_twoMaps : ∃ x : Watched,
    (x.scaled 1 = 2 ∧ x.shots 1 = 2 ∧ x.resets 1 = 2) ∧ x.scaled 1 ≤ x.shots 1 + x.resets 1 := by
  have ends : ((machine plainGame Cvars.quiet).exec started twoMaps).map
      (fun x => x.scaled 1 == 2 && x.shots 1 == 2 && x.resets 1 == 2) = some true := by
    decide +kernel
  obtain ⟨x, reached, shows⟩ :=
    Machine.exists_reachable (M := machine plainGame Cvars.quiet) started_starts ends
  simp only [Bool.and_eq_true, beq_iff_eq] at shows
  exact ⟨x, ⟨shows.1.1, shows.1.2, shows.2⟩, view_once reached 1⟩

end Refsapi.Recoil
