/-
# Cvars.Records -- no call loses a record

Other parts of the module keep an `m_cvar_t *` from one call to the next.  Between two
`clear_all` each of them stays that of a record: `holding_of_step` says so of every call,
whatever the change hooks do, as long as they hold to it.
-/
import Refsapi.Cvars.Binds

namespace Refsapi.Cvars

set_option autoImplicit false

variable {env : Env} {run : Forwards} {held : Nat → Prop} {s s' : State}

/-- What is listed has a record, what has a record is a cvar, and what is held has one. -/
structure State.Holding (held : Nat → Prop) (s : State) : Prop where
  listed : ∀ name c, s.cvarList name = some c → (s.pCvar c).isSome
  known : ∀ c, (s.pCvar c).isSome → c < s.cvars.length
  kept : ∀ c, held c → (s.pCvar c).isSome

/-- The change hooks keep it as well. -/
def Holds (run : Forwards) (held : Nat → Prop) : Prop :=
  ∀ s fwd c before after s', s.Holding held → run s fwd c before after = some s' → s'.Holding held

theorem holds_quiet : Holds quiet held := by
  intro s _ _ _ _ s' holding ran
  cases ran
  exact holding

theorem holding_fresh (fresh : s.Fresh env) : s.Holding fun _ => False where
  listed name c found := by
    rw [fresh.unlisted] at found
    cases found
  known c tracked := by
    rw [fresh.untracked] at tracked
    cases tracked
  kept _ none := none.elim

theorem State.Holding.mono (holding : s.Holding held) {fewer : Nat → Prop}
    (sub : ∀ c, fewer c → held c) : s.Holding fewer :=
  ⟨holding.listed, holding.known, fun c isHeld => holding.kept c (sub c isHeld)⟩

/-- A change of a record leaves it one. -/
theorem isSome_modify (s : State) (c d : Nat) (change : Tracked → Tracked) :
    ((s.modify c change).pCvar d).isSome = (s.pCvar d).isSome := by
  rw [State.modify]
  simp only [Function.update_apply]
  split
  · next same => rw [same, Option.isSome_map]
  · rfl

theorem State.Holding.modify (holding : s.Holding held) (c : Nat) (change : Tracked → Tracked) :
    (s.modify c change).Holding held where
  listed name d found := by
    rw [isSome_modify]
    exact holding.listed name d found
  known d tracked := by
    rw [isSome_modify] at tracked
    exact holding.known d tracked
  kept d isHeld := by
    rw [isSome_modify]
    exact holding.kept d isHeld

theorem State.Holding.store (holding : s.Holding held) (c : Nat) (value : Text) :
    (s.store env c value).Holding held :=
  ⟨holding.listed, fun d tracked => by
    show d < (s.cvars.modify c _).length
    rw [List.length_modify]
    exact holding.known d tracked, holding.kept⟩

theorem State.Holding.register (holding : s.Holding held) (cvar : Cvar) :
    (s.register env cvar).Holding held := by
  unfold State.register
  split
  · exact holding
  · refine ⟨holding.listed, fun d tracked => ?_, holding.kept⟩
    show d < (s.cvars ++ [_]).length
    rw [List.length_append]
    exact Nat.lt_add_right 1 (holding.known d tracked)

/-- A cvar that is tracked for the first time. -/
theorem State.Holding.addExists (holding : s.Holding held) (cvar : Option Nat) (params : Params) :
    (s.addExists cvar params).1.Holding held := by
  unfold State.addExists
  split
  · exact holding
  · next c =>
      split
      · exact holding
      · next untracked =>
          split
          · exact holding
          · next cvar isCvar =>
              have grown (m : Tracked) (d : Nat) :
                  (Function.update s.pCvar c (some m) d).isSome ↔ (s.pCvar d).isSome ∨ d = c := by
                rw [Function.update_apply]
                split
                · next same => simp [same]
                · next unlike => simp [unlike]
              refine ⟨fun name d found => ?_, fun d tracked => ?_, fun d isHeld => ?_⟩
              · refine (grown _ d).2 ?_
                simp only at found
                split at found
                · exact .inl (holding.listed name d found)
                · rw [Function.update_apply] at found
                  split at found
                  · exact .inr (Option.some.inj found).symm
                  · exact .inl (holding.listed name d found)
              · rcases (grown _ d).1 tracked with old | rfl
                · exact holding.known d old
                · exact (List.getElem?_eq_some_iff.1 isCvar).1
              · exact (grown _ d).2 (.inl (holding.kept d isHeld))

theorem State.Holding.getName (holding : s.Holding held) (name : Wide) :
    (s.getName env name).1.Holding held :=
  getName_keeps env (fun _ cvar params holding => holding.addExists cvar params) holding name

theorem isSome_addExists {cvar : Option Nat} {params : Params} {c : Nat}
    (got : (s.addExists cvar params).2 = some c) :
    ((s.addExists cvar params).1.pCvar c).isSome := by
  unfold State.addExists at got ⊢
  cases cvar with
  | none => cases got
  | some d =>
      by_cases tracked : (s.pCvar d).isSome = true
      · simp only [if_pos tracked, Option.some.injEq] at got ⊢
        exact got ▸ tracked
      · cases isCvar : s.cvars[d]? with
        | none =>
            simp only [if_neg tracked, isCvar] at got
            cases got
        | some cvar =>
            simp only [if_neg tracked, isCvar, Option.some.injEq] at got ⊢
            rw [got, Function.update_self]
            rfl

/-- `get` returns a record. -/
theorem State.Holding.isSome_getName (holding : s.Holding held) {name : Wide} {c : Nat}
    (got : (s.getName env name).2 = some c) : ((s.getName env name).1.pCvar c).isSome := by
  unfold State.getName at got ⊢
  by_cases empty : name.isEmpty = true
  · rw [if_pos empty] at got
    cases got
  simp only [if_neg empty] at got ⊢
  cases listed : s.cvarList (name.map env.toLower) with
  | some d =>
      simp only [listed, Option.some.injEq] at got ⊢
      exact got ▸ holding.listed _ d listed
  | none =>
      simp only [listed] at got ⊢
      cases found : s.getPointer env (wstos (name.map env.toLower)) with
      | none =>
          simp only [found] at got
          cases got
      | some d =>
          simp only [found] at got ⊢
          exact isSome_addExists got

theorem State.Holding.add (holding : s.Holding held) (pluginId : Int) (name value : Wide)
    (flags : Int) (params : Params) : (s.add env pluginId name value flags params).1.Holding held :=
  add_keeps (fun _ cvar holding => holding.register cvar)
    (fun _ cvar params holding => holding.addExists cvar params)
    (fun _ c _ _ holding => holding.modify c _)
    (fun _ _ _ holding => ⟨holding.listed, holding.known, holding.kept⟩) holding pluginId name
    value flags params

theorem State.Holding.onChange (hooks : Holds run held) (holding : s.Holding held) {c : Nat}
    {cvar : Cvar} {value : Wide} (changes : s.onChange run c cvar value = some s') :
    s'.Holding held :=
  onChange_keeps (fun t fwd before after t' holding => hooks t fwd c before after t' holding)
    ⟨holding.listed, holding.known, holding.kept⟩ changes

/-- A string is set, with what the manager sets in its place. -/
theorem State.Holding.directSet (hooks : Holds run held) {depth c : Nat} {value : Text}
    (holding : s.Holding held) (sets : directSet env run depth s c value = some s') :
    s'.Holding held := by
  induction depth generalizing s s' c value with
  | zero => cases sets
  | succ depth ih =>
      rw [Cvars.directSet, State.onDirectSet] at sets
      have tracked : ((s.store env c value).getTracked c).1.Holding held := by
        rw [State.getTracked]
        split
        · exact holding.store c value
        · exact (holding.store c value).addExists (some c) .default
      generalize ((s.store env c value).getTracked c).1 = t at tracked sets
      split at sets
      · next m cvar _ _ =>
          split at sets
          · cases sets
            exact tracked
          split at sets
          · cases sets
            exact tracked.modify c _
          obtain ⟨⟨u, stood⟩, checks, goes⟩ := Option.bind_eq_some_iff.1 sets
          have checked : u.Holding held := by
            rcases checkRange_cases checks with ⟨_, _, rfl⟩ | ⟨_, other, _, rfl | ⟨d, inner⟩⟩
            · exact tracked
            · exact tracked
            · exact ih tracked inner
          split at goes
          · obtain ⟨v, changes, rfl⟩ := Option.map_eq_some_iff.1 goes
            exact (checked.onChange hooks changes).modify c _
          · cases goes
            exact checked
      · cases sets
        exact tracked

theorem State.Holding.bind (hooks : Holds run held) {depth : Nat} {type : CvarType}
    {mCvar : Option Nat} {ptr size : Nat} (holding : s.Holding held)
    (binds : s.bind env run depth type mCvar ptr size = some s') : s'.Holding held := by
  unfold State.bind at binds
  split at binds
  · cases binds
    exact holding
  next c =>
  split at binds
  · next m cvar _ _ =>
      split at binds
      · obtain ⟨⟨u, stood⟩, checks, rfl⟩ := Option.map_eq_some_iff.1 binds
        have bound : (s.bound c cvar ⟨ptr, type, size⟩).Holding held := by
          refine State.Holding.modify ?_ c _
          exact ⟨holding.listed, holding.known, holding.kept⟩
        rcases checkRange_cases checks with ⟨_, _, rfl⟩ | ⟨_, other, _, rfl | ⟨d, sets⟩⟩
        · exact bound
        · exact bound
        · exact bound.directSet hooks sets
      · cases binds
        exact holding
  · cases binds

/-- No call loses a record. -/
theorem holding_of_step (hooks : Holds run held) {a : Action} (holding : s.Holding held)
    (moved : s.step env run a = some s') : s'.Holding held := by
  cases a with
  | add pluginId name value flags params =>
      cases moved
      exact holding.add pluginId _ _ flags params
  | bind depth type mCvar ptr size => exact holding.bind hooks moved
  | directSet depth c value =>
      simp only [State.step] at moved
      split at moved
      · exact holding.directSet hooks moved
      · cases moved

end Refsapi.Cvars
