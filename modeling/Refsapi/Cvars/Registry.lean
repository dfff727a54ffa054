/-
# Cvars.Registry -- the change hooks and their forwards

`rf_hook_cvar_change` has a forward registered, and `create_hook` keeps it in two
tables: `hook_state` says of each forward whether its hook is enabled, and
`cvar_hook_list` has for each cvar the entries of `hook_state` that are its hooks, in
the order in which they came.  When the map ends `clear_all` gives the forwards back.

The entries in the lists are iterators, so what has to hold is that each is an entry
of `hook_state` as long as it is in a list, and that a forward that runs has not been
given back (`Sound`).  The forwards of a map are then all given back but for those
that were registered for no cvar, which nothing remembers (`registry_sound`).
-/
import Refsapi.Cvars.Manager

namespace Refsapi.Cvars

set_option autoImplicit false

/-- The two tables, and what AMX Mod X has: the forwards that are registered.  Those in
`lost` were registered for no cvar. -/
structure Registry where
  hookState : Int → Option Bool
  cvarHookList : Nat → List Int
  forwards : List Int
  lost : List Int

namespace Registry

def empty : Registry := ⟨fun _ => none, fun _ => [], [], []⟩

/-- `create_hook`, and what it returns. -/
def createHook (r : Registry) (fwd : Int) (mCvar : Option Nat) (isEnable : Bool) :
    Registry × Int :=
  match mCvar with
  | none => (r, -1)
  | some c =>
      if (r.hookState fwd).isSome then (r, -1)
      else
        ({ r with
            hookState := Function.update r.hookState fwd (some isEnable)
            cvarHookList := Function.update r.cvarHookList c (r.cvarHookList c ++ [fwd]) }, fwd)

/-- `rf_hook_cvar_change`, where `RegisterSPForwardByName` gave a forward or failed. -/
def hookCvarChange (r : Registry) (registered : Option Int) (mCvar : Option Nat)
    (isEnable : Bool) : Registry × Int :=
  match registered with
  | none => (r, 0)
  | some fwd =>
      let r := { r with
        forwards := fwd :: r.forwards
        lost := if mCvar = none then fwd :: r.lost else r.lost }
      r.createHook fwd mCvar isEnable

/-- `cvar_hook_state` -/
def setHookState (r : Registry) (fwd : Int) (isEnable : Bool) : Registry × Bool :=
  if (r.hookState fwd).isSome then
    ({ r with hookState := Function.update r.hookState fwd (some isEnable) }, true)
  else (r, false)

/-- The hooks that `on_change` runs, in their order. -/
def executed (r : Registry) (c : Nat) : List Int :=
  (r.cvarHookList c).filter fun fwd => r.hookState fwd = some true

/-- `clear_hook_list` and `clear_hook_state`, as `clear_all` calls them. -/
def clearHooks (r : Registry) : Registry where
  hookState := fun _ => none
  cvarHookList := fun _ => []
  forwards := r.forwards.filter fun fwd => (r.hookState fwd).isNone || fwd = -1
  lost := r.lost

inductive Action where
  | hook (registered : Option Int) (mCvar : Option Nat) (isEnable : Bool)
  | state (fwd : Int) (isEnable : Bool)
  | clear

/-- A forward that AMX Mod X registers is not -1 and is none that it has. -/
def step (r : Registry) : Action → Option Registry
  | .hook registered mCvar isEnable =>
      if ∀ fwd ∈ registered, fwd ≠ -1 ∧ fwd ∉ r.forwards then
        some (r.hookCvarChange registered mCvar isEnable).1
      else none
  | .state fwd isEnable => some (r.setHookState fwd isEnable).1
  | .clear => some r.clearHooks

def machine : Machine Registry Action where
  init r := r = empty
  step := step

/-! ## The invariant -/

/-- Each entry of a list is one of `hook_state`, in one list and once, and its forward is
registered. -/
structure Sound (r : Registry) : Prop where
  once : ∀ c, (r.cvarHookList c).Nodup
  owner : ∀ c d fwd, fwd ∈ r.cvarHookList c → fwd ∈ r.cvarHookList d → c = d
  entry : ∀ fwd, (r.hookState fwd).isSome ↔ ∃ c, fwd ∈ r.cvarHookList c
  apart : r.forwards.Nodup
  live : ∀ fwd, fwd ∈ r.forwards ↔ (r.hookState fwd).isSome ∨ fwd ∈ r.lost
  proper : ∀ fwd ∈ r.forwards, fwd ≠ -1
  unused : ∀ fwd ∈ r.lost, r.hookState fwd = none

variable {r r' : Registry}

theorem sound_empty : Sound empty where
  once _ := List.nodup_nil
  owner _ _ _ first := absurd first List.not_mem_nil
  entry fwd := iff_of_false Bool.false_ne_true fun ⟨_, member⟩ => absurd member List.not_mem_nil
  apart := List.nodup_nil
  live fwd := iff_of_false List.not_mem_nil (by rintro (entry | lost) <;> cases ‹_›)
  proper _ member := absurd member List.not_mem_nil
  unused _ member := absurd member List.not_mem_nil

/-- A forward for no cvar is registered and lost. -/
theorem Sound.lose (sound : Sound r) {fwd : Int} (proper : fwd ≠ -1) (fresh : fwd ∉ r.forwards) :
    Sound { r with forwards := fwd :: r.forwards, lost := fwd :: r.lost } where
  once := sound.once
  owner := sound.owner
  entry := sound.entry
  apart := List.nodup_cons.2 ⟨fresh, sound.apart⟩
  live other := by
    show other ∈ fwd :: r.forwards ↔ (r.hookState other).isSome ∨ other ∈ fwd :: r.lost
    rw [List.mem_cons, List.mem_cons, sound.live other, or_left_comm]
  proper := List.forall_mem_cons.2 ⟨proper, sound.proper⟩
  unused := by
    refine List.forall_mem_cons.2 ⟨?_, sound.unused⟩
    by_contra entry
    exact fresh ((sound.live fwd).2 (.inl (Option.isSome_iff_ne_none.2 entry)))

/-- A forward for a cvar is registered, and its hook is the last of the cvar. -/
theorem Sound.hook (sound : Sound r) {fwd : Int} (proper : fwd ≠ -1) (fresh : fwd ∉ r.forwards)
    (c : Nat) (isEnable : Bool) :
    Sound { r with
      hookState := Function.update r.hookState fwd (some isEnable)
      cvarHookList := Function.update r.cvarHookList c (r.cvarHookList c ++ [fwd])
      forwards := fwd :: r.forwards } := by
  have absent : ¬ (r.hookState fwd).isSome := fun entry => fresh ((sound.live fwd).2 (.inl entry))
  have unlisted (d : Nat) : fwd ∉ r.cvarHookList d := fun member =>
    absent ((sound.entry fwd).2 ⟨d, member⟩)
  have listed (d : Nat) (other : Int) :
      other ∈ Function.update r.cvarHookList c (r.cvarHookList c ++ [fwd]) d ↔
        other ∈ r.cvarHookList d ∨ other = fwd ∧ d = c := by
    rw [Function.update_apply]
    split
    · next same => simp [same]
    · next unlike => simp [unlike]
  have entered (other : Int) :
      (Function.update r.hookState fwd (some isEnable) other).isSome ↔
        (r.hookState other).isSome ∨ other = fwd := by
    rw [Function.update_apply]
    split
    · next same => simp [same]
    · next unlike => simp [unlike]
  refine ⟨fun d => ?_, fun d e other first second => ?_, fun other => ?_,
    List.nodup_cons.2 ⟨fresh, sound.apart⟩, fun other => ?_,
    List.forall_mem_cons.2 ⟨proper, sound.proper⟩, fun other isLost => ?_⟩
  · show (Function.update r.cvarHookList c (r.cvarHookList c ++ [fwd]) d).Nodup
    rw [Function.update_apply]
    split
    · refine List.nodup_append'.2 ⟨sound.once c, List.nodup_singleton fwd, ?_⟩
      intro other old new
      exact unlisted c (List.mem_singleton.1 new ▸ old)
    · exact sound.once d
  · rcases (listed d other).1 first with old | ⟨rfl, rfl⟩ <;>
      rcases (listed e other).1 second with old' | ⟨same, rfl⟩
    · exact sound.owner d e other old old'
    · exact absurd (same ▸ old) (unlisted d)
    · exact absurd old' (unlisted e)
    · rfl
  · show (Function.update r.hookState fwd (some isEnable) other).isSome ↔ _
    rw [entered, sound.entry other]
    constructor
    · rintro (⟨d, member⟩ | same)
      · exact ⟨d, (listed d other).2 (.inl member)⟩
      · exact ⟨c, (listed c other).2 (.inr ⟨same, rfl⟩)⟩
    · rintro ⟨d, member⟩
      exact ((listed d other).1 member).imp (fun member => ⟨d, member⟩) And.left
  · show other ∈ fwd :: r.forwards ↔ _ ∨ other ∈ r.lost
    rw [entered, List.mem_cons, sound.live other]
    tauto
  · show Function.update r.hookState fwd (some isEnable) other = none
    rw [Function.update_apply, if_neg, sound.unused other isLost]
    rintro rfl
    exact fresh ((sound.live other).2 (.inr isLost))

/-- A hook is enabled or disabled. -/
theorem Sound.setHookState (sound : Sound r) (fwd : Int) (isEnable : Bool) :
    Sound (r.setHookState fwd isEnable).1 := by
  unfold Registry.setHookState
  split
  · next entry =>
      have same (other : Int) :
          (Function.update r.hookState fwd (some isEnable) other).isSome =
            (r.hookState other).isSome := by
        rw [Function.update_apply]
        split
        · next same => rw [same, entry]; rfl
        · rfl
      refine ⟨sound.once, sound.owner, fun other => ?_, sound.apart, fun other => ?_, sound.proper,
        fun other isLost => ?_⟩
      · show (Function.update r.hookState fwd (some isEnable) other).isSome ↔ _
        rw [same]
        exact sound.entry other
      · show other ∈ r.forwards ↔ (Function.update r.hookState fwd _ other).isSome ∨ _
        rw [same]
        exact sound.live other
      · show Function.update r.hookState fwd (some isEnable) other = none
        rw [← Option.not_isSome_iff_eq_none, same, sound.unused other isLost]
        exact Bool.false_ne_true
  · exact sound

/-- What is left of the forwards when the map ends. -/
theorem Sound.mem_clearHooks (sound : Sound r) (fwd : Int) :
    fwd ∈ r.clearHooks.forwards ↔ fwd ∈ r.lost := by
  show fwd ∈ r.forwards.filter _ ↔ _
  rw [List.mem_filter, sound.live fwd]
  constructor
  · rintro ⟨entry | isLost, unheld⟩
    · have proper := sound.proper fwd ((sound.live fwd).2 (.inl entry))
      simp [entry, proper, ← Option.not_isSome] at unheld
    · exact isLost
  · intro isLost
    exact ⟨.inr isLost, by rw [sound.unused fwd isLost]; rfl⟩

theorem Sound.clearHooks (sound : Sound r) : Sound r.clearHooks where
  once _ := List.nodup_nil
  owner _ _ _ first := absurd first List.not_mem_nil
  entry fwd := iff_of_false Bool.false_ne_true fun ⟨_, member⟩ => absurd member List.not_mem_nil
  apart := sound.apart.filter _
  live fwd := by
    rw [sound.mem_clearHooks]
    exact ⟨.inr, fun held => held.resolve_left Bool.false_ne_true⟩
  proper fwd member := sound.proper fwd (List.mem_filter.1 member).1
  unused _ _ := rfl

theorem Sound.step (sound : Sound r) {a : Action} (moved : r.step a = some r') : Sound r' := by
  cases a with
  | hook registered mCvar isEnable =>
      simp only [Registry.step] at moved
      split at moved
      · next free =>
          cases moved
          cases registered with
          | none => exact sound
          | some fwd =>
              obtain ⟨proper, fresh⟩ := free fwd rfl
              cases mCvar with
              | none => exact sound.lose proper fresh
              | some c =>
                  have absent : (r.hookState fwd).isSome = false := by
                    refine Bool.eq_false_iff.2 fun entry => ?_
                    exact fresh ((sound.live fwd).2 (.inl entry))
                  simp only [hookCvarChange, createHook, absent, Bool.false_eq_true, if_false,
                    reduceCtorEq]
                  exact sound.hook proper fresh c isEnable
      · cases moved
  | state fwd isEnable =>
      cases moved
      exact sound.setHookState fwd isEnable
  | clear =>
      cases moved
      exact sound.clearHooks

theorem sound_of_reachable (run : machine.Reachable r) : Sound r := by
  refine Machine.Reaches.invariant ?_ (fun _ _ _ _ sound _ moved => sound.step moved) run
  rintro _ rfl
  exact sound_empty

/-! ## The order of the hooks -/

/-- The forwards that some actions have registered for a cvar since the last map end, in their
order, behind those that it had. -/
def registered (c : Nat) : List Int → List Action → List Int
  | list, [] => list
  | list, .hook (some fwd) (some d) _ :: rest =>
      registered c (if d = c then list ++ [fwd] else list) rest
  | _, .clear :: rest => registered c [] rest
  | list, _ :: rest => registered c list rest

theorem Sound.step_cvarHookList (sound : Sound r) {a : Action} (moved : r.step a = some r')
    (c : Nat) (rest : List Action) :
    registered c (r.cvarHookList c) (a :: rest) = registered c (r'.cvarHookList c) rest := by
  cases a with
  | hook hooked mCvar isEnable =>
      simp only [Registry.step] at moved
      split at moved
      · next free =>
          cases moved
          cases hooked with
          | none => rfl
          | some fwd =>
              cases mCvar with
              | none => rfl
              | some d =>
                  have fresh : fwd ∉ r.forwards := (free fwd rfl).2
                  have absent : (r.hookState fwd).isSome = false :=
                    Bool.eq_false_iff.2 fun entry => fresh ((sound.live fwd).2 (.inl entry))
                  simp only [hookCvarChange, createHook, absent, Bool.false_eq_true, if_false,
                    reduceCtorEq, registered, Function.update_apply]
                  by_cases here : d = c
                  · rw [if_pos here, if_pos here.symm, here]
                  · rw [if_neg here, if_neg (Ne.symm here)]
      · cases moved
  | state fwd isEnable =>
      cases moved
      show registered c (r.cvarHookList c) rest = _
      rw [Registry.setHookState]
      split <;> rfl
  | clear =>
      cases moved
      rfl

/-- The hooks of a cvar are in the order in which they were registered. -/
theorem Sound.cvarHookList_of_exec (sound : Sound r) {actions : List Action}
    (run : machine.exec r actions = some r') (c : Nat) :
    r'.cvarHookList c = registered c (r.cvarHookList c) actions := by
  induction actions generalizing r with
  | nil => cases run; rfl
  | cons a rest ih =>
      obtain ⟨next, moved, run⟩ := Option.bind_eq_some_iff.1 run
      rw [sound.step_cvarHookList moved c rest]
      exact ih (sound.step moved) run

/-! ## What runs when a cvar changes -/

/-- The hooks of the manager are those of the tables. -/
def Agrees (r : Registry) (s : State) : Prop :=
  s.cvarHookList = r.cvarHookList ∧ ∀ fwd, s.hookState fwd = (r.hookState fwd).getD false

/-- The plugins of the hooks leave the tables as they are. -/
def Keeps (r : Registry) (run : Forwards) : Prop :=
  ∀ s fwd c old new s', r.Agrees s → run s fwd c old new = some s' → r.Agrees s'

/-- `on_change` runs the enabled hooks of the cvar, one after the other, as long as none of
them touches the tables. -/
theorem onChange_executed {run : Forwards} {s : State} (agrees : r.Agrees s)
    (keeps : r.Keeps run)
    (c : Nat) (cvar : Cvar) (value : Wide) :
    s.onChange run c cvar value =
      (r.executed c).foldlM (fun s fwd =>
        run s fwd c (((s.pCvar c).map fun m => wstos m.value).getD []) (wstos value))
        ((s.bindList c).foldl (fun s bind => s.copyBind cvar bind) s) := by
  have copied (binds : List PtrBind) (s : State) (agrees : r.Agrees s) :
      r.Agrees (binds.foldl (fun s bind => s.copyBind cvar bind) s) := by
    induction binds generalizing s with
    | nil => exact agrees
    | cons bind rest ih => exact ih _ agrees
  have loop (list : List Int) (s : State) (agrees : r.Agrees s) :
      list.foldlM (fun s fwd =>
        if s.hookState fwd then
          run s fwd c (((s.pCvar c).map fun m => wstos m.value).getD []) (wstos value)
        else some s) s =
      (list.filter fun fwd => r.hookState fwd = some true).foldlM (fun s fwd =>
        run s fwd c (((s.pCvar c).map fun m => wstos m.value).getD []) (wstos value)) s := by
    induction list generalizing s with
    | nil => rfl
    | cons fwd rest ih =>
        rw [List.foldlM_cons]
        by_cases on : r.hookState fwd = some true
        · have enabled : s.hookState fwd = true := by
            rw [agrees.2, on]
            rfl
          rw [if_pos enabled, List.filter_cons_of_pos (by simpa using on), List.foldlM_cons]
          refine Option.bind_congr fun s' runs => ?_
          exact ih s' (keeps _ _ _ _ _ _ agrees runs)
        · have disabled : ¬ s.hookState fwd = true := by
            rw [agrees.2]
            cases state : r.hookState fwd with
            | none => exact Bool.false_ne_true
            | some b =>
                intro isOn
                exact on (state.trans (congrArg some isOn))
          rw [if_neg disabled, List.filter_cons_of_neg (by simpa using on)]
          exact ih s agrees
  have after := copied (s.bindList c) s agrees
  rw [State.onChange]
  simp only [after.1]
  exact loop _ _ after

/-- **The hook tables are sound.**  In every run of registrations, changes of state and map
ends, each hook that is known is a hook of one cvar; a change runs the enabled hooks of its
cvar in the order in which they were registered, none twice and none whose forward was given
back, as long as the hooks leave the tables alone; and when the map ends the forwards that are
left are those that were registered for no cvar. -/
theorem registry_sound {actions : List Action} (run : machine.exec empty actions = some r) :
    (∀ fwd, (r.hookState fwd).isSome ↔ ∃! c, fwd ∈ r.cvarHookList c) ∧
      (∀ c, r.executed c =
          (registered c [] actions).filter (fun fwd => r.hookState fwd = some true) ∧
        (r.executed c).Nodup ∧ ∀ fwd ∈ r.executed c, fwd ∈ r.forwards) ∧
      (∀ run s c cvar value, r.Agrees s → r.Keeps run →
        State.onChange run s c cvar value = (r.executed c).foldlM
          (fun s fwd => run s fwd c (((s.pCvar c).map fun m => wstos m.value).getD [])
            (wstos value))
          ((s.bindList c).foldl (fun s bind => s.copyBind cvar bind) s)) ∧
      ∀ fwd, fwd ∈ r.clearHooks.forwards ↔ fwd ∈ r.lost := by
  have sound := sound_of_reachable (Machine.Reaches.of_exec (.init rfl) run)
  refine ⟨fun fwd => ?_, fun c => ⟨?_, (sound.once c).filter _, fun fwd runs => ?_⟩,
    fun _ _ c cvar value agrees keeps => onChange_executed agrees keeps c cvar value,
    sound.mem_clearHooks⟩
  · rw [sound.entry]
    constructor
    · rintro ⟨c, member⟩
      exact ⟨c, member, fun d other => sound.owner d c fwd other member⟩
    · exact ExistsUnique.exists
  · rw [executed, sound_empty.cvarHookList_of_exec run c]
    rfl
  · have on : r.hookState fwd = some true := of_decide_eq_true (List.mem_filter.1 runs).2
    exact (sound.live fwd).2 (.inl (by rw [on]; rfl))

/-- Two hooks of a cvar, of which one is disabled and enabled again, and a forward that is lost. -/
theorem registry_sound_twoHooks : ∃ r : Registry,
    (r.executed 4 = [1, 3] ∧ r.forwards = [5, 3, 1] ∧ r.clearHooks.forwards = [5]) ∧
      (∀ fwd, (r.hookState fwd).isSome ↔ ∃! c, fwd ∈ r.cvarHookList c) ∧
      ∀ c, (r.executed c).Nodup ∧ ∀ fwd ∈ r.executed c, fwd ∈ r.forwards := by
  let actions : List Action := [.hook (some 1) (some 4) true, .hook (some 3) (some 4) true,
    .state 1 false, .hook (some 5) none true, .state 1 true]
  have ends : (machine.exec empty actions).map (fun r => decide (r.executed 4 = [1, 3] ∧
      r.forwards = [5, 3, 1] ∧ r.clearHooks.forwards = [5])) = some true := by decide +kernel
  obtain ⟨r, run, facts⟩ := Option.map_eq_some_iff.1 ends
  obtain ⟨once, order, -, -⟩ := registry_sound run
  exact ⟨r, of_decide_eq_true facts, once, fun c => (order c).2⟩

end Registry

end Refsapi.Cvars
