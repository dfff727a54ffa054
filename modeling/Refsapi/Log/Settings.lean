/-
# Log.Settings -- the log settings of the plugins

`get_config` copies the entry of a plugin into the `prm` of its caller.  Where there is no entry
it has `add_config` make one, and leaves `prm` as it was declared, without a value.  And
`add_config` inserts: an entry that is there already stays what it is.  So the first `rf_log` of a
plugin is filtered with what the stack holds, and an `rf_log_config` that comes after it says
that it has succeeded and changes nothing.

`settings_iff` says which calls keep the settings, over every sequence of them.
-/
import Refsapi.Misc.Path

namespace Refsapi.Log.Settings

set_option autoImplicit false

/-! ## Data -/

/-- What `get_plugin` answers with. -/
structure Plugin where
  plugin : Nat
  name : List Char
  deriving DecidableEq, Repr

/-- `plugin_prm_t`. -/
structure PluginPrm where
  amx : Nat
  plugin : Nat
  pluginName : List Char
  path : List Char
  name : List Char
  logLevel : BitVec 32
  prefixMode : BitVec 8
  deriving DecidableEq, Repr

abbrev PluginPrms := Nat → Option PluginPrm

/-- The arguments after the plugin. -/
structure Args where
  path : List Char
  name : List Char
  logLevel : BitVec 32
  prefixMode : BitVec 32

def Args.byDefault : Args := ⟨[], [], -1, 2⟩

/-- `api_cfg`. -/
structure LogConfig extends ApiConfig where
  logPath : List Char

/-- The members of a declared `plugin_prm_t` that have no initial value. -/
structure Junk where
  amx : Nat
  plugin : Nat
  logLevel : BitVec 32
  prefixMode : BitVec 8

def Junk.prm (junk : Junk) : PluginPrm :=
  ⟨junk.amx, junk.plugin, [], [], [], junk.logLevel, junk.prefixMode⟩

/-! ## Functions -/

/-- `get_plugin`; `found` is what the lookup of a script by its `amx` gives. -/
def getPlugin (found : Option Plugin) (amx : Nat) : Option Plugin := if amx = 0 then none else found

/-- `std::map::insert`. -/
def insert (prms : PluginPrms) (amx : Nat) (prm : PluginPrm) : PluginPrms :=
  if (prms amx).isSome then prms else Function.update prms amx (some prm)

/-- The entry that `add_config` makes. -/
def newPrm (cfg : LogConfig) (plugin : Plugin) (amx : Nat) (args : Args) : PluginPrm :=
  let file := cfg.makePath ⟨args.path, args.name, cfg.logPath, plugin.name, ['.', 'l', 'o', 'g']⟩
  { amx := amx
    plugin := plugin.plugin
    pluginName := plugin.name
    path := file.1
    name := file.2
    logLevel := args.logLevel
    prefixMode := args.prefixMode.setWidth 8 }

/-- `add_config`, with what it returns. -/
def addConfig (cfg : LogConfig) (prms : PluginPrms) (found : Option Plugin) (amx : Nat)
    (args : Args) : PluginPrms × Bool :=
  match getPlugin found amx with
  | none => (prms, false)
  | some plugin => (insert prms amx (newPrm cfg plugin amx args), true)

/-- What `get_config` leaves. -/
structure Config where
  prms : PluginPrms
  prm : PluginPrm
  answer : Bool

/-- `get_config`. -/
def getConfig (cfg : LogConfig) (prms : PluginPrms) (found : Option Plugin) (amx : Nat)
    (prm : PluginPrm) (args : Args) : Config :=
  if amx = 0 then ⟨prms, prm, false⟩
  else match prms amx with
    | none =>
        let added := addConfig cfg prms found amx args
        ⟨added.1, prm, added.2⟩
    | some entry => ⟨prms, entry, true⟩

/-- `get_log_level`, with the entries that it leaves. -/
def getLogLevel (cfg : LogConfig) (prms : PluginPrms) (found : Option Plugin) (amx : Nat)
    (junk : Junk) : PluginPrms × BitVec 32 :=
  let config := getConfig cfg prms found amx junk.prm .byDefault
  (config.prms, if config.answer then config.prm.logLevel else -1)

/-- What `rf_log` leaves: the level that it filters with, and what it returns. -/
structure Logged where
  prms : PluginPrms
  level : BitVec 32
  answer : Bool

/-- `rf_log`, as far as `get_config` in `write_file`. -/
def rfLog (cfg : LogConfig) (prms : PluginPrms) (found : Option Plugin) (amx : Nat) (junk : Junk)
    (logLevel : BitVec 32) : Logged :=
  let level := getLogLevel cfg prms found amx junk
  if level.2 &&& logLevel = 0 then ⟨level.1, level.2, false⟩
  else if getPlugin found amx = none then ⟨level.1, level.2, true⟩
  else ⟨(getConfig cfg level.1 found amx junk.prm .byDefault).prms, level.2, true⟩

/-! ## Sequences of calls -/

inductive Call where
  | rfLogConfig (found : Option Plugin) (amx : Nat) (args : Args)
  | rfLog (found : Option Plugin) (amx : Nat) (junk : Junk) (logLevel : BitVec 32)
  /-- `get_config` in the `open_file` of a writer -/
  | openFile (found : Option Plugin) (amx : Nat) (junk : Junk)
  /-- the change of the map -/
  | closeAll

/-- The entries after a call. -/
def Call.run (cfg : LogConfig) (prms : PluginPrms) : Call → PluginPrms
  | .rfLogConfig found amx args => (addConfig cfg prms found amx args).1
  | .rfLog found amx junk logLevel => (Settings.rfLog cfg prms found amx junk logLevel).prms
  | .openFile found amx junk => (getConfig cfg prms found amx junk.prm .byDefault).prms
  | .closeAll => fun _ => none

/-- The entries after a sequence of calls, whose last one stands first. -/
def after (cfg : LogConfig) : List Call → PluginPrms
  | [] => fun _ => none
  | call :: before => call.run cfg (after cfg before)

/-- The level of the entry. -/
def storedLevel (prms : PluginPrms) (amx : Nat) : BitVec 32 :=
  ((prms amx).map PluginPrm.logLevel).getD (-1)

/-- The level that the latest successful `rf_log_config` of the map was given. -/
def givenLevel (amx : Nat) : List Call → Option (BitVec 32)
  | [] => none
  | .closeAll :: _ => none
  | .rfLogConfig found x args :: before =>
      if x = amx ∧ (getPlugin found x).isSome then some args.logLevel else givenLevel amx before
  | _ :: before => givenLevel amx before

/-- Each plugin's level is the one that it was given. -/
def Stored (cfg : LogConfig) (calls : List Call) : Prop :=
  ∀ amx, storedLevel (after cfg calls) amx = (givenLevel amx calls).getD (-1)

/-- The call filters with the level that is stored, and that is the one given. -/
structure Filtered (cfg : LogConfig) (calls : List Call) (found : Option Plugin) (amx : Nat)
    (junk : Junk) (logLevel : BitVec 32) : Prop where
  stored : (rfLog cfg (after cfg calls) found amx junk logLevel).level =
    storedLevel (rfLog cfg (after cfg calls) found amx junk logLevel).prms amx
  given : storedLevel (rfLog cfg (after cfg calls) found amx junk logLevel).prms amx =
    (givenLevel amx calls).getD (-1)
  answer : (rfLog cfg (after cfg calls) found amx junk logLevel).answer =
    decide ((rfLog cfg (after cfg calls) found amx junk logLevel).level &&& logLevel ≠ 0)

/-! ## What keeps the settings -/

/-- The plugin has an entry, or can have none. -/
def Settled (prms : PluginPrms) (found : Option Plugin) (amx : Nat) : Prop :=
  (prms amx).isSome = true ∨ getPlugin found amx = none

/-- An `rf_log_config` is the first call that makes the entry, or gives the level that it has. -/
def Call.Keeps (prms : PluginPrms) : Call → Prop
  | .rfLogConfig found amx args =>
      getPlugin found amx = none ∨ prms amx = none ∨ storedLevel prms amx = args.logLevel
  | _ => True

/-- Each of the calls keeps the settings. -/
def KeepAll (cfg : LogConfig) : List Call → Prop
  | [] => True
  | call :: before => call.Keeps (after cfg before) ∧ KeepAll cfg before

variable {cfg : LogConfig} {prms : PluginPrms} {found : Option Plugin} {amx : Nat}

/-! ## The functions -/

theorem insert_of_some {entry : PluginPrm} (isEntry : prms amx = some entry) (prm : PluginPrm) :
    insert prms amx prm = prms := by
  rw [insert, if_pos (by rw [isEntry]; rfl)]

theorem insert_of_none (noEntry : prms amx = none) (prm : PluginPrm) :
    insert prms amx prm = Function.update prms amx (some prm) := by
  rw [insert, if_neg (by simp [noEntry])]

theorem addConfig_of_unknown (unknown : getPlugin found amx = none) (args : Args) :
    addConfig cfg prms found amx args = (prms, false) := by
  rw [addConfig, unknown]

theorem addConfig_of_known {plugin : Plugin} (known : getPlugin found amx = some plugin)
    (args : Args) : addConfig cfg prms found amx args =
      (insert prms amx (newPrm cfg plugin amx args), true) := by
  rw [addConfig, known]

theorem storedLevel_of_none (noEntry : prms amx = none) : storedLevel prms amx = -1 := by
  rw [storedLevel, noEntry]
  rfl

theorem storedLevel_of_some {entry : PluginPrm} (isEntry : prms amx = some entry) :
    storedLevel prms amx = entry.logLevel := by
  rw [storedLevel, isEntry]
  rfl

theorem storedLevel_update {x : Nat} (other : x ≠ amx) (prm : PluginPrm) :
    storedLevel (Function.update prms amx (some prm)) x = storedLevel prms x := by
  rw [storedLevel, Function.update_of_ne other, storedLevel]

/-- An entry that a call makes for itself has the level of a plugin without one. -/
theorem storedLevel_insert (plugin : Plugin) (x : Nat) :
    storedLevel (insert prms amx (newPrm cfg plugin amx .byDefault)) x = storedLevel prms x := by
  cases isEntry : prms amx with
  | some entry => rw [insert_of_some isEntry]
  | none =>
      rw [insert_of_none isEntry]
      by_cases here : x = amx
      · subst here
        rw [storedLevel_of_none isEntry, storedLevel_of_some (Function.update_self ..)]
        rfl
      · exact storedLevel_update here _

/-- `get_config` for an entry, and without one. -/
theorem getConfig_of_some {entry : PluginPrm} (notNull : amx ≠ 0)
    (isEntry : prms amx = some entry) (prm : PluginPrm) (args : Args) :
    getConfig cfg prms found amx prm args = ⟨prms, entry, true⟩ := by
  rw [getConfig, if_neg notNull, isEntry]

theorem getConfig_of_none (notNull : amx ≠ 0) (noEntry : prms amx = none) (prm : PluginPrm)
    (args : Args) : getConfig cfg prms found amx prm args =
      ⟨(addConfig cfg prms found amx args).1, prm, (addConfig cfg prms found amx args).2⟩ := by
  rw [getConfig, if_neg notNull, noEntry]

theorem storedLevel_getConfig (prm : PluginPrm) (x : Nat) :
    storedLevel (getConfig cfg prms found amx prm .byDefault).prms x = storedLevel prms x := by
  by_cases null : amx = 0
  · rw [getConfig, if_pos null]
  cases isEntry : prms amx with
  | some entry => rw [getConfig_of_some null isEntry]
  | none =>
      rw [getConfig_of_none null isEntry]
      cases known : getPlugin found amx with
      | none => rw [addConfig_of_unknown known]
      | some plugin =>
          rw [addConfig_of_known known]
          exact storedLevel_insert plugin x

theorem storedLevel_rfLog (junk : Junk) (logLevel : BitVec 32) (x : Nat) :
    storedLevel (rfLog cfg prms found amx junk logLevel).prms x = storedLevel prms x := by
  have first : storedLevel (getLogLevel cfg prms found amx junk).1 x = storedLevel prms x :=
    storedLevel_getConfig junk.prm x
  unfold rfLog
  simp only
  split
  · exact first
  · split
    · exact first
    · exact (storedLevel_getConfig junk.prm x).trans first

theorem rfLog_level (junk : Junk) (logLevel : BitVec 32) :
    (rfLog cfg prms found amx junk logLevel).level = (getLogLevel cfg prms found amx junk).2 := by
  unfold rfLog
  simp only
  split
  · rfl
  · split <;> rfl

theorem rfLog_answer (junk : Junk) (logLevel : BitVec 32) :
    (rfLog cfg prms found amx junk logLevel).answer =
      decide ((rfLog cfg prms found amx junk logLevel).level &&& logLevel ≠ 0) := by
  rw [rfLog_level]
  unfold rfLog
  simp only
  split
  · next off => exact (decide_eq_false (not_not.2 off)).symm
  · next on => split <;> exact (decide_eq_true on).symm

/-! ## One call -/

/-- `get_config` gives the entry, unless it has just been made. -/
theorem getConfig_iff (prm : PluginPrm) (args : Args) :
    ((getConfig cfg prms found amx prm args).answer = true →
      (getConfig cfg prms found amx prm args).prms amx =
        some (getConfig cfg prms found amx prm args).prm) ↔
      Settled prms found amx ∨
        ∃ plugin, getPlugin found amx = some plugin ∧ prm = newPrm cfg plugin amx args := by
  by_cases null : amx = 0
  · rw [getConfig, if_pos null]
    exact iff_of_true (fun answer => Bool.noConfusion answer) (.inl (.inr (if_pos null)))
  cases isEntry : prms amx with
  | some entry =>
      rw [getConfig_of_some null isEntry]
      exact iff_of_true (fun _ => isEntry) (.inl (.inl (by rw [isEntry]; rfl)))
  | none =>
      rw [getConfig_of_none null isEntry]
      cases known : getPlugin found amx with
      | none =>
          rw [addConfig_of_unknown known]
          exact iff_of_true (fun answer => Bool.noConfusion answer) (.inl (.inr known))
      | some plugin =>
          have unsettled : ¬ Settled prms found amx := by simp [Settled, isEntry, known]
          rw [addConfig_of_known known, insert_of_none isEntry]
          refine ⟨fun gives => .inr ⟨plugin, rfl, ?_⟩, ?_⟩
          · have entry := gives rfl
            simp only [Function.update_self] at entry
            exact (Option.some.inj entry).symm
          · rintro (settled | ⟨_, same, rfl⟩) _
            · exact absurd settled unsettled
            · cases same
              exact Function.update_self ..

theorem getLogLevel_iff (null : prms 0 = none) (junk : Junk) :
    (getLogLevel cfg prms found amx junk).2 = storedLevel prms amx ↔
      Settled prms found amx ∨ junk.logLevel = -1 := by
  by_cases isNull : amx = 0
  · subst isNull
    refine iff_of_true ?_ (.inl (.inr (if_pos rfl)))
    rw [storedLevel_of_none null]
    rfl
  cases isEntry : prms amx with
  | some entry =>
      refine iff_of_true ?_ (.inl (.inl (by rw [isEntry]; rfl)))
      rw [storedLevel_of_some isEntry, getLogLevel, getConfig_of_some isNull isEntry]
      rfl
  | none =>
      rw [storedLevel_of_none isEntry, getLogLevel, getConfig_of_none isNull isEntry]
      cases known : getPlugin found amx with
      | none =>
          rw [addConfig_of_unknown known]
          exact iff_of_true rfl (.inl (.inr known))
      | some plugin =>
          rw [addConfig_of_known known]
          simp [Settled, isEntry, known, Junk.prm]

/-! ## Every sequence of calls -/

/-- The null `amx` has no entry. -/
theorem run_null (null : prms 0 = none) (call : Call) : call.run cfg prms 0 = none := by
  have adds (prms : PluginPrms) (null : prms 0 = none) (found : Option Plugin) (amx : Nat)
      (args : Args) : (addConfig cfg prms found amx args).1 0 = none := by
    cases known : getPlugin found amx with
    | none => rwa [addConfig_of_unknown known]
    | some plugin =>
        have other : (0 : Nat) ≠ amx := by
          rintro rfl
          cases known
        rw [addConfig_of_known known, insert]
        split
        · exact null
        · simpa only [Function.update_of_ne other] using null
  have gets (prms : PluginPrms) (null : prms 0 = none) (found : Option Plugin) (amx : Nat)
      (prm : PluginPrm) (args : Args) : (getConfig cfg prms found amx prm args).prms 0 = none := by
    unfold getConfig
    split
    · exact null
    · split
      · exact adds prms null found amx args
      · exact null
  cases call with
  | rfLogConfig found amx args => exact adds prms null found amx args
  | openFile found amx junk => exact gets prms null found amx junk.prm .byDefault
  | closeAll => rfl
  | rfLog found amx junk logLevel =>
      have first := gets prms null found amx junk.prm .byDefault
      simp only [Call.run, rfLog]
      split
      · exact first
      · split
        · exact first
        · exact gets _ first found amx junk.prm .byDefault

theorem after_null (cfg : LogConfig) (calls : List Call) : after cfg calls 0 = none := by
  induction calls with
  | nil => rfl
  | cons call before ih => exact run_null ih call

/-- **One more call.**  The levels stay those that were given if and only if the call is no
`rf_log_config` of a plugin whose entry has another level. -/
theorem stored_cons {calls : List Call} (stored : Stored cfg calls) (call : Call) :
    Stored cfg (call :: calls) ↔ call.Keeps (after cfg calls) := by
  cases call with
  | rfLog found amx junk logLevel =>
      refine iff_of_true (fun x => ?_) trivial
      exact (storedLevel_rfLog junk logLevel x).trans (stored x)
  | openFile found amx junk =>
      refine iff_of_true (fun x => ?_) trivial
      exact (storedLevel_getConfig junk.prm x).trans (stored x)
  | closeAll => exact iff_of_true (fun x => storedLevel_of_none rfl) trivial
  | rfLogConfig found amx args =>
      cases known : getPlugin found amx with
      | none =>
          refine iff_of_true (fun x => ?_) (.inl known)
          rw [after, Call.run, addConfig_of_unknown known, givenLevel, if_neg (by simp [known])]
          exact stored x
      | some plugin =>
          have others {x : Nat} (other : x ≠ amx) :
              givenLevel x (.rfLogConfig found amx args :: calls) = givenLevel x calls := by
            rw [givenLevel, if_neg (fun both => other both.1.symm)]
          have given : givenLevel amx (.rfLogConfig found amx args :: calls) =
              some args.logLevel := by
            rw [givenLevel, if_pos ⟨rfl, by rw [known]; rfl⟩]
          cases isEntry : after cfg calls amx with
          | none =>
              refine iff_of_true (fun x => ?_) (.inr (.inl isEntry))
              rw [after, Call.run, addConfig_of_known known, insert_of_none isEntry]
              by_cases here : x = amx
              · subst here
                rw [given, storedLevel_of_some (Function.update_self ..)]
                rfl
              · rw [others here]
                exact (storedLevel_update here _).trans (stored x)
          | some entry =>
              rw [Stored, after, Call.run, addConfig_of_known known, insert_of_some isEntry,
                Call.Keeps, known, isEntry]
              simp only [reduceCtorEq, false_or]
              constructor
              · intro all
                rw [all amx, given]
                rfl
              · intro same x
                by_cases here : x = amx
                · subst here
                  rw [given, same]
                  rfl
                · rw [others here]
                  exact stored x

theorem stored_of_keepAll {calls : List Call} (keep : KeepAll cfg calls) : Stored cfg calls := by
  induction calls with
  | nil => exact fun x => storedLevel_of_none rfl
  | cons call before ih => exact (stored_cons (ih keep.2) call).2 keep.1

/-- **Log settings.**  `get_config` gives the entry exactly when it has not just made it.  Over
every sequence of calls that keep the settings, one more call leaves each plugin the level that
it was given if and only if it keeps them as well, and an `rf_log` is filtered with that level
if and only if the plugin has an entry, or can have none, or the stack holds -1. -/
theorem settings_iff (cfg : LogConfig) :
    (∀ prms found amx prm args,
      ((getConfig cfg prms found amx prm args).answer = true →
        (getConfig cfg prms found amx prm args).prms amx =
          some (getConfig cfg prms found amx prm args).prm) ↔
        Settled prms found amx ∨
          ∃ plugin, getPlugin found amx = some plugin ∧ prm = newPrm cfg plugin amx args) ∧
    ∀ calls, KeepAll cfg calls →
      Stored cfg calls ∧
      (∀ call, Stored cfg (call :: calls) ↔ call.Keeps (after cfg calls)) ∧
      ∀ found amx junk logLevel, Filtered cfg calls found amx junk logLevel ↔
        Settled (after cfg calls) found amx ∨ junk.logLevel = -1 := by
  refine ⟨fun prms found amx prm args => getConfig_iff prm args, fun calls keep => ?_⟩
  have stored := stored_of_keepAll keep
  refine ⟨stored, stored_cons stored, fun found amx junk logLevel => ?_⟩
  have level : (getLogLevel cfg (after cfg calls) found amx junk).2 =
      storedLevel (after cfg calls) amx ↔ _ := getLogLevel_iff (after_null cfg calls) junk
  have kept : storedLevel (rfLog cfg (after cfg calls) found amx junk logLevel).prms amx =
      storedLevel (after cfg calls) amx := storedLevel_rfLog junk logLevel amx
  rw [← level]
  constructor
  · rintro ⟨same, -, -⟩
    rwa [rfLog_level, kept] at same
  · intro same
    refine ⟨?_, kept.trans (stored amx), rfLog_answer junk logLevel⟩
    rwa [rfLog_level, kept]

/-- A server. -/
def server : LogConfig := ⟨⟨['/', 's'], ['c']⟩, ['l']⟩

/-- A plugin that sets its level before it logs. -/
theorem settings_iff_set :
    let calls := [Call.rfLogConfig (some ⟨7, ['p']⟩) 1 ⟨[], [], 3, 2⟩]
    Filtered server calls (some ⟨7, ['p']⟩) 1 ⟨0, 0, 0, 0⟩ 1 := by
  intro calls
  have keep : KeepAll server calls := ⟨.inr (.inl rfl), trivial⟩
  exact (((settings_iff server).2 calls keep).2.2 _ _ _ _).2 (.inl (.inl rfl))

/-- The first `rf_log` of a plugin is filtered with what the stack holds; and a level that is set
after it is not stored. -/
theorem not_always_given :
    ¬ Filtered server [] (some ⟨7, ['p']⟩) 1 ⟨0, 0, 0, 0⟩ 1 ∧
    ¬ Filtered server [.rfLogConfig (some ⟨7, ['p']⟩) 1 ⟨[], [], 3, 2⟩,
      .rfLog (some ⟨7, ['p']⟩) 1 ⟨0, 0, -1, 0⟩ 1] (some ⟨7, ['p']⟩) 1 ⟨0, 0, -1, 0⟩ 4 := by
  constructor
  · intro filtered
    exact absurd filtered.stored (by decide)
  · intro filtered
    exact absurd filtered.given (by decide)

end Refsapi.Log.Settings
