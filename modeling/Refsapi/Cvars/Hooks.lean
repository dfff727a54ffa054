/-
# Cvars.Hooks -- change hooks that set cvars

The hooks of a change run in the middle of `on_direct_set`: the variables have their
conversions, and the record still shows the old string.  A hook may set cvars, this one too,
and each of its calls is an `on_direct_set` of its own that ends before the hook returns.
`Sets` is such a call with all that is nested in it, whatever the hooks do.

What is coherent stays so (`coherent_of_kept`) unless a hook leaves the cvar with another
string than the one that `on_direct_set` has in its hands, and then saves.
-/
import Mathlib.Logic.Relation
import Refsapi.Cvars.Binds

namespace Refsapi.Cvars

set_option autoImplicit false

/-! ## `set` -/

/-- The value that `set` gets, of one of the types. -/
inductive Setting where
  | num (x : Cell)
  | flt (x : Cell)
  | str (value : Text)
  | flg (x : Cell)

/-- The string that `set` gives to the engine. -/
def Setting.text : Setting → Text
  | num x =>
      (Fp.sign (decide (x.toInt < 0)) ++ Nat.toDigits 10 x.toInt.natAbs).map printValue.ascii
  | flt x => (Fp.ofBits x).printF.map printValue.ascii
  | str value => value
  | flg x => getFlags x

/-- A call of `set`, for a record or for a name. -/
inductive SetCall where
  | pcvar (c : Nat) (setting : Setting)
  | cvar (name : Wide) (setting : Setting)

/-- The cvar that it is for, if there is one. -/
def SetCall.target (env : Env) (s : State) : SetCall → State × Option Nat
  | pcvar c _ => (s, some c)
  | cvar name _ => s.getName env name

def SetCall.text : SetCall → Text
  | pcvar _ setting => setting.text
  | cvar _ setting => setting.text

/-! ## Nested calls -/

/-- A condition on a state, a cvar and a string that it is to get. -/
abbrev Condition : Type := State → Nat → Text → Prop

/-- What a hook does in one call of `set`. -/
def Plays (env : Env) (call : Condition) (sets : State → Nat → Text → State → Prop)
    (s s' : State) : Prop :=
  ∃ setCall : SetCall,
    match setCall.target env s with
    | (t, none) => s' = t
    | (t, some c) => call t c setCall.text ∧ sets t c setCall.text s'

/-- `Cvar_DirectSet` with hooks that call `set` as often as they want, nested less than
`depth` deep.  `call` holds of each call that a hook makes, and `save` of the state in which
the hooks leave `on_direct_set`. -/
def Sets (env : Env) (call save : Condition) : Nat → State → Nat → Text → State → Prop
  | 0, _, _, _, _ => False
  | depth + 1, s, c, value, s' => ∃ (run : Forwards) (set : Setter),
      (∀ t d other t', set t d other = some t' → Sets env call save depth t d other t') ∧
      (∀ t fwd d before after t', run t fwd d before after = some t' →
        Relation.ReflTransGen (Plays env call (Sets env call save depth)) t t') ∧
      (∀ cvar t, (s.store env c value).cvars[c]? = some cvar →
        (s.store env c value).onChange run c cvar (stows value) = some t → save t c value) ∧
      (s.store env c value).onDirectSet env run set c (stows value) = some s'

/-! ## Coherence -/

variable {env : Env} {s s' : State} {busy : Nat → Prop}

/-- The records show the strings of the engine, but those of some cvars. -/
def State.Shown (s : State) (busy : Nat → Prop) : Prop :=
  ∀ (c : Nat) (m : Tracked) (cvar : Cvar), ¬ busy c → s.pCvar c = some m →
    s.cvars[c]? = some cvar → m.value = stows cvar.string

/-- The variables hold the conversions of their cvars, and the records show the strings, but
those of some cvars. -/
structure State.CoherentBut (env : Env) (s : State) (busy : Nat → Prop) : Prop where
  kept : s.Kept env
  follows : s.Follows
  shown : s.Shown busy

abbrev State.Coherent (env : Env) (s : State) : Prop := s.CoherentBut env fun _ => False

theorem State.CoherentBut.mono (coherent : s.CoherentBut env busy) {more : Nat → Prop}
    (le : ∀ c, busy c → more c) : s.CoherentBut env more :=
  ⟨coherent.kept, coherent.follows, fun c m cvar idle =>
    coherent.shown c m cvar fun isBusy => idle (le c isBusy)⟩

/-- A record that is new shows its string. -/
theorem State.CoherentBut.addExists (coherent : s.CoherentBut env busy) (cvar : Option Nat)
    (params : Params) : (s.addExists cvar params).1.CoherentBut env busy := by
  have good := State.Good.addExists ⟨coherent.kept, coherent.follows⟩ cvar params
  refine ⟨good.1, good.2, ?_⟩
  unfold State.addExists
  cases cvar with
  | none => exact coherent.shown
  | some c =>
      simp only
      split
      · exact coherent.shown
      split
      · exact coherent.shown
      next cvar isCvar =>
        intro d m other idle isRecord isOther
        simp only [Function.update_apply] at isRecord
        split at isRecord
        · next isC =>
            subst isC
            cases isRecord
            rw [Option.some.inj (isCvar.symm.trans isOther)]
        · exact coherent.shown d m other idle isRecord isOther

theorem State.CoherentBut.target (coherent : s.CoherentBut env busy) (setCall : SetCall) :
    (setCall.target env s).1.CoherentBut env busy := by
  cases setCall with
  | pcvar c setting => exact coherent
  | cvar name setting =>
      exact getName_keeps (I := fun s => s.CoherentBut env busy) env
        (fun _ cvar params coherent => coherent.addExists cvar params) coherent name

/-- The strings but one. -/
theorem getElem?_store {c d : Nat} (value : Text) (other : d ≠ c) :
    (s.store env c value).cvars[d]? = s.cvars[d]? := by
  simp [State.store, Ne.symm other]

/-- A record gets a value. -/
theorem pCvar_setValue {c d : Nat} {value : Wide} {m : Tracked}
    (isRecord : (s.modify c fun m => { m with value := value }).pCvar d = some m) :
    (d = c ∧ m.value = value) ∨ (d ≠ c ∧ s.pCvar d = some m) := by
  simp only [State.modify, Function.update_apply] at isRecord
  split at isRecord
  · next isC =>
      obtain ⟨before, -, rfl⟩ := Option.map_eq_some_iff.1 isRecord
      exact .inl ⟨isC, rfl⟩
  · next other => exact .inr ⟨other, isRecord⟩

/-! ## Calls that keep it -/

/-- A call is heard: the manager takes a string for an old one only if it is, and corrects one
only if the record is in step. -/
def HeardSet (env : Env) : Condition := fun s c value => Heard env s (.directSet 0 c value)

/-- The engine has the string that is saved. -/
def Keeps : Condition := fun s c value =>
  ∀ cvar, s.cvars[c]? = some cvar → stows cvar.string = stows value

/-- What the hooks do after the variables are copied. -/
theorem chain_of_onChange {call : Condition} {sets : State → Nat → Text → State → Prop}
    {run : Forwards} (hooks : ∀ t fwd d before after t', run t fwd d before after = some t' →
      Relation.ReflTransGen (Plays env call sets) t t') {c : Nat} {cvar : Cvar} {value : Wide}
    (changes : s.onChange run c cvar value = some s') :
    Relation.ReflTransGen (Plays env call sets)
      { s with memory := copyAll cvar s.memory (s.bindList c) } s' := by
  refine onChange_keeps (I := Relation.ReflTransGen (Plays env call sets) _)
    (fun t fwd before after t' played ran => ?_) .refl changes
  exact played.trans (hooks t fwd c before after t' ran)

/-- The hooks keep what every one of their calls keeps. -/
theorem chain_coherentBut {sets : State → Nat → Text → State → Prop}
    (each : ∀ {s c value s'}, s.CoherentBut env busy → HeardSet env s c value →
      sets s c value s' → s'.CoherentBut env busy)
    (coherent : s.CoherentBut env busy)
    (chain : Relation.ReflTransGen (Plays env (HeardSet env) sets) s s') :
    s'.CoherentBut env busy := by
  induction chain with
  | refl => exact coherent
  | @tail t u before step ih =>
      obtain ⟨setCall, plays⟩ := step
      have found := ih.target setCall
      generalize setCall.target env t = target at plays found
      obtain ⟨t₁, _ | c⟩ := target
      · exact plays ▸ found
      · exact each found plays.1 plays.2

/-- A string is to be set to a tracked cvar whose variables show an older one. -/
structure Pending (env : Env) (busy : Nat → Prop) (s : State) (c : Nat) (m : Tracked)
    (old : Cvar) (value : Text) : Prop where
  behind : s.Behind env c old
  shown : s.Shown fun d => busy d ∨ d = c
  isRecord : s.pCvar c = some m
  old_of_shown : m.type = .none ∨ m.value = stows value → value = old.string
  stands_or : m.verdict value = .stands ∨ s.InStep env c old m

/-- Calls of that depth make coherent what they are for. -/
def Settles (env : Env) (depth : Nat) : Prop :=
  ∀ (busy : Nat → Prop) (s s' : State) (c : Nat) (m : Tracked) (old : Cvar) (value : Text),
    Pending env busy s c m old value → Sets env (HeardSet env) Keeps depth s c value s' →
      s'.CoherentBut env fun d => busy d ∧ d ≠ c

/-- Whether the record of one cvar shows its string besides. -/
theorem State.Shown.own {c : Nat} (shown : s.Shown fun d => busy d ∨ d = c)
    (own : ∀ m cvar, s.pCvar c = some m → s.cvars[c]? = some cvar → m.value = stows cvar.string) :
    s.Shown fun d => busy d ∧ d ≠ c := by
  intro d m cvar free isRecord isCvar
  by_cases isC : d = c
  · exact own m cvar (isC ▸ isRecord) (isC ▸ isCvar)
  · exact shown d m cvar (fun isBusy => free ⟨isBusy.resolve_right isC, isC⟩) isRecord isCvar

/-- The strings of the other cvars are shown as before. -/
theorem State.Shown.store (env : Env) {c : Nat} (shown : s.Shown fun d => busy d ∨ d = c)
    (value : Text) :
    (s.store env c value).Shown fun d => busy d ∨ d = c := by
  intro d m cvar free isRecord isCvar
  rw [getElem?_store value (not_or.1 free).2] at isCvar
  exact shown d m cvar free isRecord isCvar

/-- The string is there, and the record shows it. -/
theorem coherentBut_of_shown {c : Nat} {m : Tracked} {cvar : Cvar} (kept : s.Kept env)
    (follows : s.Follows) (shown : s.Shown fun d => busy d ∨ d = c) (isRecord : s.pCvar c = some m)
    (isCvar : s.cvars[c]? = some cvar) (shows : m.value = stows cvar.string) :
    s.CoherentBut env fun d => busy d ∧ d ≠ c := by
  refine ⟨kept, follows, shown.own fun k other isK isOther => ?_⟩
  obtain rfl : m = k := Option.some.inj (isRecord.symm.trans isK)
  rw [Option.some.inj (isOther.symm.trans isCvar)]
  exact shows

/-- The record gets the string that the engine has. -/
theorem coherentBut_of_saved {c : Nat} {value : Text} (kept : s.Kept env) (follows : s.Follows)
    (shown : s.Shown fun d => busy d ∨ d = c) (keeps : Keeps s c value) :
    (s.modify c fun m => { m with value := stows value }).CoherentBut env
      fun d => busy d ∧ d ≠ c := by
  refine ⟨kept.setValue _, follows, State.Shown.own (fun d m cvar free isRecord isCvar => ?_)
    fun m cvar isRecord isCvar => ?_⟩
  · rcases pCvar_setValue isRecord with ⟨isC, -⟩ | ⟨-, isRecord⟩
    · exact absurd (.inr isC) free
    · exact shown d m cvar free isRecord isCvar
  · rcases pCvar_setValue isRecord with ⟨-, saved⟩ | ⟨other, -⟩
    · exact saved.trans (keeps cvar isCvar).symm
    · exact absurd rfl other

/-- One level of calls: what is set where a string does not stand is of the level below, and
so is what the hooks set. -/
theorem Settles.succ {depth : Nat} (settles : Settles env depth)
    (each : ∀ {busy : Nat → Prop} {s c value s'}, s.CoherentBut env busy →
      HeardSet env s c value → Sets env (HeardSet env) Keeps depth s c value s' →
      s'.CoherentBut env busy) : Settles env (depth + 1) := by
  rintro busy s s' c m old value ⟨behind, shown, isRecord, old_of_shown, stands_or⟩
    ⟨run, set, nested, hooks, saves, ends⟩
  obtain ⟨cvar, isCvar, stored⟩ := behind.stored isRecord value
  have after := behind.store value
  have others := shown.store env value
  have keeps : Keeps (s.store env c value) c value := by
    intro other isOther
    rw [Option.some.inj (isOther.symm.trans stored)]
  have same (isOld : value = old.string) : (s.store env c value).Follows :=
    behind.follows_store isOld
  rw [onDirectSet_store set value isRecord isCvar (behind.kept.found c cvar isCvar)
    fun falls => (stands_or.resolve_left falls).2] at ends
  split at ends
  · next is =>
      cases ends
      exact coherentBut_of_shown after.kept (same (old_of_shown (.inr is))) others isRecord stored
        is
  next unlike =>
  split at ends
  · next untyped =>
      cases ends
      exact coherentBut_of_saved after.kept (same (old_of_shown (.inl untyped))) others keeps
  next typed =>
  split at ends
  · next other found =>
      have falls : m.verdict value ≠ .stands := by
        intro stands
        rw [stands] at found
        cases found
      have inStep := stands_or.resolve_left falls
      refine settles busy _ s' c m old other ⟨after, others, isRecord, fun is => ?_,
        .inr (inStep.store value)⟩ (nested _ _ _ _ ends)
      exact inStep.1 other (mem_corrections found) (is.resolve_left typed)
  · obtain ⟨t, changes, rfl⟩ := Option.map_eq_some_iff.1 ends
    have saved := saves _ t stored changes
    -- the hooks begin with variables that have their conversions
    have begun : State.CoherentBut env { s.store env c value with
        memory := copyAll { cvar with string := value, value := env.atof value }
          (s.store env c value).memory ((s.store env c value).bindList c) }
        fun d => busy d ∨ d = c :=
      ⟨after.kept.setMemory _, after.follows_copyAll stored, others⟩
    have left := chain_coherentBut each begun (chain_of_onChange hooks changes)
    exact coherentBut_of_saved left.kept left.follows left.shown saved

/-- A call that is heard, while some cvars are busy. -/
theorem coherentBut_of_heard {depth : Nat} (settles : Settles env depth) {c : Nat} {value : Text}
    (coherent : s.CoherentBut env busy) (heard : HeardSet env s c value)
    (sets : Sets env (HeardSet env) Keeps depth s c value s') :
    s'.CoherentBut env fun d => busy d ∧ d ≠ c := by
  have shown : s.Shown fun d => busy d ∨ d = c :=
    fun d m cvar free => coherent.shown d m cvar (not_or.1 free).1
  have good : s.Good env := ⟨coherent.kept, coherent.follows⟩
  obtain _ | depth := depth
  · cases sets
  cases isRecord : s.pCvar c with
  | none =>
      obtain ⟨run, set, -, -, -, ends⟩ := sets
      have unbound : s.bindList c = [] := by
        by_contra bound
        exact coherent.kept.tracked c bound isRecord
      have untracked (m : Tracked) : s.pCvar c ≠ some m := by simp [isRecord]
      cases isCvar : s.cvars[c]? with
      | none =>
          -- there is no such cvar
          have same : s.store env c value = s := by
            simp [State.store, List.modify_eq_self (List.getElem?_eq_none_iff.1 isCvar)]
          have stays : s' = s := by
            simpa [same, State.onDirectSet, State.getTracked, State.addExists, isRecord, isCvar,
              eq_comm] using ends
          rw [stays]
          exact ⟨coherent.kept, coherent.follows, shown.own fun m _ isK => absurd isK (untracked m)⟩
      | some cvar =>
          have after := (good.behind isCvar).store value
          rw [onDirectSet_of_untracked run set value isRecord isCvar] at ends
          cases ends
          exact State.CoherentBut.addExists ⟨after.kept, after.follows_of_unbound unbound,
            (shown.store env value).own fun m _ isK => absurd isK (untracked m)⟩ _ _
  | some m =>
      obtain ⟨cvar, isCvar⟩ : ∃ cvar, s.cvars[c]? = some cvar :=
        ⟨_, List.getElem?_eq_getElem (coherent.kept.inside c (by simp [isRecord]))⟩
      by_cases unbound : s.bindList c = []
      · have untyped : m.type = .none := by
          by_contra typed
          exact coherent.kept.typed c m isRecord typed unbound
        have stored : (s.store env c value).cvars[c]? =
            some { cvar with string := value, value := env.atof value } := by
          simp [State.store, isCvar]
        have after := (good.behind isCvar).store value
        obtain ⟨run, set, -, -, -, ends⟩ := sets
        rw [onDirectSet_store set value isRecord isCvar (coherent.kept.found c cvar isCvar)
          fun falls => absurd (verdict_of_untyped untyped value) falls, if_pos untyped] at ends
        split at ends
        · next is =>
            cases ends
            exact coherentBut_of_shown after.kept (after.follows_of_unbound unbound)
              (shown.store env value) isRecord stored is
        · cases ends
          refine coherentBut_of_saved after.kept (after.follows_of_unbound unbound)
            (shown.store env value) fun other isOther => ?_
          rw [Option.some.inj (isOther.symm.trans stored)]
      · obtain ⟨old_of_shown, stands_or⟩ := heard m isRecord cvar isCvar unbound
        exact settles busy s s' c m cvar value ⟨good.behind isCvar, shown, isRecord,
          old_of_shown, stands_or⟩ sets

theorem settles_all (depth : Nat) : Settles env depth := by
  induction depth with
  | zero =>
      intro busy s s' c m old value _ sets
      cases sets
  | succ depth ih =>
      exact ih.succ fun coherent heard sets =>
        (coherentBut_of_heard ih coherent heard sets).mono fun _ isBusy => isBusy.1

/-- **Hooks that set cvars.**  What is coherent stays so, whatever the hooks set, as long as
each call is heard and no `on_direct_set` saves another string than the hooks have left to the
engine. -/
theorem coherent_of_kept (env : Env) {depth : Nat} {s s' : State} {c : Nat} {value : Text}
    (coherent : s.Coherent env) (heard : HeardSet env s c value)
    (sets : Sets env (HeardSet env) Keeps depth s c value s') : s'.Coherent env :=
  (coherentBut_of_heard (settles_all depth) coherent heard sets).mono fun _ isBusy => isBusy.1

/-- What is saved of another string is not coherent. -/
theorem keeps_of_saved {c : Nat} {value : Text} (tracked : s.pCvar c ≠ none)
    (coherent : (s.modify c fun m => { m with value := stows value }).Coherent env) :
    Keeps s c value := by
  intro cvar isCvar
  obtain ⟨m, isRecord⟩ := Option.ne_none_iff_exists'.1 tracked
  have shows := coherent.shown c { m with value := stows value } cvar (fun never => never)
    (by simp [State.modify, isRecord]) isCvar
  exact shows.symm

/-- What hooks do that leave the cvars alone. -/
theorem sets_of_quiet {call save : Condition}
    (keeps : ∀ t c value, Keeps t c value → save t c value)
    {depth c : Nat} {value : Text} (sets : directSet env quiet depth s c value = some s') :
    Sets env call save depth s c value s' := by
  induction depth generalizing s c value s' with
  | zero => cases sets
  | succ depth ih =>
      refine ⟨quiet, directSet env quiet depth, fun t d other t' => ih,
        fun t fwd d before after t' ran => ?_, fun cvar t stored changes => ?_, sets⟩
      · cases ran
        exact .refl
      · rw [onChange_quiet] at changes
        cases changes
        refine keeps _ _ _ fun other isOther => ?_
        obtain ⟨before, -, rfl⟩ := Option.map_eq_some_iff.1
          ((List.getElem?_modify ..).symm.trans isOther)
        simp

instance (c : Nat) (value : Text) : Decidable (HeardSet env s c value) :=
  inferInstanceAs (Decidable (Heard env s (.directSet 0 c value)))

/-! ## Two hooks -/

def xCvar : Cvar := ⟨[0x78], [0x31], .fin false 1, 0⟩

def yCvar : Cvar := ⟨[0x79], [0x31], .fin false 1, 0⟩

def xRecord : Tracked :=
  { name := ['x'], value := ['1'], desc := [], hasMin := false, hasMax := false,
    minVal := .fin false 0, maxVal := .fin false 0, type := .num, flags := 0 }

/-- The cvars `x` and `y` are 1; `x` has a variable, and a hook. -/
def hooked : State :=
  { State.empty with
    cvars := [xCvar, yCvar]
    pCvar := fun c => if c = 0 then some xRecord else none
    bindList := fun c => if c = 0 then [⟨8, .num, 1⟩] else []
    cvarHookList := fun c => if c = 0 then [7] else []
    hookState := fun fwd => fwd == 7
    memory := fun i => if i = 8 then 1 else 0 }

theorem hooked_coherent : hooked.Coherent .plain := by
  have cvars {c : Nat} {cvar : Cvar} (isCvar : hooked.cvars[c]? = some cvar) :
      (c = 0 ∧ cvar = xCvar) ∨ (c = 1 ∧ cvar = yCvar) := by
    obtain _ | _ | c := c
    · exact .inl ⟨rfl, (Option.some.inj isCvar).symm⟩
    · exact .inr ⟨rfl, (Option.some.inj isCvar).symm⟩
    · cases isCvar
  have binds {c : Nat} {bind : PtrBind} (member : bind ∈ hooked.bindList c) :
      c = 0 ∧ bind = ⟨8, .num, 1⟩ := by
    simp only [hooked] at member
    split at member
    · next isX => exact ⟨isX, List.mem_singleton.1 member⟩
    · cases member
  have record {c : Nat} {m : Tracked} (isRecord : hooked.pCvar c = some m) :
      c = 0 ∧ m = xRecord := by
    simp only [hooked] at isRecord
    split at isRecord
    · next isX => exact ⟨isX, (Option.some.inj isRecord).symm⟩
    · cases isRecord
  refine ⟨⟨fun c cvar isCvar => ?_, fun c cvar isCvar => ?_, fun c tracked => ?_,
    fun c bound => ?_, fun c m isRecord _ => ?_, fun c => ?_, fun c d other a isA b isB => ?_⟩,
    fun c cvar bind isCvar member => ?_, fun c m cvar _ isRecord isCvar => ?_⟩
  · rcases cvars isCvar with ⟨-, rfl⟩ | ⟨-, rfl⟩ <;> decide +kernel
  · rcases cvars isCvar with ⟨rfl, rfl⟩ | ⟨rfl, rfl⟩ <;> decide +kernel
  · obtain ⟨m, isRecord⟩ := Option.ne_none_iff_exists'.1 tracked
    obtain ⟨rfl, -⟩ := record isRecord
    decide
  · obtain ⟨bind, member⟩ := List.exists_mem_of_ne_nil _ bound
    obtain ⟨rfl, -⟩ := binds member
    decide
  · obtain ⟨rfl, -⟩ := record isRecord
    decide
  · simp only [hooked]
    split
    · exact List.pairwise_singleton _ _
    · exact .nil
  · exact absurd ((binds isA).1.trans (binds isB).1.symm) other
  · obtain ⟨rfl, rfl⟩ := binds member
    rcases cvars isCvar with ⟨-, rfl⟩ | ⟨second, -⟩
    · intro i cell found
      have cells : PtrBind.cells ⟨8, .num, 1⟩ xCvar = [1] := by decide +kernel
      rw [cells] at found
      obtain _ | i := i
      · exact Option.some.inj found
      · cases found
    · cases second
  · obtain ⟨rfl, rfl⟩ := record isRecord
    rcases cvars isCvar with ⟨-, rfl⟩ | ⟨second, -⟩
    · decide
    · cases second

/-- A hook that sets `y` to 3. -/
def setsY : Forwards := fun s _ _ _ _ =>
  if HeardSet .plain s 1 [0x33] then directSet .plain quiet 1 s 1 [0x33] else none

/-- `x` is set to 2, and its hook sets `y`. -/
theorem coherent_of_kept_other : ∃ s' : State,
    s'.cvars.map Cvar.string = [[0x32], [0x33]] ∧ s'.Coherent .plain := by
  have ends : ((hooked.store .plain 0 [0x32]).onDirectSet .plain setsY (fun _ _ _ => none) 0
      (stows [0x32])).map (fun s => s.cvars.map Cvar.string == [[0x32], [0x33]]) = some true := by
    decide +kernel
  have leaves : ((hooked.store .plain 0 [0x32]).onChange setsY 0
      { xCvar with string := [0x32], value := .fin false 2 } ['2']).map
        (fun t => (t.cvars[0]?).map Cvar.string) = some (some [0x32]) := by decide +kernel
  obtain ⟨s', direct, strings⟩ := Option.map_eq_some_iff.1 ends
  have sets : Sets .plain (HeardSet .plain) Keeps 2 hooked 0 [0x32] s' := by
    refine ⟨setsY, fun _ _ _ => none, fun t d other t' failed => ?_,
      fun t fwd d before after t' ran => ?_, fun cvar t isCvar changes cvar' isCvar' => ?_, direct⟩
    · cases failed
    · simp only [setsY] at ran
      split at ran
      · next heard => exact .single ⟨.pcvar 1 (.str [0x33]), heard,
          sets_of_quiet (fun _ _ _ keeps => keeps) ran⟩
      · cases ran
    · have stored : (hooked.store .plain 0 [0x32]).cvars[0]? =
          some { xCvar with string := [0x32], value := .fin false 2 } := by decide +kernel
      obtain rfl := Option.some.inj (stored.symm.trans isCvar)
      rw [show stows [0x32] = ['2'] by decide +kernel] at changes
      rw [changes, Option.map_some, isCvar', Option.map_some] at leaves
      rw [Option.some.inj (Option.some.inj leaves)]
  exact ⟨s', beq_iff_eq.1 strings,
    coherent_of_kept .plain hooked_coherent (by decide +kernel) sets⟩

/-- A hook that sets `x` to 5. -/
def setsX : Forwards := fun s _ _ _ _ => directSet .plain quiet 1 s 0 [0x35]

/-- `x` is set to 2, and its hook sets it to 5: the record shows the 2. -/
theorem not_always_coherent : ¬ ∀ env depth s s' c value, State.Coherent env s →
    Sets env (fun _ _ _ => True) (fun _ _ _ => True) depth s c value s' →
      State.Coherent env s' := by
  intro always
  have ends : ((hooked.store .plain 0 [0x32]).onDirectSet .plain setsX (fun _ _ _ => none) 0
      (stows [0x32])).map (fun s => (s.cvars[0]?).map Cvar.string == some [0x35] &&
        (s.pCvar 0).map (fun m => m.value) == some ['2']) = some true := by decide +kernel
  obtain ⟨s', direct, facts⟩ := Option.map_eq_some_iff.1 ends
  have sets : Sets .plain (fun _ _ _ => True) (fun _ _ _ => True) 2 hooked 0 [0x32] s' := by
    refine ⟨setsX, fun _ _ _ => none, fun t d other t' failed => ?_,
      fun t fwd d before after t' ran => ?_, fun _ _ _ _ => trivial, direct⟩
    · cases failed
    · exact .single ⟨.pcvar 0 (.str [0x35]), trivial, 
        sets_of_quiet (fun _ _ _ _ => trivial) ran⟩
  have coherent := always .plain 2 hooked s' 0 [0x32] hooked_coherent sets
  simp only [Bool.and_eq_true, beq_iff_eq, Option.map_eq_some_iff] at facts
  obtain ⟨⟨cvar, isCvar, string⟩, m, isRecord, value⟩ := facts
  have shows := coherent.shown 0 m cvar (fun never => never) isRecord isCvar
  rw [value, string] at shows
  revert shows
  decide +kernel

end Refsapi.Cvars
