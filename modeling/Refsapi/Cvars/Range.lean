/-
# Cvars.Range -- when a cvar ends in its range

`check_range` puts another string in the place of one that is outside, and the
hook is called for that one in its turn: "0" for what is no number, and a bound
for a number, as the engine prints it.  There are three such strings for a cvar,
so the calls return if one of the given string and three more stays
(`inside_iff`); else they go on until the stack is at its end.  A bound that the
engine prints outside the range, such as `0.1f` as "0.100000", does not stay.
-/
import Refsapi.Cvars.Binds
import Refsapi.Lib.Orbit

namespace Refsapi.Cvars

set_option autoImplicit false

variable {env : Env} {run : Forwards} {s s' : State} {c : Nat} {m : Tracked}

/-! ## The strings that are set one after another -/

/-- What `check_range` reads: the number that a text is. -/
def number (text : Text) : Option Fp :=
  if isNumber (trimText text) then safeStod (trimText text) else none

/-- The text is a number inside the range. -/
def Tracked.Inside (m : Tracked) (text : Text) : Prop :=
  ∃ x ∈ number text, (m.hasMin = true → x.lt m.minVal = false) ∧
    (m.hasMax = true → m.maxVal.lt x = false)

instance (text : Text) : Decidable (m.Inside text) := by
  unfold Tracked.Inside
  infer_instance

/-- The text is the one that the record shows, or `check_range` lets it stand. -/
def Tracked.Stays (m : Tracked) (text : Text) : Prop :=
  m.value = stows text ∨ m.verdict text = .stands

instance (text : Text) : Decidable (m.Stays text) := inferInstanceAs (Decidable (_ ∨ _))

/-- The text that is set next. -/
def Tracked.next (m : Tracked) (text : Text) : Text := (m.verdict text).correction.getD text

/-- The first of the text and the `n` that are set after it that stays. -/
def Tracked.settles (m : Tracked) (n : Nat) (text : Text) : Option Text :=
  Orbit.first m.Stays m.next n text

/-- What is set next, if anything is. -/
theorem next_mem {text : Text} (goes : ¬ m.Stays text) :
    m.next text ∈ ({zeroText, printValue m.minVal, printValue m.maxVal} : Finset Text) := by
  have falls : m.verdict text ≠ .stands := fun stands => goes (.inr stands)
  obtain ⟨other, found⟩ :=
    Option.ne_none_iff_exists'.1 (mt (correction_eq_none_iff _).1 falls)
  have member := mem_corrections found
  rw [Tracked.next, found]
  simpa [Tracked.corrections] using member

/-- Three corrections are as many as any. -/
theorem settles_three {n : Nat} {text other : Text} (found : m.settles n text = some other) :
    m.settles 3 text = some other :=
  Orbit.first_mono Finset.card_le_three (Orbit.first_card_of_first (fun _ => next_mem) found)

/-! ## The calls -/

/-- The hooks return, and leave the engine's cvars alone. -/
def Calm (run : Forwards) : Prop :=
  ∀ s fwd c old new, ∃ s', run s fwd c old new = some s' ∧ s'.cvars = s.cvars

theorem calm_quiet : Calm quiet := fun s _ _ _ _ => ⟨s, rfl, rfl⟩

theorem Calm.onChange (calm : Calm run) (s : State) (c : Nat) (cvar : Cvar) (value : Wide) :
    ∃ s', s.onChange run c cvar value = some s' ∧ s'.cvars = s.cvars := by
  have hooks (list : List Int) (s : State) : ∃ s', list.foldlM (fun s fwd =>
      if s.hookState fwd then
        run s fwd c (((s.pCvar c).map fun m => wstos m.value).getD []) (wstos value)
      else some s) s = some s' ∧ s'.cvars = s.cvars := by
    induction list generalizing s with
    | nil => exact ⟨s, rfl, rfl⟩
    | cons fwd rest ih =>
        rw [List.foldlM_cons]
        split
        · obtain ⟨after, runs, same⟩ :=
            calm s fwd c (((s.pCvar c).map fun m => wstos m.value).getD []) (wstos value)
          rw [runs]
          obtain ⟨s', rests, cvars⟩ := ih after
          exact ⟨s', rests, cvars.trans same⟩
        · exact ih s
  rw [State.onChange, foldl_copyBind]
  exact hooks _ _

/-- The cvar is tracked with a range, and the engine finds it under its name and under that
of its record. -/
structure State.Ranged (env : Env) (s : State) (c : Nat) (m : Tracked) : Prop where
  record : s.pCvar c = some m
  typed : m.type = .num ∨ m.type = .flt
  own : ∃ cvar, s.cvars[c]? = some cvar ∧ s.getPointer env cvar.name = some c
  named : s.getPointer env (wstos m.name) = some c

theorem State.Ranged.store (ranged : s.Ranged env c m) (value : Text) :
    (s.store env c value).Ranged env c m := by
  obtain ⟨cvar, isCvar, found⟩ := ranged.own
  refine ⟨ranged.record, ranged.typed,
    ⟨{ cvar with string := value, value := env.atof value }, ?_, ?_⟩, ?_⟩
  · simp [State.store, isCvar]
  · rw [getPointer_store]
    exact found
  · rw [getPointer_store]
    exact ranged.named

/-- The engine has the string. -/
def State.Has (s : State) (c : Nat) (text : Text) : Prop :=
  (s.cvars[c]?).map Cvar.string = some text

/-- One call: a string that stays is the last, and another one is set in the place of the
others. -/
theorem directSet_of_ranged (calm : Calm run) (ranged : s.Ranged env c m) (depth : Nat)
    (value : Text) :
    (m.Stays value ∧ ∃ s', directSet env run (depth + 1) s c value = some s' ∧ s'.Has c value) ∨
      (¬ m.Stays value ∧ directSet env run (depth + 1) s c value =
        directSet env run depth (s.store env c value) c (m.next value)) := by
  obtain ⟨cvar, isCvar, found⟩ := ranged.own
  have typed : m.type ≠ .none := by
    rcases ranged.typed with type | type <;> rw [type] <;> decide
  have stored : (s.store env c value).Has c value := by simp [State.Has, State.store, isCvar]
  rw [directSet_succ depth value ranged.record isCvar found fun _ => ranged.named, if_neg typed]
  split
  · next shown => exact .inl ⟨.inl shown, _, rfl, stored⟩
  next unlike =>
  cases verdict : (m.verdict value).correction with
  | none =>
      obtain ⟨after, changes, same⟩ := calm.onChange (s.store env c value) c
        { cvar with string := value, value := env.atof value } (stows value)
      refine .inl ⟨.inr ((correction_eq_none_iff _).1 verdict), _, by rw [changes]; rfl, ?_⟩
      show (after.cvars[c]?).map Cvar.string = some value
      rw [same]
      exact stored
  | some other =>
      refine .inr ⟨fun stays => ?_, by rw [Tracked.next, verdict]; rfl⟩
      rcases stays with shown | stands
      · exact unlike shown
      · rw [stands] at verdict
        cases verdict

/-- The calls that return leave the first string that stays. -/
theorem settles_of_directSet (calm : Calm run) (ranged : s.Ranged env c m) {depth : Nat}
    {value : Text} (sets : directSet env run depth s c value = some s') :
    ∃ text, m.settles depth value = some text ∧ s'.Has c text := by
  induction depth generalizing s value with
  | zero => cases sets
  | succ depth ih =>
      rcases directSet_of_ranged calm ranged depth value with
        ⟨stays, after, ends, has⟩ | ⟨goes, next⟩
      · rw [sets] at ends
        cases ends
        exact ⟨value, if_pos stays, has⟩
      · rw [next] at sets
        obtain ⟨text, settles, has⟩ := ih (ranged.store value) sets
        exact ⟨text, (if_neg goes).trans settles, has⟩

/-- If a string stays, the calls return. -/
theorem directSet_of_settles (calm : Calm run) (ranged : s.Ranged env c m) {n : Nat}
    {value text : Text} (settles : m.settles n value = some text) :
    ∃ s', directSet env run (n + 1) s c value = some s' ∧ s'.Has c text := by
  induction n generalizing s value with
  | zero =>
      obtain ⟨_, none, -, stays, rfl⟩ := Orbit.first_eq_some_iff.1 settles
      obtain rfl := Nat.le_zero.1 none
      rcases directSet_of_ranged calm ranged 0 value with ⟨-, ends⟩ | ⟨goes, -⟩
      · exact ends
      · exact absurd stays goes
  | succ n ih =>
      unfold Tracked.settles Orbit.first at settles
      rcases directSet_of_ranged calm ranged (n + 1) value with ⟨stays, ends⟩ | ⟨goes, next⟩
      · rw [if_pos stays] at settles
        cases settles
        exact ends
      · rw [if_neg goes] at settles
        rw [next]
        exact ih (ranged.store value) settles

/-- The calls return if and only if a string stays, and leave the first that does. -/
theorem returns_iff (calm : Calm run) (ranged : s.Ranged env c m) (value text : Text) :
    (∃ depth s', directSet env run depth s c value = some s' ∧ s'.Has c text) ↔
      m.settles 3 value = some text := by
  constructor
  · rintro ⟨depth, s', sets, has⟩
    obtain ⟨other, settles, hasOther⟩ := settles_of_directSet calm ranged sets
    obtain rfl := Option.some_inj.1 (hasOther.symm.trans has)
    exact settles_three settles
  · intro settles
    exact ⟨4, directSet_of_settles calm ranged settles⟩

/-- **Where the range is enforced.**  The calls for a string return, and leave the cvar with
a number inside its range, if and only if one of the string and the first three that
`check_range` sets in its place stays, and the first that does is such a number. -/
theorem inside_iff (env : Env) (run : Forwards) (calm : Calm run) (s : State) (c : Nat)
    (m : Tracked) (ranged : s.Ranged env c m) (value : Text) :
    (∃ depth s' text, directSet env run depth s c value = some s' ∧ s'.Has c text ∧
        m.Inside text) ↔
      ∃ text, m.settles 3 value = some text ∧ m.Inside text := by
  constructor
  · rintro ⟨depth, s', text, sets, has, inside⟩
    exact ⟨text, (returns_iff calm ranged value text).1 ⟨depth, s', sets, has⟩, inside⟩
  · rintro ⟨text, settles, inside⟩
    obtain ⟨depth, s', sets, has⟩ := (returns_iff calm ranged value text).2 settles
    exact ⟨depth, s', text, sets, has, inside⟩

/-! ## The coefficient k2 -/

/-- `acs_refsapi_mysql_frame_rate_k2`. -/
def k2Name : Wide := "acs_refsapi_mysql_frame_rate_k2".toList

/-- `FCVAR_PROTECTED | FCVAR_SERVER | FCVAR_SPONLY | FCVAR_UNLOGGED`. -/
def cvarFlags : Int := 0x164

/-- Its range is from `0.1f` to `25.0f`. -/
def k2Params : Params :=
  ⟨"Коэффициент k2 расчета frame_rate для mysql".toList, true, .ofRat binary32 (1 / 10), true,
    .fin false 25⟩

/-- The engine's cvar, with its default. -/
def k2Cvar : Cvar := ⟨wstos k2Name, [0x37, 0x2E, 0x30], .fin false 7, cvarFlags⟩

/-- Its record, once it is bound. -/
def k2 : Tracked :=
  { name := k2Name, value := ['7', '.', '0'], desc := k2Params.desc, hasMin := true, hasMax := true,
    minVal := k2Params.minVal, maxVal := k2Params.maxVal, type := .flt, flags := cvarFlags }

/-- `RegisterCvars` makes it a cvar with a range. -/
theorem exists_k2 : ∃ s, (machine .plain).Reachable s ∧ s.Ranged .plain 0 k2 := by
  have ends : ((machine .plain).exec .empty
      [.add (-1) (wstos k2Name) [0x37, 0x2E, 0x30] cvarFlags k2Params,
        .bind 9 .flt (some 0) 0 4]).map
        (fun s => s.cvars == [k2Cvar] && s.pCvar 0 == some k2) = some true := by decide +kernel
  obtain ⟨s, run, holds⟩ := Machine.exists_reachable (M := machine .plain) State.empty_fresh ends
  simp only [Bool.and_eq_true, beq_iff_eq] at holds
  have found : s.getPointer .plain (wstos k2Name) = some 0 := by
    rw [State.getPointer, holds.1]
    decide +kernel
  exact ⟨s, run, holds.2, .inr rfl, ⟨k2Cvar, by rw [holds.1]; rfl, found⟩, found⟩

/-- 30 is above the range, and k2 ends with "25". -/
theorem inside_iff_above : ∃ s depth s' text,
    directSet .plain quiet depth s 0 [0x33, 0x30] = some s' ∧ s'.Has 0 text ∧ k2.Inside text := by
  obtain ⟨s, -, ranged⟩ := exists_k2
  exact ⟨s, (inside_iff .plain quiet calm_quiet s 0 k2 ranged [0x33, 0x30]).2
    ⟨[0x32, 0x35], by decide +kernel, by decide +kernel⟩⟩

/-- "0.05" is below the range, and "0.100000" in its place is below `0.1f`, for ever. -/
theorem not_always_inside : ¬ ∀ env s c m, (machine env).Reachable s → s.Ranged env c m →
    m.hasMin = true → m.hasMax = true → m.minVal.le m.maxVal = true → ∀ value,
      ∃ depth s' text, directSet env quiet depth s c value = some s' ∧ s'.Has c text ∧
        m.Inside text := by
  intro always
  obtain ⟨s, run, ranged⟩ := exists_k2
  obtain ⟨depth, s', text, sets, has, -⟩ := always .plain s 0 k2 run ranged rfl rfl
    (by decide +kernel) [0x30, 0x2E, 0x30, 0x35]
  have settles := (returns_iff calm_quiet ranged _ text).1 ⟨depth, s', sets, has⟩
  have never : k2.settles 3 [0x30, 0x2E, 0x30, 0x35] = none := by decide +kernel
  rw [never] at settles
  cases settles

end Refsapi.Cvars
