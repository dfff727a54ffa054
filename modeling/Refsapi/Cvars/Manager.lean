/-
# Cvars.Manager -- `cvar_mngr`, and the engine that it follows

The engine has the cvars, and calls `RF_Cvar_DirectSet_RH` for each string that
one is given; the manager has a record of each cvar that it tracks, the plugin
variables that are bound to it and the hooks of its changes.  What the manager
does to keep a cvar in its range is to give it another string, and so to be
called again; `depth` is how deep that goes before the stack is at its end.

A `cvar_t *` is the number of the cvar, and an `m_cvar_t *` that of the cvar
whose record it is: a record stays as long as the server runs, and `p_cvar` has
one for each cvar.  An address is that of a cell.
-/
import Mathlib.Logic.Function.Basic
import Refsapi.Cvars.Config
import Refsapi.Lib.Memory
import Refsapi.Lib.Transition
import Refsapi.Misc.Number

namespace Refsapi.Cvars

set_option autoImplicit false

/-- What the engine and the locale do: `Q_stricmp`, whether a name is one of a command,
`Q_atof` and `std::tolower`. -/
structure Env where
  sameName : Text → Text → Bool
  isCommand : Text → Bool
  atof : Text → Fp
  toLower : Char → Char
  sameName_refl : ∀ name, sameName name name = true

/-- `CVAR_TYPES_t`. -/
inductive CvarType where
  | none | num | flt | str | flg
  deriving DecidableEq

/-- `cvar_t`. -/
structure Cvar where
  name : Text
  string : Text
  value : Fp
  flags : Int
  deriving DecidableEq

/-- The rest of an `m_cvar_t`. -/
structure Tracked extends MCvar where
  type : CvarType
  flags : Int
  deriving DecidableEq

/-- `ptr_bind_t`. -/
structure PtrBind where
  ptr : Nat
  type : CvarType
  size : Nat
  deriving DecidableEq

/-- The engine's cvars, `cvar_mngr_t` and the memory of the plugins. -/
structure State where
  cvars : List Cvar
  pCvar : Nat → Option Tracked
  cvarList : Wide → Option Nat
  plugin : Int → Option (List Nat)
  bindList : Nat → List PtrBind
  cvarHookList : Nat → List Int
  hookState : Int → Bool
  memory : Nat → Cell

/-- What the forward of a change hook does, which is given the cvar, its old string and its
new one. -/
abbrev Forwards : Type := State → Int → Nat → Text → Text → Option State

/-- Hooks that leave the cvars alone. -/
def quiet : Forwards := fun s _ _ _ _ => some s

/-- `Cvar_DirectSet`, as the manager calls it. -/
abbrev Setter : Type := State → Nat → Text → Option State

/-! ## The engine -/

/-- `CVAR_GET_POINTER`. -/
def State.getPointer (env : Env) (s : State) (name : Text) : Option Nat :=
  s.cvars.findIdx? fun cvar => env.sameName cvar.name name

/-- `CVAR_REGISTER`, which refuses the name of a cvar or of a command. -/
def State.register (env : Env) (s : State) (cvar : Cvar) : State :=
  if env.isCommand cvar.name || (s.getPointer env cvar.name).isSome then s
  else { s with cvars := s.cvars ++ [{ cvar with value := env.atof cvar.string }] }

/-- What `Cvar_DirectSet` does before the hook: it stores the string and its value. -/
def State.store (env : Env) (s : State) (c : Nat) (value : Text) : State :=
  { s with
    cvars := s.cvars.modify c fun cvar => { cvar with string := value, value := env.atof value } }

/-- `CVAR_SET_STRING`. -/
def State.setString (env : Env) (set : Setter) (s : State) (name value : Text) : Option State :=
  match s.getPointer env name with
  | some c => set s c value
  | none => some s

/-- How the engine prints a value: an integer as one, and anything else with six digits. -/
def printValue : Fp → Text
  | .fin negative magnitude =>
      if magnitude.den = 1 then
        (Fp.sign (negative && magnitude != 0) ++ Nat.toDigits 10 magnitude.num.natAbs).map ascii
      else ((Fp.fin negative magnitude).printF).map ascii
  | x => x.printF.map ascii
where
  ascii (c : Char) : UInt8 := .ofNat c.toNat

/-- `CVAR_SET_FLOAT`. -/
def State.setFloat (env : Env) (set : Setter) (s : State) (name : Text) (value : Fp) :
    Option State :=
  s.setString env set name (printValue value)

/-! ## Tracking cvars -/

/-- The parameters that `add` and `add_exists` share. -/
structure Params where
  desc : Wide
  hasMin : Bool
  minVal : Fp
  hasMax : Bool
  maxVal : Fp

/-- Their defaults. -/
def Params.default : Params := ⟨[], false, .fin false 0, false, .fin false 0⟩

/-- The record of a cvar is changed, where it has one. -/
def State.modify (s : State) (c : Nat) (change : Tracked → Tracked) : State :=
  { s with pCvar := Function.update s.pCvar c ((s.pCvar c).map change) }

/-- `create_cvar`. -/
def State.createCvar (env : Env) (s : State) (name value : Wide) (flags : Int) :
    State × Option Nat :=
  let pName := wstos name
  match s.getPointer env pName with
  | some c => (s, some c)
  | none =>
      let s := s.register env ⟨pName, wstos value, .fin false 0, flags⟩
      (s, s.getPointer env pName)

/-- `add_exists`, of a pointer that is null or that of a cvar. -/
def State.addExists (s : State) (cvar : Option Nat) (params : Params) : State × Option Nat :=
  match cvar with
  | none => (s, none)
  | some c =>
      if (s.pCvar c).isSome then (s, some c)
      else
        match s.cvars[c]? with
        | none => (s, none)
        | some cvar =>
            let mCvar : Tracked :=
              { name := stows cvar.name, value := stows cvar.string, desc := params.desc,
                hasMin := params.hasMin, hasMax := params.hasMax, minVal := params.minVal,
                maxVal := params.maxVal, type := .none, flags := cvar.flags }
            ({ s with
                cvarList :=
                  if (s.cvarList mCvar.name).isSome then s.cvarList
                  else Function.update s.cvarList mCvar.name (some c),
                pCvar := Function.update s.pCvar c (some mCvar) }, some c)

/-- `get` of a `cvar_t *`. -/
def State.getTracked (s : State) (c : Nat) : State × Option Nat :=
  if (s.pCvar c).isSome then (s, some c) else s.addExists (some c) .default

/-- `get` of a name. -/
def State.getName (env : Env) (s : State) (name : Wide) : State × Option Nat :=
  if name.isEmpty then (s, none)
  else
    let name := name.map env.toLower
    match s.cvarList name with
    | some c => (s, some c)
    | none =>
        match s.getPointer env (wstos name) with
        | some c => s.addExists (some c) .default
        | none => (s, none)

/-- A cvar comes to the list of a plugin, where it is once. -/
def State.enlist (s : State) (pluginId : Int) (c : Nat) : State :=
  let list := (s.plugin pluginId).getD []
  { s with
    plugin := Function.update s.plugin pluginId (some (if c ∈ list then list else list ++ [c])) }

/-- The record that `add` updates, or makes. -/
def State.addRecord (env : Env) (s : State) (name value : Wide) (flags : Int) (params : Params) :
    State × Option Nat :=
  let got := s.getName env name
  match got.2 with
  | some c =>
      (got.1.modify c fun _ =>
        { name := name, value := value, desc := params.desc, hasMin := params.hasMin,
          hasMax := params.hasMax, minVal := params.minVal, maxVal := params.maxVal,
          type := .none, flags := flags }, some c)
  | none =>
      let created := got.1.createCvar env name value flags
      created.1.addExists created.2 params

/-- `add`. -/
def State.add (env : Env) (s : State) (pluginId : Int) (name value : Wide) (flags : Int)
    (params : Params) : State × Option Nat :=
  if name.isEmpty then (s, none)
  else
    let added := s.addRecord env name value flags params
    match added.2 with
    | some c => (if params.desc.isEmpty then added.1 else added.1.enlist pluginId c, some c)
    | none => added

/-! ## Bound variables -/

/-- The cells that `copy_bind` writes: the cvar, converted to the type of the variable. -/
def PtrBind.cells (bind : PtrBind) (cvar : Cvar) : List Cell :=
  match bind.type with
  | .none => []
  | .num => [.ofInt 32 ((safeStod cvar.string).getD (.fin false 0)).toInt32]
  | .flt => [cvar.value.bits]
  | .str => amxString cvar.string bind.size
  | .flg => [readFlags cvar.string]

/-- `copy_bind`. -/
def State.copyBind (s : State) (cvar : Cvar) (bind : PtrBind) : State :=
  { s with memory := Memory.write s.memory bind.ptr (bind.cells cvar) }

/-- `on_change`, of the cvar and its record. -/
def State.onChange (run : Forwards) (s : State) (c : Nat) (cvar : Cvar) (newValue : Wide) :
    Option State :=
  let s := (s.bindList c).foldl (fun s bind => s.copyBind cvar bind) s
  (s.cvarHookList c).foldlM (fun s fwd =>
    if s.hookState fwd then
      run s fwd c (((s.pCvar c).map fun m => wstos m.value).getD []) (wstos newValue)
    else some s) s

/-! ## The range -/

/-- What `check_range` finds: the string stands, or another one or a number is set. -/
inductive Verdict where
  | stands
  | string (value : Text)
  | float (value : Fp)
  deriving DecidableEq

/-- The string "0". -/
def zeroText : Text := [0x30]

/-- What the range is checked for: the integer that a number is cut to, with `CVAR_TYPE_NUM`. -/
def Tracked.checked (m : Tracked) (result : Fp) : Fp :=
  if m.type = .num then
    if (Fp.fin false 0).le result then .ofInt result.toInt32
    else .ofInt ((-result.neg.toInt32).bmod (2 ^ 32))
  else result

/-- The tests of `check_range`. -/
def Tracked.verdict (m : Tracked) (string : Text) : Verdict :=
  if m.type = .none ∨ m.type = .str ∨ m.type = .flg then .stands
  else
    let s := trimText string
    if !isNumber s then .string zeroText
    else
      match safeStod s with
      | none => .string zeroText
      | some result =>
          if m.hasMin && (m.checked result).lt m.minVal then .float m.minVal
          else if m.hasMax && m.maxVal.lt (m.checked result) then .float m.maxVal
          else .stands

/-- `check_range`. -/
def State.checkRange (env : Env) (set : Setter) (s : State) (cvar : Cvar) (m : Tracked) :
    Option (State × Bool) :=
  match m.verdict cvar.string with
  | .stands => some (s, true)
  | .string value => (s.setString env set cvar.name value).map fun s => (s, false)
  | .float value => (s.setFloat env set (wstos m.name) value).map fun s => (s, false)

/-! ## The hook, and binding -/

/-- `on_direct_set`. -/
def State.onDirectSet (env : Env) (run : Forwards) (set : Setter) (s : State) (c : Nat)
    (value : Wide) : Option State :=
  let s := (s.getTracked c).1
  match s.pCvar c, s.cvars[c]? with
  | some m, some cvar =>
      if m.value = value then some s
      else if m.type = .none then some (s.modify c fun m => { m with value := value })
      else
        (s.checkRange env set cvar m).bind fun checked =>
          if checked.2 then
            (checked.1.onChange run c cvar value).map fun s =>
              s.modify c fun m => { m with value := value }
          else some checked.1
  | _, _ => some s

/-- `Cvar_DirectSet` with `RF_Cvar_DirectSet_RH`. -/
def directSet (env : Env) (run : Forwards) : Nat → Setter
  | 0, _, _, _ => none
  | depth + 1, s, c, value =>
      (s.store env c value).onDirectSet env run (directSet env run depth) c (stows value)

/-- `bind` does not refuse the variable: its type is that of the cvar, and no other is bound
at its address. -/
def State.binds (s : State) (m : Tracked) (c ptr : Nat) (type : CvarType) : Bool :=
  (m.type == .none || m.type == type) && (s.bindList c).all fun bound => bound.ptr != ptr

/-- What `bind` does before it checks the range. -/
def State.bound (s : State) (c : Nat) (cvar : Cvar) (bind : PtrBind) : State :=
  ({ s with bindList := Function.update s.bindList c (s.bindList c ++ [bind]) }.copyBind
    cvar bind).modify c fun m => { m with type := bind.type }

/-- `bind`; a pointer that is not one of a record is none of its own. -/
def State.bind (env : Env) (run : Forwards) (depth : Nat) (s : State) (type : CvarType)
    (mCvar : Option Nat) (ptr size : Nat) : Option State :=
  match mCvar with
  | none => some s
  | some c =>
      match s.pCvar c, s.cvars[c]? with
      | some m, some cvar =>
          if s.binds m c ptr type then
            ((s.bound c cvar ⟨ptr, type, size⟩).checkRange env (directSet env run depth) cvar
              { m with type := type }).map Prod.fst
          else some s
      | _, _ => none

/-- `clear_all`, which frees the records. -/
def State.clearAll (s : State) : State :=
  { s with
    pCvar := fun _ => none
    cvarList := fun _ => none
    plugin := fun _ => none
    bindList := fun _ => []
    cvarHookList := fun _ => []
    hookState := fun _ => false }

/-! ## Runs -/

/-- A call of a plugin, or of the engine for a cvar. -/
inductive Action where
  | add (pluginId : Int) (name value : Text) (flags : Int) (params : Params)
  | bind (depth : Nat) (type : CvarType) (mCvar : Option Nat) (ptr size : Nat)
  | directSet (depth : Nat) (c : Nat) (value : Text)

def State.step (env : Env) (run : Forwards) (s : State) : Action → Option State
  | .add pluginId name value flags params =>
      some (s.add env pluginId (stows name) (stows value) flags params).1
  | .bind depth type mCvar ptr size => s.bind env run depth type mCvar ptr size
  | .directSet depth c value =>
      if c < s.cvars.length then Cvars.directSet env run depth s c value else none

/-- The manager tracks nothing, and each cvar of the engine has its value and is found under
its name. -/
structure State.Fresh (env : Env) (s : State) : Prop where
  untracked : ∀ c, s.pCvar c = none
  unbound : ∀ c, s.bindList c = []
  unlisted : ∀ name, s.cvarList name = none
  value : ∀ (c : Nat) (cvar : Cvar), s.cvars[c]? = some cvar → cvar.value = env.atof cvar.string
  found : ∀ (c : Nat) (cvar : Cvar), s.cvars[c]? = some cvar → s.getPointer env cvar.name = some c

/-- Runs of the manager whose change hooks leave the cvars alone. -/
def machine (env : Env) : Machine State Action where
  init := State.Fresh env
  step := State.step env quiet

/-! ## What `add` keeps -/

variable {env : Env} {run : Forwards}

section Keeps

variable {I : State → Prop} {s : State}

theorem getName_keeps (env : Env) (addExists : ∀ s cvar params, I s → I (s.addExists cvar params).1)
    (before : I s) (name : Wide) : I (s.getName env name).1 := by
  unfold State.getName
  split
  · exact before
  simp only
  split
  · exact before
  split
  · exact addExists _ _ _ before
  · exact before

/-- What a new cvar, a new record, a record without a type and the list of a plugin leave as it
is, `add` does. -/
theorem add_keeps (register : ∀ s cvar, I s → I (s.register env cvar))
    (addExists : ∀ s cvar params, I s → I (s.addExists cvar params).1)
    (untype : ∀ s c m, m.type = .none → I s → I (s.modify c fun _ => m))
    (enlist : ∀ s pluginId c, I s → I (s.enlist pluginId c)) (before : I s) (pluginId : Int)
    (name value : Wide) (flags : Int) (params : Params) :
    I (s.add env pluginId name value flags params).1 := by
  have got := getName_keeps env addExists before name
  have added : I (s.addRecord env name value flags params).1 := by
    unfold State.addRecord
    simp only
    split
    · exact untype _ _ _ rfl got
    · refine addExists _ _ _ ?_
      unfold State.createCvar
      simp only
      split
      · exact got
      · exact register _ _ got
  unfold State.add
  split
  · exact before
  simp only
  split
  · split
    · exact added
    · exact enlist _ _ _ added
  · exact added

end Keeps

/-! ## A call for a cvar that is tracked -/

/-- A lookup sees the names only. -/
theorem getPointer_eq (s : State) (name : Text) : s.getPointer env name =
    (s.cvars.map Cvar.name).findIdx? fun other => env.sameName other name := by
  rw [State.getPointer, List.findIdx?_map]
  rfl

/-- A cvar whose name was not there is found at the end. -/
theorem getPointer_append {s : State} (cvar : Cvar) (absent : s.getPointer env cvar.name = none) :
    State.getPointer env { s with cvars := s.cvars ++ [cvar] } cvar.name =
      some s.cvars.length := by
  rw [State.getPointer] at absent ⊢
  rw [List.findIdx?_append, absent]
  simp [List.findIdx?_cons, env.sameName_refl]

@[simp] theorem getPointer_store (s : State) (c : Nat) (value name : Text) :
    (s.store env c value).getPointer env name = s.getPointer env name := by
  have names : (s.store env c value).cvars.map Cvar.name = s.cvars.map Cvar.name := by
    refine List.ext_getElem? fun i => ?_
    simp only [State.store, List.getElem?_map, List.getElem?_modify]
    split <;> cases s.cvars[i]? <;> rfl
  rw [getPointer_eq, getPointer_eq, names]

/-- The string that takes the place of one that does not stand. -/
def Verdict.correction : Verdict → Option Text
  | .stands => none
  | .string value => some value
  | .float value => some (printValue value)

/-- A text of such characters as numbers are printed with: above the blanks, and ASCII. -/
def Printed (text : Text) : Prop := ∀ b ∈ text, 0x2D ≤ b ∧ b < 0x80

instance (text : Text) : Decidable (Printed text) :=
  List.decidableBAll (fun b => 0x2D ≤ b ∧ b < 0x80) text

theorem printed_map {word : List Char}
    (known : ∀ c ∈ word, c.isDigit = true ∨ c ∈ ['-', '.', 'n', 'a', 'i', 'f']) :
    Printed (word.map printValue.ascii) := by
  intro b member
  obtain ⟨c, inWord, rfl⟩ := List.mem_map.1 member
  have between : 0x2D ≤ c.toNat ∧ c.toNat < 0x80 := by
    rcases known c inWord with digit | other
    · simp only [Char.isDigit, Bool.and_eq_true, decide_eq_true_eq, UInt32.le_iff_toNat_le] at digit
      exact ⟨Nat.le_trans (by decide) digit.1, Nat.lt_of_le_of_lt digit.2 (by decide)⟩
    · simp only [List.mem_cons, List.not_mem_nil, or_false] at other
      rcases other with rfl | rfl | rfl | rfl | rfl | rfl <;> decide
  rw [UInt8.le_iff_toNat_le, UInt8.lt_iff_toNat_lt, printValue.ascii, UInt8.toNat_ofNat',
    Nat.mod_eq_of_lt (by omega)]
  exact between

theorem printed_printValue (x : Fp) : Printed (printValue x) := by
  unfold printValue
  split
  · split
    · refine printed_map fun c member => ?_
      rcases List.mem_append.1 member with sign | digit
      · exact .inr (sign_subset _ sign)
      · exact .inl (Nat.isDigit_of_mem_toDigits (by decide) (by decide) digit)
    · exact printed_map fun c member => mem_printF member
  · exact printed_map fun c member => mem_printF member

theorem verdict_of_untyped {m : Tracked} (untyped : m.type = .none) (value : Text) :
    m.verdict value = .stands := by
  simp only [Tracked.verdict, untyped, true_or, if_true]

/-- The only string that is set for one that is no number. -/
theorem eq_zeroText_of_verdict {m : Tracked} {value other : Text}
    (found : m.verdict value = .string other) : other = zeroText := by
  unfold Tracked.verdict at found
  grind

/-- What is set in the place of a string is printed as numbers are. -/
theorem printed_correction {m : Tracked} {value other : Text}
    (found : (m.verdict value).correction = some other) : Printed other := by
  cases verdict : m.verdict value with
  | stands =>
      rw [verdict] at found
      cases found
  | string zero =>
      rw [verdict] at found
      cases found
      rw [eq_zeroText_of_verdict verdict]
      decide
  | float x =>
      rw [verdict] at found
      cases found
      exact printed_printValue x

/-- The strings that are set in the place of others. -/
def Tracked.corrections (m : Tracked) : List Text :=
  [zeroText, printValue m.minVal, printValue m.maxVal]

/-- A number that is set is a bound. -/
theorem eq_bound_of_verdict {m : Tracked} {value : Text} {x : Fp}
    (found : m.verdict value = .float x) : x = m.minVal ∨ x = m.maxVal := by
  unfold Tracked.verdict at found
  grind

theorem mem_corrections {m : Tracked} {value other : Text}
    (found : (m.verdict value).correction = some other) : other ∈ m.corrections := by
  cases verdict : m.verdict value with
  | stands =>
      rw [verdict] at found
      cases found
  | string zero =>
      rw [verdict] at found
      cases found
      rw [eq_zeroText_of_verdict verdict]
      exact List.mem_cons_self
  | float x =>
      rw [verdict] at found
      cases found
      rcases eq_bound_of_verdict verdict with rfl | rfl <;> simp [Tracked.corrections]

theorem correction_eq_none_iff (verdict : Verdict) :
    verdict.correction = none ↔ verdict = .stands := by
  cases verdict <;> simp [Verdict.correction]

/-- The range of a cvar that the engine finds under both its names. -/
theorem checkRange_eq {s : State} {c : Nat} {m : Tracked} {cvar : Cvar} (set : Setter)
    (own : s.getPointer env cvar.name = some c)
    (named : m.verdict cvar.string ≠ .stands → s.getPointer env (wstos m.name) = some c) :
    s.checkRange env set cvar m =
      match (m.verdict cvar.string).correction with
      | some other => (set s c other).map fun s => (s, false)
      | none => some (s, true) := by
  rw [State.checkRange]
  cases found : m.verdict cvar.string with
  | stands => rfl
  | string other => simp only [State.setString, own, Verdict.correction]
  | float x =>
      simp only [State.setFloat, State.setString, named (by simp [found]), Verdict.correction]

/-- What `check_range` does: nothing for a string that stands, and else it may set what takes
its place. -/
theorem checkRange_cases {s s' : State} {set : Setter} {m : Tracked} {cvar : Cvar} {stood : Bool}
    (checks : s.checkRange env set cvar m = some (s', stood)) :
    (m.verdict cvar.string = .stands ∧ stood = true ∧ s' = s) ∨
      (stood = false ∧ ∃ other, (m.verdict cvar.string).correction = some other ∧
        (s' = s ∨ ∃ c, set s c other = some s')) := by
  have setString (name other : Text) (sets : s.setString env set name other = some s') :
      s' = s ∨ ∃ c, set s c other = some s' := by
    unfold State.setString at sets
    split at sets
    · exact .inr ⟨_, sets⟩
    · exact .inl (Option.some.inj sets).symm
  unfold State.checkRange at checks
  cases found : m.verdict cvar.string with
  | stands =>
      rw [found] at checks
      cases checks
      exact .inl ⟨rfl, rfl, rfl⟩
  | string other =>
      rw [found] at checks
      obtain ⟨t, sets, same⟩ := Option.map_eq_some_iff.1 checks
      cases same
      exact .inr ⟨rfl, other, rfl, setString _ _ sets⟩
  | float x =>
      rw [found] at checks
      obtain ⟨t, sets, same⟩ := Option.map_eq_some_iff.1 checks
      cases same
      exact .inr ⟨rfl, printValue x, rfl, setString _ _ sets⟩

/-- What the hook of a string does for a tracked cvar that the engine finds under both its
names: nothing more if the record shows it, or the range is checked. -/
theorem onDirectSet_store {s : State} {c : Nat} {m : Tracked} {cvar : Cvar} (set : Setter)
    (value : Text) (isRecord : s.pCvar c = some m) (isCvar : s.cvars[c]? = some cvar)
    (own : s.getPointer env cvar.name = some c)
    (named : m.verdict value ≠ .stands → s.getPointer env (wstos m.name) = some c) :
    (s.store env c value).onDirectSet env run set c (stows value) =
      if m.value = stows value then some (s.store env c value)
      else if m.type = .none then
        some ((s.store env c value).modify c fun m => { m with value := stows value })
      else
        match (m.verdict value).correction with
        | some other => set (s.store env c value) c other
        | none =>
            ((s.store env c value).onChange run c
              { cvar with string := value, value := env.atof value } (stows value)).map fun s =>
                s.modify c fun m => { m with value := stows value } := by
  have stored : (s.store env c value).cvars[c]? =
      some { cvar with string := value, value := env.atof value } := by
    simp [State.store, isCvar]
  have record : (s.store env c value).pCvar c = some m := isRecord
  rw [State.onDirectSet]
  simp only [State.getTracked, record, stored, Option.isSome_some, if_true]
  split
  · rfl
  split
  · rfl
  rw [checkRange_eq (c := c) _ (by rw [getPointer_store]; exact own) fun falls => by
    rw [getPointer_store]
    exact named falls]
  cases (m.verdict value).correction with
  | none => rfl
  | some other =>
      simp only
      cases set (s.store env c value) c other <;> rfl

/-- A string is set. -/
theorem directSet_succ {s : State} {c : Nat} {m : Tracked} {cvar : Cvar} (depth : Nat)
    (value : Text) (isRecord : s.pCvar c = some m) (isCvar : s.cvars[c]? = some cvar)
    (own : s.getPointer env cvar.name = some c)
    (named : m.verdict value ≠ .stands → s.getPointer env (wstos m.name) = some c) :
    directSet env run (depth + 1) s c value =
      if m.value = stows value then some (s.store env c value)
      else if m.type = .none then
        some ((s.store env c value).modify c fun m => { m with value := stows value })
      else
        match (m.verdict value).correction with
        | some other => directSet env run depth (s.store env c value) c other
        | none =>
            ((s.store env c value).onChange run c
              { cvar with string := value, value := env.atof value } (stows value)).map fun s =>
                s.modify c fun m => { m with value := stows value } := by
  rw [directSet]
  exact onDirectSet_store _ value isRecord isCvar own named

end Refsapi.Cvars
