/-
# Cvars.Pooling -- the interval that `calc_frame_delay` divides by

The module binds a variable of its own to each of two cvars, with bounds from 100 to 1000, and
every frame takes a remainder by it.  The bounds stand in the record of the cvar, which a plugin
gets too: `add` writes its own bounds there, and takes the type away until some `bind` gives it
back.  And `check_range` reads a string trimmed, but `copy_bind` does not.

`pooling_inside` is about any calls of any plugins after `RegisterCvars`, with hooks that
call in their turn (`Operates`).
-/
import Refsapi.Cvars.Range

namespace Refsapi.Cvars

set_option autoImplicit false

/-! ## `RegisterCvars` -/

inductive FramePooling where
  | mysql | timer

namespace FramePooling

def name : FramePooling → Wide
  | mysql => "acs_refsapi_mysql_frame_pooling".toList
  | timer => "acs_refsapi_timer_frame_pooling".toList

def desc : FramePooling → Wide
  | mysql => "Интервал расчета frame_rate для mysql".toList
  | timer => "Интервал расчета frame_rate для timer".toList

def params (pooling : FramePooling) : Params :=
  ⟨pooling.desc, true, .fin false 100, true, .fin false 1000⟩

/-- The record that `add` makes of it. -/
def record (pooling : FramePooling) : Tracked :=
  { name := pooling.name, value := "1000".toList, desc := pooling.desc, hasMin := true,
    hasMax := true, minVal := .fin false 100, maxVal := .fin false 1000, type := .none,
    flags := cvarFlags }

end FramePooling

/-- `_SS(cvars.mysql_frame_pooling)` and the other one, bound to a number. -/
def fieldBind (field : Nat) : PtrBind := ⟨field, .num, 4⟩

/-- What `add` makes of a pooling cvar in `RegisterCvars`. -/
def State.addPooling (env : Env) (s : State) (pooling : FramePooling) : State × Option Nat :=
  s.add env (-1) pooling.name "1000".toList cvarFlags pooling.params

/-- A pooling cvar in `RegisterCvars`. -/
def State.registerPooling (env : Env) (run : Forwards) (depth : Nat) (s : State)
    (pooling : FramePooling) (field : Nat) : Option State :=
  (s.addPooling env pooling).1.bind env run depth .num (s.addPooling env pooling).2 field 4

/-- The remainder that `calc_frame_delay` takes: whether the frame is one of those that are
measured.  By zero it is undefined. -/
def isMeasured (interval : Cell) (framesCount : Nat) : Option Bool :=
  if interval.toNat = 0 then none else some (framesCount % interval.toNat == 0)

/-! ## Calls with hooks -/

/-- What the hooks do is one call after another, each of which is allowed. -/
def Forwards.Calls (run : Forwards) (allowed : State → Action → Prop)
    (calls : State → Action → State → Prop) : Prop :=
  ∀ t fwd c before after t', run t fwd c before after = some t' →
    Relation.ReflTransGen (fun t t' => ∃ a, allowed t a ∧ calls t a t') t t'

/-- One call with hooks that call in their turn, nested less than `depth` deep.  `allowed`
holds of each call that a hook makes. -/
def Operates (env : Env) (allowed : State → Action → Prop) :
    Nat → State → Action → State → Prop
  | 0, _, _, _ => False
  | depth + 1, s, a, s' => ∃ run : Forwards,
      run.Calls allowed (Operates env allowed depth) ∧ s.step env run a = some s'

/-- Any calls, one after another. -/
def Operations (env : Env) (allowed : State → Action → Prop) : State → State → Prop :=
  Relation.ReflTransGen fun s s' => ∃ a depth, allowed s a ∧ Operates env allowed depth s a s'

/-! ## Numbers in the bounds -/

variable {env : Env} {s s' : State} {c field : Nat}

/-- The interval is one that the module wants. -/
def InPool (x : Cell) : Prop := 100 ≤ x.toInt ∧ x.toInt ≤ 1000

instance (x : Cell) : Decidable (InPool x) := inferInstanceAs (Decidable (_ ∧ _))

/-- The bounds are those of the module, or narrower. -/
structure Tracked.Bounded (m : Tracked) : Prop where
  hasMin : m.hasMin = true
  minVal : (Fp.fin false 100).le m.minVal = true
  hasMax : m.hasMax = true
  maxVal : m.maxVal.le (.fin false 1000) = true

/-- `safe_stod` reads the text as it reads it trimmed. -/
def Tidy (text : Text) : Prop := safeStod text = safeStod (trimText text)

/-- What `copy_bind` makes of a text for a number. -/
def asNum (text : Text) : Cell := .ofInt 32 ((safeStod text).getD (.fin false 0)).toInt32

theorem inPool_of_between {k : Int} (low : 100 ≤ k) (high : k ≤ 1000) : InPool (.ofInt 32 k) := by
  have same : (BitVec.ofInt 32 k).toInt = k :=
    BitVec.toInt_ofInt_eq_self (by decide) (by omega) (by omega)
  rw [InPool, same]
  exact ⟨low, high⟩

/-- What a number below zero is cut to is not above zero. -/
theorem checked_nonpos {a : Bool} {q : ℚ} (negative : (Fp.fin false 0).le (.fin a q) = false) :
    (-(Fp.fin a q).neg.toInt32).bmod (2 ^ 32) ≤ 0 := by
  have below : Fp.value a q < 0 := by simpa [Fp.le, Fp.lt, Fp.value] using negative
  obtain ⟨n, nonneg, cut⟩ : ∃ n : Int, 0 ≤ n ∧
      (Fp.fin a q).neg.toInt32 = if -2 ^ 31 ≤ n ∧ n < 2 ^ 31 then n else -2 ^ 31 := by
    refine ⟨if !a then -q.floor else q.floor, ?_, rfl⟩
    unfold Fp.value at below
    cases a with
    | true => exact Rat.le_floor_iff.2 (by simpa using below.le)
    | false =>
        have down : q.floor < 1 := Rat.floor_lt_iff.2 (below.trans (by norm_num))
        simp only [Bool.not_false, if_true]
        omega
  rw [cut]
  by_cases small : n < 2 ^ 31
  · rw [if_pos ⟨by omega, small⟩, Int.bmod_eq_of_le (by omega) (by omega)]
    omega
  · rw [if_neg fun fits => small fits.2]
    decide

/-- A string that stands in bounds of the module is copied as a number that is in them. -/
theorem inPool_of_stands {m : Tracked} (bounded : m.Bounded)
    (typed : m.type = .num ∨ m.type = .flt) {text : Text} (tidy : Tidy text)
    (stands : m.verdict text = .stands) : InPool (asNum text) := by
  obtain ⟨hasMin, minVal, hasMax, maxVal⟩ := bounded
  have ranged : ¬ (m.type = .none ∨ m.type = .str ∨ m.type = .flg) := by
    rcases typed with type | type <;> simp [type]
  simp only [Tracked.verdict, if_neg ranged] at stands
  split at stands
  · cases stands
  next isNumber =>
  cases found : safeStod (trimText text) with
  | none =>
      rw [found] at stands
      cases stands
  | some x =>
      obtain ⟨a, q, -, rfl⟩ := safeStod_fin (by simpa using isNumber) found
      rw [found] at stands
      simp only [hasMin, hasMax, Bool.true_and] at stands
      split at stands
      · cases stands
      next notBelow =>
      split at stands
      · cases stands
      next notAbove =>
      simp only [Bool.not_eq_true] at notBelow notAbove
      rw [asNum, tidy, found, Option.getD_some]
      suffices 100 ≤ (Fp.fin a q).toInt32 ∧ (Fp.fin a q).toInt32 ≤ 1000 from
        inPool_of_between this.1 this.2
      rcases typed with type | type
      · simp only [Tracked.checked, if_pos type] at notBelow notAbove
        cases sign : (Fp.fin false 0).le (.fin a q) with
        | true =>
            rw [sign, if_pos rfl] at notBelow notAbove
            have low := Fp.le_value minVal notBelow
            have high := Fp.value_le maxVal notAbove
            rw [Fp.value_ofInt] at low high
            exact ⟨by exact_mod_cast low, by exact_mod_cast high⟩
        | false =>
            rw [sign, if_neg (by decide)] at notBelow
            have low := Fp.le_value minVal notBelow
            rw [Fp.value_ofInt] at low
            have above : 100 ≤ (-(Fp.fin a q).neg.toInt32).bmod (2 ^ 32) := by exact_mod_cast low
            have := checked_nonpos sign
            omega
      · simp only [Tracked.checked, type, if_neg (by decide : CvarType.flt ≠ .num)]
          at notBelow notAbove
        exact Fp.toInt32_between (by decide) (by decide) (Fp.le_value minVal notBelow)
          (Fp.value_le maxVal notAbove)

/-- What is printed has nothing to trim. -/
theorem tidy_of_printed {text : Text} (printed : Printed text) : Tidy text := by
  have solid (b : UInt8) (member : b ∈ text) : b ∉ trimBytes := by
    intro blank
    have above := (printed b member).1
    simp only [trimBytes, List.mem_cons, List.not_mem_nil, or_false] at blank
    rcases blank with rfl | rfl | rfl | rfl | rfl | rfl <;> revert above <;> decide
  have same : trimText text = text := by
    unfold trimText
    rw [List.rdropWhile_eq_self_iff.2 fun some => ?_, List.dropWhile_eq_self_iff.2 fun some => ?_]
    · simp [solid _ (List.getElem_mem some)]
    · simp [solid _ (List.getLast_mem some)]
  rw [Tidy, same]

/-! ## The variable of the module -/

/-- A record without a type, or of a number in bounds of the module. -/
def Tracked.Tame (m : Tracked) : Prop :=
  m.type = .none ∨ (m.type = .num ∨ m.type = .flt) ∧ m.Bounded

/-- The record of the cvar is tame, and every variable is that of the module, at its cvar, or
apart from it. -/
structure State.Guarded (s : State) (c field : Nat) : Prop where
  tame : ∀ m, s.pCvar c = some m → m.Tame
  own : ∀ bind ∈ s.bindList c, bind = fieldBind field ∨ bind.Apart (fieldBind field)
  others : ∀ d, d ≠ c → ∀ bind ∈ s.bindList d, bind.Apart (fieldBind field)

/-- And the variable holds an interval that the module wants. -/
structure State.Pooled (s : State) (c field : Nat) : Prop extends s.Guarded c field where
  inside : InPool (s.memory field)

/-- What a plugin may do: its variables are apart from that of the module; it binds one to the
cvar only as a number, in bounds of the module; and a string for the cvar, as long as it has a
type, reads the same when it is trimmed. -/
def Spares (c field : Nat) (s : State) : Action → Prop
  | .add .. => True
  | .bind _ type mCvar ptr size =>
      PtrBind.Apart ⟨ptr, type, size⟩ (fieldBind field) ∧
        (mCvar = some c → ∀ m ∈ s.pCvar c, s.binds m c ptr type = true →
          Tracked.Tame { m with type := type })
  | .directSet _ d value => d = c → ∀ m ∈ s.pCvar c, m.type ≠ .none → Tidy value

/-! ## Writes to the variable -/

theorem write_apart {memory : Nat → Cell} {bind : PtrBind} (cvar : Cvar)
    (apart : bind.Apart (fieldBind field)) :
    Memory.write memory bind.ptr (bind.cells cvar) field = memory field := by
  have short := bind.length_cells_le cvar
  have outside : bind.extent = 0 ∨ field + 1 ≤ bind.ptr ∨ bind.ptr + bind.extent ≤ field := by
    rcases apart with none | none | before | behind
    · exact .inl none
    · cases none
    · exact .inr (.inr before)
    · exact .inr (.inl behind)
  by_cases before : field < bind.ptr
  · exact Memory.write_of_outside (.inl before)
  · exact Memory.write_of_outside (.inr (by omega))

/-- The loop of `on_change` gives the variable its conversion where it is bound. -/
theorem copyAll_field {cvar : Cvar} {memory : Nat → Cell} {binds : List PtrBind}
    (known : ∀ bind ∈ binds, bind = fieldBind field ∨ bind.Apart (fieldBind field)) :
    copyAll cvar memory binds field =
      if fieldBind field ∈ binds then asNum cvar.string else memory field := by
  induction binds generalizing memory with
  | nil => rfl
  | cons bind rest ih =>
      rw [copyAll, List.foldl_cons]
      refine (ih fun other member => known other (List.mem_cons_of_mem _ member)).trans ?_
      by_cases later : fieldBind field ∈ rest
      · rw [if_pos later, if_pos (List.mem_cons_of_mem _ later)]
      rw [if_neg later]
      by_cases isField : bind = fieldBind field
      · subst isField
        rw [if_pos List.mem_cons_self]
        simp [Memory.write, fieldBind, PtrBind.cells, asNum]
      · rw [if_neg (by simp [later, Ne.symm isField])]
        exact write_apart cvar ((known bind List.mem_cons_self).resolve_left isField)

/-- No cell is apart from itself. -/
theorem not_apart_fieldBind : ¬ (fieldBind field).Apart (fieldBind field) := by
  rintro (none | none | before | before)
  · cases none
  · cases none
  · exact absurd before (by simp [fieldBind, PtrBind.extent])
  · exact absurd before (by simp [fieldBind, PtrBind.extent])

/-! ## What the calls leave of it -/

theorem State.Pooled.store (pooled : s.Pooled c field) (d : Nat) (value : Text) :
    (s.store env d value).Pooled c field :=
  ⟨⟨pooled.tame, pooled.own, pooled.others⟩, pooled.inside⟩

theorem State.Guarded.modify (guarded : s.Guarded c field) {d : Nat} {change : Tracked → Tracked}
    (tame : d = c → ∀ m, s.pCvar c = some m → (change m).Tame) :
    (s.modify d change).Guarded c field := by
  refine ⟨fun m isRecord => ?_, guarded.own, guarded.others⟩
  simp only [State.modify, Function.update_apply] at isRecord
  split at isRecord
  · next isC =>
      subst isC
      obtain ⟨before, isBefore, rfl⟩ := Option.map_eq_some_iff.1 isRecord
      exact tame rfl before isBefore
  · exact guarded.tame m isRecord

theorem State.Pooled.modify (pooled : s.Pooled c field) {d : Nat} {change : Tracked → Tracked}
    (tame : d = c → ∀ m, s.pCvar c = some m → (change m).Tame) :
    (s.modify d change).Pooled c field :=
  ⟨pooled.toGuarded.modify tame, pooled.inside⟩

theorem Tracked.Tame.setValue {m : Tracked} (tame : m.Tame) (value : Wide) :
    Tracked.Tame { m with value := value } := by
  refine tame.imp_right fun ⟨typed, bounded⟩ => ⟨typed, ?_⟩
  exact ⟨bounded.hasMin, bounded.minVal, bounded.hasMax, bounded.maxVal⟩

/-- A string is saved in a record. -/
theorem State.Pooled.setValue (pooled : s.Pooled c field) (d : Nat) (value : Wide) :
    (s.modify d fun m => { m with value := value }).Pooled c field :=
  pooled.modify fun _ m isRecord => (pooled.tame m isRecord).setValue value

/-- A record that is new has no type. -/
theorem State.Pooled.addExists (pooled : s.Pooled c field) (cvar : Option Nat) (params : Params) :
    (s.addExists cvar params).1.Pooled c field := by
  unfold State.addExists
  split
  · exact pooled
  split
  · exact pooled
  split
  · exact pooled
  refine ⟨⟨fun m isRecord => ?_, pooled.own, pooled.others⟩, pooled.inside⟩
  simp only [Function.update_apply] at isRecord
  split at isRecord
  · cases isRecord
    exact .inl rfl
  · exact pooled.tame m isRecord

/-- `add` takes the type away. -/
theorem State.Pooled.add (pooled : s.Pooled c field) (pluginId : Int) (name value : Wide)
    (flags : Int) (params : Params) :
    (s.add env pluginId name value flags params).1.Pooled c field := by
  refine add_keeps (I := fun s => s.Pooled c field) (fun s cvar pooled => ?_)
    (fun s cvar params pooled => pooled.addExists cvar params)
    (fun s d m untyped pooled => pooled.modify fun _ _ _ => .inl untyped)
    (fun s pluginId d pooled => ?_) pooled pluginId name value flags params
  · unfold State.register
    split
    · exact pooled
    · exact ⟨⟨pooled.tame, pooled.own, pooled.others⟩, pooled.inside⟩
  · exact ⟨⟨pooled.tame, pooled.own, pooled.others⟩, pooled.inside⟩

/-! ## Strings that are set -/

variable {run : Forwards}

/-- The hooks keep the variable. -/
def Spared (run : Forwards) (c field : Nat) : Prop :=
  ∀ t fwd d before after t', t.Pooled c field → run t fwd d before after = some t' →
    t'.Pooled c field

/-- The variables of a cvar are copied. -/
theorem State.Pooled.copyAll (pooled : s.Pooled c field) {d : Nat} {cvar : Cvar}
    (inPool : d = c → InPool (asNum cvar.string)) :
    State.Pooled { s with memory := Cvars.copyAll cvar s.memory (s.bindList d) } c field := by
  refine ⟨⟨pooled.tame, pooled.own, pooled.others⟩, ?_⟩
  show InPool (Cvars.copyAll cvar s.memory (s.bindList d) field)
  by_cases isC : d = c
  · rw [copyAll_field (isC ▸ pooled.own)]
    split
    · exact inPool isC
    · exact pooled.inside
  · rw [copyAll_field fun bind member => .inr (pooled.others d isC bind member), if_neg]
    · exact pooled.inside
    · exact fun member => not_apart_fieldBind (pooled.others d isC _ member)

/-- The range of a cvar is checked, and what is set in the place of its string keeps the
variable. -/
theorem State.Pooled.checkRange (pooled : s.Pooled c field) {set : Setter} {cvar : Cvar}
    {m : Tracked} {stood : Bool}
    (sets : ∀ t d other t', t.Pooled c field → Tidy other → set t d other = some t' →
      t'.Pooled c field)
    (checks : s.checkRange env set cvar m = some (s', stood)) : s'.Pooled c field := by
  rcases checkRange_cases checks with ⟨-, -, rfl⟩ | ⟨-, other, found, rfl | ⟨d, ends⟩⟩
  · exact pooled
  · exact pooled
  · exact sets s d other s' pooled (tidy_of_printed (printed_correction found)) ends

/-- A record that `get` makes of a cvar has no type. -/
theorem getTracked_cases (s : State) (d : Nat) : (s.getTracked d).1 = s ∨
    (s.getTracked d).1.cvars = s.cvars ∧
      ∀ m, (s.getTracked d).1.pCvar d = some m → m.type = .none := by
  unfold State.getTracked State.addExists
  split
  · exact .inl rfl
  simp only
  split
  · exact .inl rfl
  split
  · exact .inl rfl
  refine .inr ⟨rfl, fun m isRecord => ?_⟩
  simp only [Function.update_self, Option.some.injEq] at isRecord
  rw [← isRecord]

/-- The hook of a string that reads the same when it is trimmed, if it is one for the cvar and
that has a type. -/
theorem State.Pooled.onDirectSet (pooled : s.Pooled c field) (spared : Spared run c field)
    {set : Setter} {d : Nat} {value : Text}
    (sets : ∀ t d other t', t.Pooled c field → Tidy other → set t d other = some t' →
      t'.Pooled c field)
    (stored : ∀ cvar, s.cvars[d]? = some cvar → cvar.string = value)
    (tidy : d = c → ∀ m, s.pCvar c = some m → m.type ≠ .none → Tidy value)
    (ends : s.onDirectSet env run set d (stows value) = some s') : s'.Pooled c field := by
  have tracked : (s.getTracked d).1.Pooled c field := by
    unfold State.getTracked
    split
    · exact pooled
    · exact pooled.addExists _ _
  have same : (s.getTracked d).1.cvars = s.cvars ∧
      (d = c → ∀ m, (s.getTracked d).1.pCvar c = some m → m.type ≠ .none → Tidy value) := by
    rcases getTracked_cases s d with same | ⟨cvars, untyped⟩
    · rw [same]
      exact ⟨rfl, tidy⟩
    · refine ⟨cvars, ?_⟩
      rintro rfl m isRecord typed
      exact absurd (untyped m isRecord) typed
  unfold State.onDirectSet at ends
  simp only at ends
  generalize (s.getTracked d).1 = t at *
  split at ends
  case h_2 =>
    cases ends
    exact tracked
  next m cvar isRecord isCvar =>
  split at ends
  · cases ends
    exact tracked
  split at ends
  · cases ends
    exact tracked.setValue d _
  next typed =>
  obtain ⟨⟨u, stood⟩, checks, goes⟩ := Option.bind_eq_some_iff.1 ends
  have checked := tracked.checkRange sets checks
  rcases checkRange_cases checks with ⟨stands, rfl, rfl⟩ | ⟨rfl, -⟩
  · obtain ⟨t', changes, rfl⟩ := Option.map_eq_some_iff.1 goes
    refine State.Pooled.setValue (onChange_keeps (I := fun s => s.Pooled c field)
      (fun t fwd before after t' => spared t fwd d before after t') ?_ changes) d _
    refine checked.copyAll fun isC => ?_
    subst isC
    rw [stored cvar (same.1 ▸ isCvar)] at stands ⊢
    obtain ⟨number, bounded⟩ := (tracked.tame m isRecord).resolve_left typed
    exact inPool_of_stands bounded number (same.2 rfl m isRecord typed) stands
  · cases goes
    exact checked

/-- A string is set. -/
theorem State.Pooled.directSet (spared : Spared run c field) {depth d : Nat} {value : Text}
    (pooled : s.Pooled c field)
    (tidy : d = c → ∀ m, s.pCvar c = some m → m.type ≠ .none → Tidy value)
    (sets : directSet env run depth s d value = some s') : s'.Pooled c field := by
  induction depth generalizing s d value s' with
  | zero => cases sets
  | succ depth ih =>
      rw [Cvars.directSet] at sets
      refine (pooled.store d value).onDirectSet spared
        (fun t e other t' pooled tidy => ih pooled fun _ _ _ _ => tidy) (fun cvar isCvar => ?_)
        tidy sets
      obtain ⟨before, -, rfl⟩ := Option.map_eq_some_iff.1
        ((List.getElem?_modify ..).symm.trans isCvar)
      simp

/-! ## Calls and their hooks -/

/-- A variable of a plugin is bound. -/
theorem State.Pooled.bound (pooled : s.Pooled c field) {d : Nat} (cvar : Cvar) {bind : PtrBind}
    (apart : bind.Apart (fieldBind field))
    (tame : d = c → ∀ m, s.pCvar c = some m → Tracked.Tame { m with type := bind.type }) :
    (s.bound d cvar bind).Pooled c field := by
  have known {e : Nat} {other : PtrBind} (member : other ∈ (s.bound d cvar bind).bindList e) :
      other ∈ s.bindList e ∨ other.Apart (fieldBind field) := by
    rcases mem_bindList_bound cvar member with old | ⟨-, rfl⟩
    · exact .inl old
    · exact .inr apart
  refine ⟨⟨?_, fun other member => ?_, fun e isOther other member => ?_⟩, ?_⟩
  · exact (State.Guarded.modify ⟨pooled.tame, pooled.own, pooled.others⟩ tame).tame
  · rcases known member with old | apart
    · exact pooled.own other old
    · exact .inr apart
  · rcases known member with old | apart
    · exact pooled.others e isOther other old
    · exact apart
  · show InPool (Memory.write s.memory bind.ptr (bind.cells cvar) field)
    rw [write_apart cvar apart]
    exact pooled.inside

/-- One call. -/
theorem State.Pooled.step (pooled : s.Pooled c field) (spared : Spared run c field) {a : Action}
    (spares : Spares c field s a) (moved : s.step env run a = some s') : s'.Pooled c field := by
  cases a with
  | add pluginId name value flags params =>
      cases moved
      exact pooled.add pluginId _ _ flags params
  | bind depth type mCvar ptr size =>
      obtain ⟨apart, tame⟩ := spares
      simp only [State.step, State.bind] at moved
      split at moved
      · cases moved
        exact pooled
      next d =>
      split at moved
      case h_2 => cases moved
      next m cvar isRecord isCvar =>
      split at moved
      case isFalse =>
        cases moved
        exact pooled
      next accepted =>
      obtain ⟨⟨t, stood⟩, checks, rfl⟩ := Option.map_eq_some_iff.1 moved
      have bound := pooled.bound (d := d) cvar apart fun isC k isK => by
        subst isC
        obtain rfl := Option.some.inj (isRecord.symm.trans isK)
        exact tame rfl m isRecord accepted
      exact bound.checkRange
        (fun t e other t' pooled tidy => pooled.directSet spared fun _ _ _ _ => tidy) checks
  | directSet depth d value =>
      simp only [State.step] at moved
      split at moved
      · exact pooled.directSet spared spares moved
      · cases moved

/-- Hooks whose calls keep the variable keep it. -/
theorem spared_of_calls {calls : State → Action → State → Prop}
    (each : ∀ s a s', s.Pooled c field → Spares c field s a → calls s a s' → s'.Pooled c field)
    (hooks : run.Calls (Spares c field) calls) : Spared run c field := by
  intro t fwd d before after t' pooled ran
  have chain := hooks t fwd d before after t' ran
  clear ran
  induction chain with
  | refl => exact pooled
  | tail _ called ih =>
      obtain ⟨a, spares, operates⟩ := called
      exact each _ a _ ih spares operates

/-- What a call leaves, whatever its hooks do that spare the variable. -/
theorem State.Pooled.operates {depth : Nat} {a : Action} (pooled : s.Pooled c field)
    (spares : Spares c field s a) (operates : Operates env (Spares c field) depth s a s') :
    s'.Pooled c field := by
  induction depth generalizing s a s' with
  | zero => cases operates
  | succ depth ih =>
      obtain ⟨run, hooks, moved⟩ := operates
      exact pooled.step (spared_of_calls (fun s a s' => ih) hooks) spares moved

/-! ## After `RegisterCvars` -/

/-- `add` has the record of a pooling cvar, and `bind` is to give it its variable.  The
engine's string is not above the bounds, and reads the same when it is trimmed if it is in
them. -/
structure State.Ready (env : Env) (s : State) (pooling : FramePooling) (c field : Nat)
    (cvar : Cvar) : Prop where
  record : s.pCvar c = some pooling.record
  isCvar : s.cvars[c]? = some cvar
  own : s.getPointer env cvar.name = some c
  named : s.getPointer env (wstos pooling.name) = some c
  free : ∀ bind ∈ s.bindList c, bind.ptr ≠ field
  apart : ∀ d, ∀ bind ∈ s.bindList d, bind.Apart (fieldBind field)
  notAbove : Tracked.verdict { pooling.record with type := .num } cvar.string ≠
    .float (.fin false 1000)
  tidy : Tracked.verdict { pooling.record with type := .num } cvar.string = .stands →
    Tidy cvar.string

theorem FramePooling.bounded (pooling : FramePooling) :
    Tracked.Bounded { pooling.record with type := .num } :=
  ⟨rfl, by cases pooling <;> decide +kernel, rfl, by cases pooling <;> decide +kernel⟩

/-- A cvar has its variable, its record and its bounds. -/
structure State.Bound (env : Env) (s : State) (pooling : FramePooling) (c field : Nat) : Prop
    extends s.Guarded c field where
  record : s.pCvar c = some { pooling.record with type := .num }
  own_found : ∃ cvar, s.cvars[c]? = some cvar ∧ s.getPointer env cvar.name = some c
  named : s.getPointer env (wstos pooling.name) = some c
  member : fieldBind field ∈ s.bindList c

theorem State.Bound.store {pooling : FramePooling} (bound : s.Bound env pooling c field)
    (value : Text) : (s.store env c value).Bound env pooling c field := by
  obtain ⟨cvar, isCvar, found⟩ := bound.own_found
  refine ⟨⟨bound.tame, bound.own, bound.others⟩, bound.record,
    ⟨{ cvar with string := value, value := env.atof value }, ?_, ?_⟩, ?_, bound.member⟩
  · simp [State.store, isCvar]
  · rw [getPointer_store]
    exact found
  · rw [getPointer_store]
    exact bound.named

/-- A string that takes the place of one that is not above the bounds is set, and the variable
is an interval: "0" is below them in its turn, and "100" is not the "1000" that the record
shows. -/
theorem State.Bound.directSet {pooling : FramePooling} (bound : s.Bound env pooling c field)
    (spared : Spared run c field) {depth : Nat} {text : Text}
    (isLow : text = zeroText ∨ text = printValue (.fin false 100))
    (sets : directSet env run depth s c text = some s') : s'.Pooled c field := by
  induction depth generalizing s text with
  | zero => cases sets
  | succ depth ih =>
      obtain ⟨cvar, isCvar, found⟩ := bound.own_found
      have stored := bound.store text
      rw [directSet_succ depth text bound.record isCvar found fun _ => bound.named,
        if_neg (by
          rcases isLow with rfl | rfl <;> simp only [FramePooling.record] <;> decide +kernel),
        if_neg (by simp)] at sets
      rcases isLow with rfl | rfl
      · rw [show (Tracked.verdict { pooling.record with type := .num } zeroText).correction =
          some (printValue (.fin false 100)) by cases pooling <;> decide +kernel] at sets
        exact ih stored (.inr rfl) sets
      · have stands : Tracked.verdict { pooling.record with type := .num }
            (printValue (.fin false 100)) = .stands := by cases pooling <;> decide +kernel
        rw [stands] at sets
        obtain ⟨t, changes, rfl⟩ := Option.map_eq_some_iff.1 sets
        refine State.Pooled.setValue (onChange_keeps (I := fun s => s.Pooled c field)
          (fun t fwd before after t' => spared t fwd c before after t') ?_ changes) c _
        refine ⟨⟨stored.tame, stored.own, stored.others⟩, ?_⟩
        show InPool (Cvars.copyAll _ _ _ field)
        rw [copyAll_field stored.own, if_pos stored.member]
        exact (by decide +kernel : InPool (asNum (printValue (.fin false 100))))

/-- What `RegisterCvars` leaves of a pooling cvar. -/
theorem State.Ready.pooled {pooling : FramePooling} {cvar : Cvar}
    (ready : s.Ready env pooling c field cvar) (spared : Spared run c field) {depth : Nat}
    (binds : s.bind env run depth .num (some c) field 4 = some s') : s'.Pooled c field := by
  have accepted : s.binds pooling.record c field .num = true := by
    simp only [State.binds, FramePooling.record, beq_self_eq_true, Bool.true_or, Bool.true_and,
      List.all_eq_true, bne_iff_ne]
    exact ready.free
  simp only [State.bind, ready.record, ready.isCvar, if_pos accepted] at binds
  obtain ⟨⟨t, stood⟩, checks, rfl⟩ := Option.map_eq_some_iff.1 binds
  have bound : (s.bound c cvar (fieldBind field)).Bound env pooling c field := by
    have record : (s.bound c cvar (fieldBind field)).pCvar c =
        some { pooling.record with type := .num } := by
      simp [State.bound, State.modify, State.copyBind, ready.record, fieldBind]
    refine ⟨⟨fun m isRecord => ?_, fun other member => ?_, fun d isOther other member => ?_⟩,
      record, ⟨cvar, ready.isCvar, ready.own⟩, ready.named, ?_⟩
    · obtain rfl := Option.some.inj (record.symm.trans isRecord)
      exact .inr ⟨.inl rfl, pooling.bounded⟩
    · rcases mem_bindList_bound cvar member with old | ⟨-, rfl⟩
      · exact .inr (ready.apart c other old)
      · exact .inl rfl
    · rcases mem_bindList_bound cvar member with old | ⟨isC, -⟩
      · exact ready.apart d other old
      · exact absurd isC isOther
    · simp [State.bound, State.modify, State.copyBind]
  rw [checkRange_eq (s := s.bound c cvar ⟨field, .num, 4⟩) (c := c)
    (m := { pooling.record with type := .num }) _ ready.own fun _ => ready.named] at checks
  cases found : Tracked.verdict { pooling.record with type := .num } cvar.string with
  | stands =>
      rw [found] at checks
      cases checks
      refine ⟨bound.toGuarded, ?_⟩
      have copied : (s.bound c cvar (fieldBind field)).memory field = asNum cvar.string := by
        simp [State.bound, State.modify, State.copyBind, Memory.write, fieldBind, PtrBind.cells,
          asNum]
      show InPool ((s.bound c cvar (fieldBind field)).memory field)
      rw [copied]
      exact inPool_of_stands pooling.bounded (.inl rfl) (ready.tidy found) found
  | string other =>
      rw [found] at checks
      obtain ⟨u, sets, same⟩ := Option.map_eq_some_iff.1 checks
      cases same
      exact bound.directSet spared (.inl (eq_zeroText_of_verdict found)) sets
  | float x =>
      rw [found] at checks
      obtain ⟨u, sets, same⟩ := Option.map_eq_some_iff.1 checks
      cases same
      rcases eq_bound_of_verdict found with rfl | rfl
      · exact bound.directSet spared (.inr rfl) sets
      · exact absurd found ready.notAbove

/-- An engine without the cvar gets it from `add`. -/
theorem ready_of_new {pooling : FramePooling}
    (lower : pooling.name.map env.toLower = pooling.name)
    (absent : s.getPointer env (wstos pooling.name) = none)
    (noCommand : env.isCommand (wstos pooling.name) = false)
    (unlisted : s.cvarList pooling.name = none) (untracked : s.pCvar s.cvars.length = none)
    (unbound : s.bindList s.cvars.length = [])
    (apart : ∀ d, ∀ bind ∈ s.bindList d, bind.Apart (fieldBind field)) :
    (s.addPooling env pooling).2 = some s.cvars.length ∧
      (s.addPooling env pooling).1.Ready env pooling s.cvars.length field
        ⟨wstos pooling.name, wstos "1000".toList, env.atof (wstos "1000".toList), cvarFlags⟩ := by
  have named : pooling.name.isEmpty = false := by cases pooling <;> rfl
  have described : pooling.params.desc.isEmpty = false := by cases pooling <;> rfl
  have wide : stows (wstos pooling.name) = pooling.name := by cases pooling <;> decide +kernel
  have shown : stows (wstos "1000".toList) = "1000".toList := by decide +kernel
  have got : s.getName env pooling.name = (s, none) := by
    simp [State.getName, named, lower, unlisted, absent]
  -- the cvar that `create_cvar` registers
  let cvar : Cvar :=
    ⟨wstos pooling.name, wstos "1000".toList, env.atof (wstos "1000".toList), cvarFlags⟩
  let t : State := { s with cvars := s.cvars ++ [cvar] }
  have found : t.getPointer env (wstos pooling.name) = some s.cvars.length :=
    getPointer_append cvar absent
  have created : s.createCvar env pooling.name "1000".toList cvarFlags =
      (t, some s.cvars.length) := by
    have registered : s.register env ⟨wstos pooling.name, wstos "1000".toList, .fin false 0,
        cvarFlags⟩ = t := by
      simp [State.register, noCommand, absent, t, cvar]
    simp only [State.createCvar, absent, registered, found]
  have isCvar : t.cvars[s.cvars.length]? = some cvar := by simp [t]
  have tracked : t.addExists (some s.cvars.length) pooling.params =
      ({ t with
          cvarList := Function.update s.cvarList pooling.name (some s.cvars.length)
          pCvar := Function.update s.pCvar s.cvars.length (some pooling.record) },
        some s.cvars.length) := by
    have record : t.pCvar s.cvars.length = none := untracked
    simp only [State.addExists, record, isCvar, cvar, wide, shown]
    simp [t, unlisted, FramePooling.record, FramePooling.params]
  have added : s.addPooling env pooling = (State.enlist { t with
      cvarList := Function.update s.cvarList pooling.name (some s.cvars.length)
      pCvar := Function.update s.pCvar s.cvars.length (some pooling.record) } (-1) s.cvars.length,
      some s.cvars.length) := by
    simp only [State.addPooling, State.add, named, State.addRecord, got, created, tracked,
      described]
    rfl
  rw [added]
  refine ⟨rfl, ⟨Function.update_self .., isCvar, found, found, ?_, apart, ?_, fun _ => ?_⟩⟩
  · simp [State.enlist, t, unbound]
  · show Tracked.verdict _ (wstos "1000".toList) ≠ _
    cases pooling <;> decide +kernel
  · show Tidy (wstos "1000".toList)
    exact tidy_of_printed (by decide +kernel)

/-- **The pooling interval.**  After `RegisterCvars`, and any calls of plugins that spare it,
the variable of the module is from 100 to 1000, and no frame takes a remainder by zero. -/
theorem pooling_inside (env : Env) (pooling : FramePooling) {run : Forwards} {depth nested : Nat}
    {s₀ s s' : State} {c field : Nat} {cvar : Cvar}
    (added : (s₀.addPooling env pooling).2 = some c)
    (ready : (s₀.addPooling env pooling).1.Ready env pooling c field cvar)
    (hooks : run.Calls (Spares c field) (Operates env (Spares c field) nested))
    (registers : s₀.registerPooling env run depth pooling field = some s)
    (operations : Operations env (Spares c field) s s') :
    InPool (s'.memory field) ∧ ∀ framesCount, isMeasured (s'.memory field) framesCount ≠ none := by
  rw [State.registerPooling, added] at registers
  have start : s.Pooled c field :=
    ready.pooled (spared_of_calls (fun s a s' => State.Pooled.operates) hooks) registers
  have pooled : s'.Pooled c field := by
    induction operations with
    | refl => exact start
    | tail _ called ih =>
        obtain ⟨a, depth, spares, operates⟩ := called
        exact ih.operates spares operates
  refine ⟨pooled.inside, fun framesCount => ?_⟩
  have nonzero : (s'.memory field).toNat ≠ 0 := by
    intro zero
    have low := pooled.inside.1
    rw [BitVec.eq_of_toNat_eq (zero.trans (BitVec.toNat_ofNat 0 32).symm)] at low
    exact absurd low (by decide)
  rw [isMeasured, if_neg nonzero]
  exact Option.some_ne_none _

/-! ## Runs in which it is and is not spared -/

/-- The variables of the plugins are their own. -/
def Foreign (field : Nat) (_ : State) : Action → Prop
  | .bind _ type _ ptr size => PtrBind.Apart ⟨ptr, type, size⟩ (fieldBind field)
  | _ => True

instance : (a : Action) → Decidable (Foreign field s a)
  | .bind _ type _ ptr size =>
      inferInstanceAs (Decidable (PtrBind.Apart ⟨ptr, type, size⟩ (fieldBind field)))
  | .add .. => inferInstanceAs (Decidable True)
  | .directSet .. => inferInstanceAs (Decidable True)

instance (m : Tracked) : Decidable m.Bounded :=
  decidable_of_iff (m.hasMin = true ∧ (Fp.fin false 100).le m.minVal = true ∧ m.hasMax = true ∧
    m.maxVal.le (.fin false 1000) = true)
    ⟨fun ⟨hasMin, minVal, hasMax, maxVal⟩ => ⟨hasMin, minVal, hasMax, maxVal⟩,
      fun bounded => ⟨bounded.hasMin, bounded.minVal, bounded.hasMax, bounded.maxVal⟩⟩

instance (m : Tracked) : Decidable m.Tame := inferInstanceAs (Decidable (_ ∨ _))

instance (text : Text) : Decidable (Tidy text) := inferInstanceAs (Decidable (_ = _))

instance : (a : Action) → Decidable (Spares c field s a)
  | .add .. => inferInstanceAs (Decidable True)
  | .bind .. => inferInstanceAs (Decidable (_ ∧ _))
  | .directSet .. => inferInstanceAs (Decidable (_ → _))

theorem calls_quiet (allowed : State → Action → Prop) (calls : State → Action → State → Prop) :
    Forwards.Calls quiet allowed calls := by
  intro t fwd c before after t' ran
  cases ran
  exact .refl

/-- Runs whose hooks leave the cvars alone. -/
theorem operations_of_leads {allowed : State → Action → Prop}
    (leads : (machine env).Leads allowed s s') : Operations env allowed s s' :=
  Relation.ReflTransGen.mono
    (fun _ _ ⟨a, ok, moved⟩ => ⟨a, 1, ok, quiet, calls_quiet _ _, moved⟩) _ _ leads

/-- The first `RegisterCvars` of an engine without cvars. -/
theorem ready_empty (pooling : FramePooling) (field : Nat) :
    (State.empty.addPooling .plain pooling).2 = some 0 ∧
      (State.empty.addPooling .plain pooling).1.Ready .plain pooling 0 field
        ⟨wstos pooling.name, wstos "1000".toList,
          (safeStod (wstos "1000".toList)).getD (.fin false 0), cvarFlags⟩ :=
  ready_of_new (s := .empty) (List.map_id _) rfl rfl rfl rfl rfl fun _ _ member => by cases member

/-- A plugin sets the cvar to 5, and the module has 100. -/
theorem pooling_inside_low : ∃ s s' : State,
    State.empty.registerPooling .plain quiet 9 .timer 4 = some s ∧ s'.memory 4 = 100 ∧
      InPool (s'.memory 4) ∧ ∀ framesCount, isMeasured (s'.memory 4) framesCount ≠ none := by
  have ends : (State.empty.registerPooling .plain quiet 9 .timer 4).bind (fun s =>
      ((machine .plain).execIf (fun s a => decide (Spares 0 4 s a)) s
        [.directSet 9 0 [0x35]]).map fun s' => s'.memory 4 == 100) = some true := by decide +kernel
  obtain ⟨s, registers, ends⟩ := Option.bind_eq_some_iff.1 ends
  obtain ⟨s', run, holds⟩ := Option.map_eq_some_iff.1 ends
  have leads : (machine .plain).Leads (Spares 0 4) s s' :=
    Machine.Leads.of_execIf (fun s a ok => of_decide_eq_true ok) run
  exact ⟨s, s', registers, beq_iff_eq.1 holds,
    pooling_inside .plain .timer (ready_empty .timer 4).1 (ready_empty .timer 4).2
      (calls_quiet _ (Operates .plain (Spares 0 4) 0)) registers (operations_of_leads leads)⟩

/-- A plugin creates the cvar again, without bounds, binds a variable of its own, and sets it
to 0: the module divides by zero. -/
theorem not_always_pooled : ¬ ∀ env pooling run depth nested s₀ s s' c field cvar,
    (State.addPooling env s₀ pooling).2 = some c →
    (State.addPooling env s₀ pooling).1.Ready env pooling c field cvar →
    Forwards.Calls run (Foreign field) (Operates env (Foreign field) nested) →
    State.registerPooling env run depth s₀ pooling field = some s →
    Operations env (Foreign field) s s' →
      InPool (s'.memory field) ∧
        ∀ framesCount, isMeasured (s'.memory field) framesCount ≠ none := by
  intro always
  have ends : (State.empty.registerPooling .plain quiet 9 .timer 4).bind (fun s =>
      ((machine .plain).execIf (fun s a => decide (Foreign 4 s a)) s
        [.add 7 (wstos FramePooling.timer.name) [0x31] 0 .default, .bind 9 .num (some 0) 8 1,
          .directSet 9 0 [0x30]]).map fun s' => s'.memory 4 == 0) = some true := by decide +kernel
  obtain ⟨s, registers, ends⟩ := Option.bind_eq_some_iff.1 ends
  obtain ⟨s', run, holds⟩ := Option.map_eq_some_iff.1 ends
  have leads : (machine .plain).Leads (Foreign 4) s s' :=
    Machine.Leads.of_execIf (fun s a ok => of_decide_eq_true ok) run
  have measured := (always .plain .timer quiet 9 0 .empty s s' 0 4 _ (ready_empty .timer 4).1
    (ready_empty .timer 4).2 (calls_quiet _ _) registers (operations_of_leads leads)).2 0
  rw [beq_iff_eq.1 holds] at measured
  exact measured rfl

end Refsapi.Cvars
