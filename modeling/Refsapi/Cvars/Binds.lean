/-
# Cvars.Binds -- bound variables and the strings of their cvars

A variable that is bound to a cvar holds the conversion of its string
(`State.Follows`) as long as the manager does not take a new string for an old
one, which it does if the cvar has lost its type or if the record shows the new
string already (`State.InStep`).  `add` does both to a cvar that is there, and
its second caller need not be the plugin whose variable it is; and two strings
may have one wide form.
-/
import Refsapi.Cvars.Manager

namespace Refsapi.Cvars

set_option autoImplicit false

variable {env : Env} {s s' : State}

/-! ## What a bound variable shows -/

/-- The variable holds the conversion of the cvar. -/
def State.Shows (s : State) (cvar : Cvar) (bind : PtrBind) : Prop :=
  Memory.Holds s.memory bind.ptr (bind.cells cvar)

/-- Every bound variable holds the conversion of its cvar. -/
def State.Follows (s : State) : Prop :=
  ∀ (c : Nat) (cvar : Cvar) (bind : PtrBind),
    s.cvars[c]? = some cvar → bind ∈ s.bindList c → s.Shows cvar bind

/-- How many cells the variable has. -/
def PtrBind.extent (bind : PtrBind) : Nat :=
  match bind.type with
  | .none => 0
  | .str => bind.size
  | _ => 1

/-- The variables have no cell in common. -/
abbrev PtrBind.Apart (a b : PtrBind) : Prop := Memory.Apart a.ptr a.extent b.ptr b.extent

theorem PtrBind.length_cells_le (bind : PtrBind) (cvar : Cvar) :
    (bind.cells cvar).length ≤ bind.extent := by
  unfold PtrBind.cells PtrBind.extent
  cases bind.type with
  | str =>
      simp only [amxString]
      split
      · exact Nat.zero_le _
      · simp only [List.length_append, List.length_map, List.length_take, List.length_singleton]
        omega
  | _ => exact Nat.le_refl _

/-- The conversion is one of the string and the value. -/
theorem PtrBind.cells_congr {cvar old : Cvar} (bind : PtrBind) (string : cvar.string = old.string)
    (value : cvar.value = old.value) : bind.cells cvar = bind.cells old := by
  simp only [PtrBind.cells, string, value]

/-- A write to a variable that is apart. -/
theorem PtrBind.Apart.holds {a b : PtrBind} (apart : a.Apart b) {memory : Nat → Cell}
    {cvar other : Cvar} (holds : Memory.Holds memory a.ptr (a.cells cvar)) :
    Memory.Holds (Memory.write memory b.ptr (b.cells other)) a.ptr (a.cells cvar) :=
  holds.write (apart.mono (a.length_cells_le cvar) (b.length_cells_le other))

/-! ## Copying to all variables of a cvar -/

/-- The memory after the loop of `on_change`. -/
def copyAll (cvar : Cvar) (memory : Nat → Cell) (binds : List PtrBind) : Nat → Cell :=
  binds.foldl (fun memory bind => Memory.write memory bind.ptr (bind.cells cvar)) memory

theorem foldl_copyBind (s : State) (cvar : Cvar) (binds : List PtrBind) :
    binds.foldl (fun s bind => s.copyBind cvar bind) s =
      { s with memory := copyAll cvar s.memory binds } := by
  induction binds generalizing s with
  | nil => rfl
  | cons bind rest ih =>
      rw [List.foldl_cons, ih]
      rfl

/-- What holds once the variables are copied, and what every hook keeps, holds in the end. -/
theorem onChange_keeps {I : State → Prop} {run : Forwards} {c : Nat} {cvar : Cvar} {value : Wide}
    (hooks : ∀ t fwd before after t', I t → run t fwd c before after = some t' → I t')
    (copied : I { s with memory := copyAll cvar s.memory (s.bindList c) })
    (changes : s.onChange run c cvar value = some s') : I s' := by
  simp only [State.onChange, foldl_copyBind] at changes
  generalize s.cvarHookList c = list at changes
  generalize ({ s with memory := copyAll cvar s.memory (s.bindList c) } : State) = t
    at copied changes
  induction list generalizing t with
  | nil =>
      cases changes
      exact copied
  | cons fwd rest ih =>
      rw [List.foldlM_cons] at changes
      obtain ⟨u, ran, goes⟩ := Option.bind_eq_some_iff.1 changes
      refine ih u ?_ goes
      split at ran
      · exact hooks t fwd _ _ u copied ran
      · cases ran
        exact copied

/-- A variable that is apart from all of them is left as it is. -/
theorem holds_copyAll_of_apart {cvar other : Cvar} {memory : Nat → Cell} {binds : List PtrBind}
    {a : PtrBind} (apart : ∀ b ∈ binds, a.Apart b)
    (holds : Memory.Holds memory a.ptr (a.cells cvar)) :
    Memory.Holds (copyAll other memory binds) a.ptr (a.cells cvar) := by
  induction binds generalizing memory with
  | nil => exact holds
  | cons bind rest ih =>
      exact ih (fun b member => apart b (List.mem_cons_of_mem _ member))
        ((apart bind List.mem_cons_self).holds holds)

/-- Each of them gets its conversion. -/
theorem holds_copyAll {cvar : Cvar} {memory : Nat → Cell} {binds : List PtrBind}
    (apart : binds.Pairwise PtrBind.Apart) {a : PtrBind} (member : a ∈ binds) :
    Memory.Holds (copyAll cvar memory binds) a.ptr (a.cells cvar) := by
  induction binds generalizing memory with
  | nil => cases member
  | cons bind rest ih =>
      obtain ⟨first, others⟩ := List.pairwise_cons.1 apart
      rw [copyAll, List.foldl_cons]
      rcases List.mem_cons.1 member with rfl | later
      · exact holds_copyAll_of_apart first Memory.holds_write
      · exact ih others later

/-! ## What every call keeps -/

/-- The engine's values are those of its strings and it finds each cvar under its name; what
is bound is tracked and what has a type is bound; and no two variables share a cell. -/
structure State.Kept (env : Env) (s : State) : Prop where
  value : ∀ (c : Nat) (cvar : Cvar), s.cvars[c]? = some cvar → cvar.value = env.atof cvar.string
  found : ∀ (c : Nat) (cvar : Cvar), s.cvars[c]? = some cvar → s.getPointer env cvar.name = some c
  inside : ∀ c, s.pCvar c ≠ none → c < s.cvars.length
  tracked : ∀ c, s.bindList c ≠ [] → s.pCvar c ≠ none
  typed : ∀ c m, s.pCvar c = some m → m.type ≠ .none → s.bindList c ≠ []
  pairwise : ∀ c, (s.bindList c).Pairwise PtrBind.Apart
  apart : ∀ c d, c ≠ d → ∀ a ∈ s.bindList c, ∀ b ∈ s.bindList d, a.Apart b

/-- Every variable holds the conversion of its cvar, but those of one cvar that of an older
string. -/
structure State.Behind (env : Env) (s : State) (c : Nat) (old : Cvar) : Prop where
  kept : s.Kept env
  others : ∀ (d : Nat) (cvar : Cvar) (bind : PtrBind),
    d ≠ c → s.cvars[d]? = some cvar → bind ∈ s.bindList d → s.Shows cvar bind
  own : ∀ bind ∈ s.bindList c, s.Shows old bind
  value : old.value = env.atof old.string

/-- The cvar has no variables. -/
theorem State.Behind.follows_of_unbound {c : Nat} {old : Cvar} (behind : s.Behind env c old)
    (unbound : s.bindList c = []) : s.Follows := by
  intro d cvar bind isCvar member
  refine behind.others d cvar bind (fun isC => ?_) isCvar member
  rw [isC, unbound] at member
  cases member

/-- The string is the old one. -/
theorem State.Behind.follows {c : Nat} {old : Cvar} (behind : s.Behind env c old)
    (same : ∀ cvar, s.cvars[c]? = some cvar → cvar.string = old.string) : s.Follows := by
  intro d cvar bind isCvar member
  by_cases isC : d = c
  · subst isC
    have cells := bind.cells_congr (same cvar isCvar)
      ((behind.kept.value d cvar isCvar).trans (same cvar isCvar ▸ behind.value.symm))
    rw [State.Shows, cells]
    exact behind.own bind member
  · exact behind.others d cvar bind isC isCvar member

/-! ## What the engine does -/

/-- A string is stored: the variables of the cvar are behind. -/
theorem State.Behind.store {c : Nat} {old : Cvar} (behind : s.Behind env c old) (value : Text) :
    (s.store env c value).Behind env c old := by
  have cvars (d : Nat) (cvar : Cvar) (isCvar : (s.store env c value).cvars[d]? = some cvar) :
      (∃ before, s.cvars[d]? = some before ∧ before.name = cvar.name) ∧
        cvar.value = env.atof cvar.string ∧ (d ≠ c → s.cvars[d]? = some cvar) := by
    simp only [State.store, List.getElem?_modify] at isCvar
    obtain ⟨before, isBefore, rfl⟩ := Option.map_eq_some_iff.1 isCvar
    refine ⟨⟨before, isBefore, ?_⟩, ?_, fun other => ?_⟩
    · split <;> rfl
    · split
      · rfl
      · exact behind.kept.value d before isBefore
    · rw [if_neg (Ne.symm other)]
      exact isBefore
  refine ⟨⟨fun d cvar isCvar => (cvars d cvar isCvar).2.1, fun d cvar isCvar => ?_,
    fun d tracked => ?_, behind.kept.tracked, behind.kept.typed, behind.kept.pairwise,
    behind.kept.apart⟩, fun d cvar bind other isCvar => ?_, behind.own, behind.value⟩
  · obtain ⟨before, isBefore, name⟩ := (cvars d cvar isCvar).1
    rw [getPointer_store, ← name]
    exact behind.kept.found d before isBefore
  · rw [State.store, List.length_modify]
    exact behind.kept.inside d tracked
  · exact behind.others d cvar bind other ((cvars d cvar isCvar).2.2 other)

/-- A record stands for a cvar of the engine, and the string is stored there. -/
theorem State.Behind.stored {c : Nat} {m : Tracked} {old : Cvar} (behind : s.Behind env c old)
    (isRecord : s.pCvar c = some m) (value : Text) : ∃ cvar, s.cvars[c]? = some cvar ∧
      (s.store env c value).cvars[c]? =
        some { cvar with string := value, value := env.atof value } := by
  have tracked : s.pCvar c ≠ none := by
    rw [isRecord]
    exact Option.some_ne_none m
  obtain ⟨cvar, isCvar⟩ : ∃ cvar, s.cvars[c]? = some cvar :=
    ⟨_, List.getElem?_eq_getElem (behind.kept.inside c tracked)⟩
  exact ⟨cvar, isCvar, by simp [State.store, isCvar]⟩

/-- The string that is stored is the old one. -/
theorem State.Behind.follows_store {c : Nat} {old : Cvar} (behind : s.Behind env c old)
    {value : Text} (isOld : value = old.string) : (s.store env c value).Follows := by
  refine (behind.store value).follows fun cvar isCvar => ?_
  simp only [State.store, List.getElem?_modify] at isCvar
  obtain ⟨before, -, rfl⟩ := Option.map_eq_some_iff.1 isCvar
  rw [if_pos trivial]
  exact isOld

/-- A record is changed, and keeps its type or has variables. -/
theorem State.Kept.modify {c : Nat} {change : Tracked → Tracked} (kept : s.Kept env)
    (typed : ∀ m, s.pCvar c = some m → (change m).type ≠ .none → s.bindList c ≠ []) :
    (s.modify c change).Kept env := by
  have record (d : Nat) : (s.modify c change).pCvar d =
      if d = c then (s.pCvar d).map change else s.pCvar d := by
    simp only [State.modify, Function.update_apply]
    split
    · next isC => rw [isC]
    · rfl
  have none_iff (d : Nat) : (s.modify c change).pCvar d = none ↔ s.pCvar d = none := by
    rw [record]
    split
    · exact Option.map_eq_none_iff
    · rfl
  refine ⟨kept.value, kept.found, fun d tracked => kept.inside d (mt (none_iff d).2 tracked),
    fun d bound => mt (none_iff d).1 (kept.tracked d bound), fun d m isRecord => ?_, kept.pairwise,
    kept.apart⟩
  rw [record] at isRecord
  split at isRecord
  · next isC =>
      subst isC
      obtain ⟨before, isBefore, rfl⟩ := Option.map_eq_some_iff.1 isRecord
      exact typed before isBefore
  · exact kept.typed d m isRecord

theorem State.Kept.setMemory (kept : s.Kept env) (memory : Nat → Cell) :
    State.Kept env { s with memory := memory } :=
  ⟨kept.value, kept.found, kept.inside, kept.tracked, kept.typed, kept.pairwise, kept.apart⟩

/-- The record gets another value. -/
theorem State.Kept.setValue {c : Nat} (kept : s.Kept env) (value : Wide) :
    (s.modify c fun m => { m with value := value }).Kept env :=
  kept.modify fun m isRecord typed => kept.typed c m isRecord typed

/-! ## A string is set -/

/-- The record does not take what is set in the place of a string for the one that it shows, unless
the engine has it, and the engine finds the cvar under the name that the record has. -/
def State.InStep (env : Env) (s : State) (c : Nat) (cvar : Cvar) (m : Tracked) : Prop :=
  (∀ other ∈ m.corrections, m.value = stows other → other = cvar.string) ∧
    s.getPointer env (wstos m.name) = some c

instance (c : Nat) (cvar : Cvar) (m : Tracked) : Decidable (s.InStep env c cvar m) :=
  inferInstanceAs (Decidable (_ ∧ _))

theorem State.InStep.store {c : Nat} {cvar : Cvar} {m : Tracked} (inStep : s.InStep env c cvar m)
    (value : Text) : (s.store env c value).InStep env c cvar m :=
  ⟨inStep.1, (getPointer_store ..).trans inStep.2⟩

/-- Hooks that leave the cvars alone see the variables copied. -/
theorem onChange_quiet (s : State) (c : Nat) (cvar : Cvar) (value : Wide) :
    s.onChange quiet c cvar value =
      some { s with memory := copyAll cvar s.memory (s.bindList c) } := by
  have hooks (list : List Int) (s : State) : list.foldlM (fun s fwd =>
      if s.hookState fwd then
        quiet s fwd c (((s.pCvar c).map fun m => wstos m.value).getD []) (wstos value)
      else some s) s = some s := by
    induction list with
    | nil => rfl
    | cons fwd rest ih =>
        rw [List.foldlM_cons, show (if s.hookState fwd = true then _ else some s) = some s from ?_]
        · exact ih
        · split <;> rfl
  rw [State.onChange, foldl_copyBind]
  exact hooks _ _

/-- All variables of the cvar are copied: none is behind. -/
theorem State.Behind.follows_copyAll {c : Nat} {old cvar : Cvar} (behind : s.Behind env c old)
    (isCvar : s.cvars[c]? = some cvar) :
    State.Follows { s with memory := copyAll cvar s.memory (s.bindList c) } := by
  intro d other bind isOther member
  by_cases isC : d = c
  · subst isC
    obtain rfl := Option.some_inj.1 (isCvar.symm.trans isOther)
    exact holds_copyAll (behind.kept.pairwise d) member
  · exact holds_copyAll_of_apart (behind.kept.apart d c isC bind member)
      (behind.others d other bind isC isOther member)

/-- A string is set, and the manager takes for old only what is: the variables follow.  The
strings that take its place, if it does not stand, come to the same cvar. -/
theorem follows_of_directSet {c : Nat} {m : Tracked} {old : Cvar} (depth : Nat) {value : Text}
    (behind : s.Behind env c old) (isRecord : s.pCvar c = some m)
    (old_of_shown : m.type = .none ∨ m.value = stows value → value = old.string)
    (stands_or : m.verdict value = .stands ∨ s.InStep env c old m)
    (sets : directSet env quiet depth s c value = some s') : s'.Kept env ∧ s'.Follows := by
  induction depth generalizing s value with
  | zero => cases sets
  | succ depth ih =>
      obtain ⟨cvar, isCvar, stored⟩ := behind.stored isRecord value
      have after := behind.store value
      have same (isOld : value = old.string) : (s.store env c value).Follows :=
        behind.follows_store isOld
      rw [directSet_succ depth value isRecord isCvar (behind.kept.found c cvar isCvar)
        fun falls => (stands_or.resolve_left falls).2] at sets
      split at sets
      · next shown =>
          cases sets
          exact ⟨after.kept, same (old_of_shown (.inr shown))⟩
      next unlike =>
      split at sets
      · next untyped =>
          cases sets
          exact ⟨after.kept.setValue _, same (old_of_shown (.inl untyped))⟩
      next typed =>
      split at sets
      · next other found =>
          have falls : m.verdict value ≠ .stands := by
            intro stands
            rw [stands] at found
            cases found
          have inStep := stands_or.resolve_left falls
          refine ih after isRecord (fun shown => ?_) (.inr (inStep.store value)) sets
          exact inStep.1 other (mem_corrections found) (shown.resolve_left typed)
      · rw [onChange_quiet] at sets
        cases sets
        exact ⟨(after.kept.setMemory _).setValue _, after.follows_copyAll stored⟩

/-! ## Cvars are added -/

/-- What is kept, and that the variables follow. -/
def State.Good (env : Env) (s : State) : Prop := s.Kept env ∧ s.Follows

theorem State.Good.modify {c : Nat} {change : Tracked → Tracked} (good : s.Good env)
    (untyped : ∀ m, (change m).type = .none) : (s.modify c change).Good env :=
  ⟨good.1.modify fun m _ typed => absurd (untyped m) typed, good.2⟩

theorem State.Good.register (good : s.Good env) (cvar : Cvar) : (s.register env cvar).Good env := by
  unfold State.register
  split
  · exact good
  next refused =>
  obtain ⟨kept, follows⟩ := good
  simp only [Bool.or_eq_true, not_or, Bool.not_eq_true, Option.isSome_eq_false_iff,
    Option.isNone_iff_eq_none] at refused
  have old (c : Nat) (other : Cvar)
      (isOther : (s.cvars ++ [{ cvar with value := env.atof cvar.string }])[c]? = some other) :
      s.cvars[c]? = some other ∨
        c = s.cvars.length ∧ other = { cvar with value := env.atof cvar.string } := by
    rcases Nat.lt_trichotomy c s.cvars.length with before | rfl | behind
    · rw [List.getElem?_append_left before] at isOther
      exact .inl isOther
    · simp only [List.getElem?_append_right (Nat.le_refl _), Nat.sub_self,
        List.getElem?_cons_zero, Option.some.injEq] at isOther
      exact .inr ⟨rfl, isOther.symm⟩
    · rw [List.getElem?_eq_none (by simp; omega)] at isOther
      cases isOther
  refine ⟨⟨fun c other isOther => ?_, fun c other isOther => ?_, fun c tracked => ?_, kept.tracked,
    kept.typed, kept.pairwise, kept.apart⟩, fun c other bind isOther member => ?_⟩
  · rcases old c other isOther with before | ⟨-, rfl⟩
    · exact kept.value c other before
    · rfl
  · rcases old c other isOther with before | ⟨rfl, rfl⟩
    · have known := kept.found c other before
      rw [State.getPointer] at known ⊢
      rw [List.findIdx?_append, known]
      rfl
    · exact getPointer_append { cvar with value := env.atof cvar.string } refused.2
  · rw [List.length_append]
    exact Nat.lt_of_lt_of_le (kept.inside c tracked) (Nat.le_add_right _ _)
  · rcases old c other isOther with before | ⟨rfl, -⟩
    · exact follows c other bind before member
    · have bound : s.bindList s.cvars.length ≠ [] := List.ne_nil_of_mem member
      exact absurd (kept.inside _ (kept.tracked _ bound)) (Nat.lt_irrefl _)

/-- A cvar gets a record without a type. -/
theorem State.Kept.track (kept : s.Kept env) {c : Nat} {m : Tracked}
    (inside : c < s.cvars.length) (untyped : m.type = .none) (cvarList : Wide → Option Nat) :
    State.Kept env
      { s with cvarList := cvarList, pCvar := Function.update s.pCvar c (some m) } := by
  refine ⟨kept.value, kept.found, fun d tracked => ?_, fun d bound => ?_,
    fun d other isRecord typed => ?_, kept.pairwise, kept.apart⟩
  · by_cases isC : d = c
    · exact isC ▸ inside
    · simp only [Function.update_of_ne isC] at tracked
      exact kept.inside d tracked
  · by_cases isC : d = c
    · simp only [isC, Function.update_self]
      exact Option.some_ne_none _
    · simp only [Function.update_of_ne isC]
      exact kept.tracked d bound
  · by_cases isC : d = c
    · simp only [isC, Function.update_self, Option.some.injEq] at isRecord
      exact absurd (isRecord ▸ untyped) typed
    · simp only [Function.update_of_ne isC] at isRecord
      exact kept.typed d other isRecord typed

theorem State.Good.addExists (good : s.Good env) (cvar : Option Nat) (params : Params) :
    (s.addExists cvar params).1.Good env := by
  unfold State.addExists
  split
  · exact good
  split
  · exact good
  split
  · exact good
  next isCvar =>
  exact ⟨good.1.track (List.getElem?_eq_some_iff.1 isCvar).1 rfl _, good.2⟩

theorem State.Good.enlist (good : s.Good env) (pluginId : Int) (c : Nat) :
    (s.enlist pluginId c).Good env :=
  ⟨⟨good.1.value, good.1.found, good.1.inside, good.1.tracked, good.1.typed, good.1.pairwise,
    good.1.apart⟩, good.2⟩

/-- `add` leaves the strings and the variables as they are. -/
theorem State.Good.add (good : s.Good env) (pluginId : Int) (name value : Wide) (flags : Int)
    (params : Params) : (s.add env pluginId name value flags params).1.Good env :=
  add_keeps (I := State.Good env) (fun _ cvar good => good.register cvar)
    (fun _ cvar params good => good.addExists cvar params)
    (fun _ _ _ untyped good => good.modify fun _ => untyped)
    (fun _ pluginId c good => good.enlist pluginId c) good pluginId name value flags params

/-! ## A variable is bound -/

theorem mem_bindList_bound {c d : Nat} (cvar : Cvar) {bind other : PtrBind}
    (member : other ∈ (s.bound c cvar bind).bindList d) :
    other ∈ s.bindList d ∨ d = c ∧ other = bind := by
  simp only [State.bound, State.modify, State.copyBind, Function.update_apply] at member
  split at member
  · next isC =>
      rcases List.mem_append.1 member with old | new
      · exact .inl (isC ▸ old)
      · exact .inr ⟨isC, List.mem_singleton.1 new⟩
  · exact .inl member

theorem bindList_bound_ne_nil {c d : Nat} (cvar : Cvar) (bind : PtrBind)
    (old : s.bindList d ≠ [] ∨ d = c) : (s.bound c cvar bind).bindList d ≠ [] := by
  simp only [State.bound, State.modify, State.copyBind, Function.update_apply]
  split
  · exact List.append_ne_nil_of_right_ne_nil _ (List.cons_ne_nil _ _)
  · next other => exact old.resolve_right other

/-- The variable shows its cvar from the start. -/
theorem State.Good.bound (good : s.Good env) {c : Nat} {cvar : Cvar} {bind : PtrBind}
    (tracked : s.pCvar c ≠ none) (isCvar : s.cvars[c]? = some cvar)
    (apart : ∀ d, ∀ other ∈ s.bindList d, other.Apart bind) : (s.bound c cvar bind).Good env := by
  obtain ⟨kept, follows⟩ := good
  refine ⟨State.Kept.modify ⟨kept.value, kept.found, kept.inside, fun d bound => ?_,
    fun d m isRecord typed =>
      bindList_bound_ne_nil cvar bind (.inl (kept.typed d m isRecord typed)),
    fun d => ?_, fun d e unlike a isA b isB => ?_⟩
    fun _ _ _ => bindList_bound_ne_nil cvar bind (.inr rfl), fun d other old isOther member => ?_⟩
  · by_cases isC : d = c
    · exact isC ▸ tracked
    · simp only [State.copyBind, Function.update_of_ne isC] at bound
      exact kept.tracked d bound
  · simp only [State.copyBind, Function.update_apply]
    split
    · refine List.pairwise_append.2 ⟨kept.pairwise c, List.pairwise_singleton _ _, ?_⟩
      intro a isA b isB
      exact List.mem_singleton.1 isB ▸ apart c a isA
    · exact kept.pairwise d
  · rcases mem_bindList_bound cvar isA with oldA | ⟨rfl, rfl⟩
    · rcases mem_bindList_bound cvar isB with oldB | ⟨rfl, rfl⟩
      · exact kept.apart d e unlike a oldA b oldB
      · exact apart d a oldA
    · rcases mem_bindList_bound cvar isB with oldB | ⟨rfl, rfl⟩
      · exact (apart e b oldB).symm
      · exact absurd rfl unlike
  · rcases mem_bindList_bound cvar member with before | ⟨rfl, rfl⟩
    · exact (apart d old before).holds (follows d other old isOther before)
    · obtain rfl := Option.some_inj.1 (isCvar.symm.trans isOther)
      exact Memory.holds_write

/-! ## Runs -/

/-- The manager takes a string for an old one only if it is, and corrects one only if the
record is in step; a variable that is bound shares no cell with another. -/
def Heard (env : Env) (s : State) : Action → Prop
  | .add .. => True
  | .bind _ type mCvar ptr size =>
      ∀ c ∈ mCvar, ∀ m ∈ s.pCvar c, ∀ cvar ∈ s.cvars[c]?, s.binds m c ptr type = true →
        (∀ d < s.cvars.length, ∀ other ∈ s.bindList d, other.Apart ⟨ptr, type, size⟩) ∧
          ({ m with type := type }.verdict cvar.string = .stands ∨ s.InStep env c cvar m)
  | .directSet _ c value =>
      ∀ m ∈ s.pCvar c, ∀ cvar ∈ s.cvars[c]?, s.bindList c ≠ [] →
        (m.type = .none ∨ m.value = stows value → value = cvar.string) ∧
          (m.verdict value = .stands ∨ s.InStep env c cvar m)

instance (a : Action) : Decidable (Heard env s a) := by
  cases a <;> unfold Heard <;> infer_instance

theorem State.Good.behind (good : s.Good env) {c : Nat} {cvar : Cvar}
    (isCvar : s.cvars[c]? = some cvar) : s.Behind env c cvar :=
  ⟨good.1, fun d other bind _ isOther member => good.2 d other bind isOther member,
    fun bind member => good.2 c cvar bind isCvar member, good.1.value c cvar isCvar⟩

/-- No cell of a variable is that of a cvar that is not there. -/
theorem State.Kept.apart_of_lt (kept : s.Kept env) {bind : PtrBind}
    (apart : ∀ d < s.cvars.length, ∀ other ∈ s.bindList d, other.Apart bind) (d : Nat) :
    ∀ other ∈ s.bindList d, other.Apart bind := fun other member =>
  apart d (kept.inside d (kept.tracked d (List.ne_nil_of_mem member))) other member

theorem State.Good.bind (good : s.Good env) {depth : Nat} {type : CvarType} {mCvar : Option Nat}
    {ptr size : Nat} (heard : Heard env s (.bind depth type mCvar ptr size))
    (binds : s.bind env quiet depth type mCvar ptr size = some s') : s'.Good env := by
  unfold State.bind at binds
  split at binds
  · cases binds
    exact good
  next c =>
  split at binds
  case h_2 => cases binds
  next m cvar isRecord isCvar =>
  split at binds
  case isFalse =>
    cases binds
    exact good
  next accepted =>
  obtain ⟨apart, stands_or⟩ := heard c rfl m isRecord cvar isCvar accepted
  have tracked : s.pCvar c ≠ none := by
    rw [isRecord]
    exact Option.some_ne_none m
  have bound := good.bound tracked isCvar (good.1.apart_of_lt apart)
  have record : (s.bound c cvar ⟨ptr, type, size⟩).pCvar c = some { m with type := type } := by
    simp [State.bound, State.modify, State.copyBind, isRecord]
  rw [checkRange_eq (s := s.bound c cvar ⟨ptr, type, size⟩) (c := c) _ (good.1.found c cvar isCvar)
    fun falls => (stands_or.resolve_left falls).2] at binds
  split at binds
  · next other found =>
      rw [Option.map_map] at binds
      obtain ⟨after, sets, rfl⟩ := Option.map_eq_some_iff.1 binds
      have falls : { m with type := type }.verdict cvar.string ≠ .stands := by
        intro stands
        rw [stands] at found
        cases found
      have inStep := stands_or.resolve_left falls
      refine follows_of_directSet depth (bound.behind isCvar) record (fun shown => ?_)
        (.inr inStep) sets
      have member : other ∈ m.corrections := mem_corrections (m := { m with type := type }) found
      have isShown := shown.resolve_left fun untyped => falls (verdict_of_untyped untyped _)
      exact inStep.1 other member isShown
  · cases binds
    exact bound

/-- A cvar that is not tracked yet is tracked with its new string. -/
theorem onDirectSet_of_untracked {c : Nat} {cvar : Cvar} (run : Forwards) (set : Setter)
    (value : Text) (untracked : s.pCvar c = none) (isCvar : s.cvars[c]? = some cvar) :
    (s.store env c value).onDirectSet env run set c (stows value) =
      some ((s.store env c value).addExists (some c) .default).1 := by
  have stored : (s.store env c value).cvars[c]? =
      some { cvar with string := value, value := env.atof value } := by
    simp [State.store, isCvar]
  have none : (s.store env c value).pCvar c = none := untracked
  simp [State.onDirectSet, State.getTracked, State.addExists, none, stored]

theorem directSet_of_untracked {c : Nat} {cvar : Cvar} (depth : Nat) (value : Text)
    (untracked : s.pCvar c = none) (isCvar : s.cvars[c]? = some cvar) :
    directSet env quiet (depth + 1) s c value =
      some ((s.store env c value).addExists (some c) .default).1 := by
  rw [directSet]
  exact onDirectSet_of_untracked _ _ value untracked isCvar

theorem State.Good.directSet (good : s.Good env) {depth c : Nat} {value : Text}
    (inside : c < s.cvars.length) (heard : Heard env s (.directSet depth c value))
    (sets : directSet env quiet depth s c value = some s') : s'.Good env := by
  have isCvar : s.cvars[c]? = some s.cvars[c] := List.getElem?_eq_getElem inside
  cases isRecord : s.pCvar c with
  | none =>
      have unbound : s.bindList c = [] := by
        by_contra bound
        exact good.1.tracked c bound isRecord
      cases depth with
      | zero => cases sets
      | succ depth =>
          rw [directSet_of_untracked depth value isRecord isCvar] at sets
          cases sets
          have after := (good.behind isCvar).store value
          exact State.Good.addExists ⟨after.kept, after.follows_of_unbound unbound⟩ _ _
  | some m =>
      by_cases unbound : s.bindList c = []
      · have untyped : m.type = .none := by
          by_contra typed
          exact good.1.typed c m isRecord typed unbound
        have after := (good.behind isCvar).store value
        have stored : (s.store env c value).Good env :=
          ⟨after.kept, after.follows_of_unbound unbound⟩
        cases depth with
        | zero => cases sets
        | succ depth =>
            rw [directSet_succ depth value isRecord isCvar (good.1.found c _ isCvar)
              fun falls => absurd (verdict_of_untyped untyped value) falls, if_pos untyped] at sets
            split at sets
            · cases sets
              exact stored
            · cases sets
              exact ⟨stored.1.setValue _, stored.2⟩
      · obtain ⟨old_of_shown, stands_or⟩ := heard m isRecord _ isCvar unbound
        exact follows_of_directSet depth (good.behind isCvar) isRecord old_of_shown stands_or sets

/-- **Bound variables follow their cvar.**  In every run in which the manager takes a string
for an old one only if it is, and corrects one only if the record is in step, every variable
holds the conversion of the string that the engine has. -/
theorem follows_of_heard (env : Env) (s : State) (run : (machine env).Reaches (Heard env) s) :
    s.Follows := by
  suffices good : s.Good env from good.2
  refine Machine.Reaches.invariant (I := State.Good env) (fun s fresh => ?_)
    (fun s a s' _ good heard moved => ?_) run
  · refine ⟨⟨fresh.value, fresh.found, fun c tracked => absurd (fresh.untracked c) tracked,
      fun c bound => absurd (fresh.unbound c) bound, fun c m isRecord => ?_, fun c => ?_,
      fun c d _ a isA => ?_⟩, fun c cvar bind _ member => ?_⟩
    · rw [fresh.untracked c] at isRecord
      cases isRecord
    · rw [fresh.unbound c]
      exact List.Pairwise.nil
    · rw [fresh.unbound c] at isA
      cases isA
    · rw [fresh.unbound c] at member
      cases member
  · cases a with
    | add pluginId name value flags params =>
        cases moved
        exact good.add pluginId _ _ flags params
    | bind depth type mCvar ptr size => exact good.bind heard moved
    | directSet depth c value =>
        simp only [machine, State.step] at moved
        split at moved
        · next inside => exact good.directSet inside heard moved
        · cases moved

/-! ## Runs in which they do and do not -/

/-- An engine that reads numbers as `safe_stod` does. -/
def Env.plain : Env where
  sameName a b := a == b
  isCommand _ := false
  atof s := (safeStod s).getD (.fin false 0)
  toLower c := c
  sameName_refl name := beq_self_eq_true name

/-- An engine without cvars. -/
def State.empty : State :=
  ⟨[], fun _ => none, fun _ => none, fun _ => none, fun _ => [], fun _ => [], fun _ => false,
    fun _ => 0⟩

theorem State.empty_fresh : State.empty.Fresh Env.plain := by
  constructor <;> simp [State.empty]

/-- Numbers up to five. -/
def Params.upToFive : Params := ⟨[], true, .fin false 0, true, .fin false 5⟩

/-- Two plugins create and bind the cvar `x`; the engine sets it to 7, which is above the
range, and to no number, and each variable ends with the string of the engine. -/
theorem follows_of_heard_range : ∃ s : State,
    (s.cvars.map Cvar.string = [[0x30]] ∧ (s.bindList 0).length = 2 ∧ s.memory 8 = 0) ∧
      s.Follows := by
  have ends : ((machine .plain).execIf (fun s a => decide (Heard .plain s a)) .empty
      [.add 1 [0x78] [0x31] 0 .upToFive, .bind 9 .num (some 0) 8 1,
        .add 2 [0x78] [0x31] 0 .upToFive,
        .bind 9 .num (some 0) 9 1, .directSet 9 0 [0x37], .directSet 9 0 [0x61]]).map
        (fun s => s.cvars.map Cvar.string == [[0x30]] && (s.bindList 0).length == 2 &&
          s.memory 8 == 0) = some true := by decide +kernel
  obtain ⟨s, run, holds⟩ := Machine.exists_reaches (M := machine .plain)
    (fun s a ok => of_decide_eq_true ok) State.empty_fresh ends
  simp only [Bool.and_eq_true, beq_iff_eq] at holds
  exact ⟨s, ⟨holds.1.1, holds.1.2, holds.2⟩, follows_of_heard .plain s run⟩

/-- A second plugin creates the cvar, which thus loses its type: the variable of the first
one keeps the 1 while the engine has the 2. -/
theorem not_always_follows : ¬ ∀ env s, (machine env).Reachable s → s.Follows := by
  intro always
  have ends : ((machine .plain).exec .empty
      [.add 1 [0x78] [0x31] 0 .default, .bind 9 .num (some 0) 8 1, .add 2 [0x78] [0x31] 0 .default,
        .directSet 9 0 [0x32]]).map
        (fun s => s.cvars == [⟨[0x78], [0x32], .fin false 2, 0⟩] &&
          s.bindList 0 == [⟨8, .num, 1⟩] &&
          s.memory 8 == 1) = some true := by decide +kernel
  obtain ⟨s, run, holds⟩ := Machine.exists_reachable (M := machine .plain) State.empty_fresh ends
  simp only [Bool.and_eq_true, beq_iff_eq] at holds
  obtain ⟨⟨cvars, bindList⟩, memory⟩ := holds
  have shows := always .plain s run 0 _ ⟨8, .num, 1⟩ (by rw [cvars]; rfl) (by rw [bindList]; simp)
  have cell : s.memory 8 = 2 := shows 0 2 (by decide +kernel)
  rw [memory] at cell
  cases cell

end Refsapi.Cvars
