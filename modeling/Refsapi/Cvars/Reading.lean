/-
# Cvars.Reading -- what `get` returns and what a bound variable holds

`copy_bind` converts the string of the cvar.  `get` cuts the `float` of the engine, which has 24
digits and stands for what the string begins with, and takes text and flags from the wide copy in
the record, which a string that is no UTF-8 does not come back from.

`reads_bound_iff` says for which strings a plugin that asks for the cvar gets what a plugin that
has bound a variable finds in it.
-/
import Refsapi.Cvars.Convert
import Refsapi.Cvars.Hooks

namespace Refsapi.Cvars

set_option autoImplicit false

variable {m : Tracked} {cvar : Cvar} {string : Text}

/-! ## What should agree -/

/-- `atof`: what the engine parses a string as, and rounds to a `float`. -/
def atof (string : Text) : Fp := ((Strtod.strtod string).map Prod.fst).getD (.fin false 0)

/-- `get` agrees with `copy_bind`: on the integer, the flags, and the text as far as both buffers
reach. -/
structure Tracked.ReadsBound (m : Tracked) (cvar : Cvar) : Prop where
  num : ∀ (bind : PtrBind) (ptrLen : Nat), bind.type = .num →
    bind.cells cvar = [(m.get cvar .num ptrLen).1]
  flg : ∀ (bind : PtrBind) (ptrLen : Nat), bind.type = .flg →
    bind.cells cvar = [(m.get cvar .flg ptrLen).1]
  str : ∀ (bind : PtrBind) (ptrLen i : Nat), bind.type = .str → i < ptrLen → i + 1 < bind.size →
    (bind.cells cvar)[i]? = (m.get cvar .str ptrLen).2[i]?

/-- What `safe_stod` takes for a number has an integer part that no `int` holds, or that is kept
when the number is rounded to a `float`; and what else a string begins with is below 1 as a
`float`. -/
def SameNumber (string : Text) : Prop :=
  match Strtod.strtod string with
  | none => True
  | some (x, erange, tail) =>
      if (tail.dropWhile Strtod.isSpace).isEmpty = true ∧ erange = false then
        ∀ a q, x = .fin a q → 2 ^ 31 ≤ q ∨ binary32.KeepsFloor q
      else ∃ a q, x = .fin a q ∧ q < 1 - 1 / 2 ^ 25

/-! ## Numbers -/

theorem toInt32_bounds (x : Fp) : -2 ^ 31 ≤ x.toInt32 ∧ x.toInt32 < 2 ^ 31 := by
  cases x with
  | nan a => exact ⟨le_refl _, by norm_num [Fp.toInt32]⟩
  | inf a => exact ⟨le_refl _, by norm_num [Fp.toInt32]⟩
  | fin a q =>
      simp only [Fp.toInt32]
      split_ifs <;> omega

/-- A cell holds every `int`. -/
theorem ofInt_toInt32 (x y : Fp) :
    BitVec.ofInt 32 x.toInt32 = BitVec.ofInt 32 y.toInt32 ↔ x.toInt32 = y.toInt32 := by
  have back (x : Fp) : (BitVec.ofInt 32 x.toInt32).toInt = x.toInt32 := by
    obtain ⟨low, high⟩ := toInt32_bounds x
    rw [BitVec.toInt_ofInt, Int.bmod_eq_of_le (by omega) (by omega)]
  refine ⟨fun same => ?_, fun same => by rw [same]⟩
  rw [← back x, ← back y, same]

theorem copyArg_of_none (reads : Strtod.strtod string = none) : copyArg string = .fin false 0 := by
  simp [copyArg, safeStod, reads]

theorem atof_of_none (reads : Strtod.strtod string = none) : atof string = .fin false 0 := by
  simp [atof, reads]

/-- **Numbers.** -/
theorem sameNumber_iff (string : Text) :
    (copyArg string).toInt32 = (atof string).single.toInt32 ↔ SameNumber string := by
  unfold SameNumber
  split
  · next reads =>
      rw [copyArg_of_none reads, atof_of_none reads]
      exact iff_of_true (by decide +kernel) trivial
  · next x erange tail reads =>
      have isAtof : atof string = x := by simp [atof, reads]
      rw [isAtof]
      split
      · next whole =>
          have isCopy : copyArg string = x := by simp [copyArg, safeStod, reads, whole]
          rw [isCopy]
          cases x with
          | nan a => exact iff_of_true rfl (fun b q same => by cases same)
          | inf a => exact iff_of_true rfl (fun b q same => by cases same)
          | fin a q =>
              rw [eq_comm, Fp.toInt32_single_iff (Strtod.strtod_nonneg reads)]
              refine ⟨fun kept b p same => ?_, fun kept => kept a q rfl⟩
              cases same
              exact kept
      · next part =>
          have isCopy : copyArg string = .fin false 0 := by
            have fails : (!(tail.dropWhile Strtod.isSpace).isEmpty || erange) = true := by
              cases ends : (tail.dropWhile Strtod.isSpace).isEmpty with
              | false => rfl
              | true => simpa [ends] using part
            simp [copyArg, safeStod, reads, fails]
          have zero : (Fp.fin false 0).toInt32 = 0 := by decide +kernel
          rw [isCopy, zero, eq_comm]
          cases x with
          | nan a =>
              refine iff_of_false (by norm_num [Fp.single, Fp.toInt32]) ?_
              rintro ⟨b, q, same, -⟩
              cases same
          | inf a =>
              refine iff_of_false (by norm_num [Fp.single, Fp.toInt32]) ?_
              rintro ⟨b, q, same, -⟩
              cases same
          | fin a q =>
              rw [Fp.toInt32_single_eq_zero (Strtod.strtod_nonneg reads)]
              refine ⟨fun below => ⟨a, q, rfl, below⟩, ?_⟩
              rintro ⟨b, p, same, below⟩
              cases same
              exact below

/-! ## Texts -/

/-- A character is found again in its cell. -/
theorem cell_injective : Function.Injective fun b : UInt8 => b.toBitVec.signExtend 32 := by
  have back (b : UInt8) : (b.toBitVec.signExtend 32).setWidth 8 = b.toBitVec := by
    ext i low
    simp [BitVec.getLsbD_signExtend, low, BitVec.getLsbD_eq_getElem]
    omega
  intro b c same
  have same := congrArg (BitVec.setWidth 8) same
  simp only [back] at same
  exact UInt8.toBitVec_inj.1 same

/-- The cells of a text, as far as a buffer reaches. -/
theorem take_cells {text : Text} {n i : Nat} (inside : i < n) :
    ((text.take n).map (fun b => b.toBitVec.signExtend 32) ++ [(0 : Cell)])[i]? =
      (text.map (fun b => b.toBitVec.signExtend 32) ++ [0])[i]? := by
  rw [List.map_take]
  by_cases short : i < text.length
  · rw [List.getElem?_append_left (by simp; omega), List.getElem?_append_left (by simpa),
      List.getElem?_take_of_lt inside]
  · rw [List.take_of_length_le (by simp; omega)]

/-- **Texts.**  What `get` gives of the wide copy is the string wherever two buffers reach, if
and only if it comes back from it. -/
theorem sameText_iff (shows : m.value = stows cvar.string) :
    (∀ (bind : PtrBind) (ptrLen i : Nat), bind.type = .str → i < ptrLen → i + 1 < bind.size →
      (bind.cells cvar)[i]? = (m.get cvar .str ptrLen).2[i]?) ↔
      wstos (stows cvar.string) = cvar.string := by
  have bound (bind : PtrBind) {i : Nat} (str : bind.type = .str) (inside : i + 1 < bind.size) :
      (bind.cells cvar)[i]? =
        (cvar.string.map (fun b => b.toBitVec.signExtend 32) ++ [0])[i]? := by
    simp only [PtrBind.cells, str, amxString]
    rw [if_neg (by omega)]
    exact take_cells (by omega)
  have got {ptrLen i : Nat} (inside : i < ptrLen) : (m.get cvar .str ptrLen).2[i]? =
      ((wstos (stows cvar.string)).map (fun b => b.toBitVec.signExtend 32) ++ [0])[i]? := by
    simp only [Tracked.get, shows, amxString]
    rw [if_neg (Nat.succ_ne_zero _), Nat.add_sub_cancel, ← List.take_eq_take_min]
    exact take_cells inside
  constructor
  · intro agree
    have cells : cvar.string.map (fun b => b.toBitVec.signExtend 32) ++ [0] =
        (wstos (stows cvar.string)).map (fun b => b.toBitVec.signExtend 32) ++ [0] := by
      refine List.ext_getElem? fun i => ?_
      rw [← bound ⟨0, .str, i + 2⟩ rfl (by simp), ← got (Nat.lt_succ_self i)]
      exact agree _ _ _ rfl (Nat.lt_succ_self i) (by simp)
    exact (List.map_injective_iff.2 cell_injective (List.append_cancel_right cells)).symm
  · intro same bind ptrLen i str inGet inBind
    rw [bound bind str inBind, got inGet, same]

/-- **Reading and binding.**  Where the engine parses a string and rounds it to a `float`, `get`
agrees with `copy_bind` on a tracked cvar if and only if its string is UTF-8 and its number is
the same, read whole and as a `float`. -/
theorem reads_bound_iff {env : Env} {s : State} {c : Nat} (coherent : s.Coherent env)
    (engine : ∀ string, env.atof string = (atof string).single) (tracked : s.pCvar c = some m)
    (isCvar : s.cvars[c]? = some cvar) :
    m.ReadsBound cvar ↔ Utf8.WellFormed cvar.string ∧ SameNumber cvar.string := by
  have shows : m.value = stows cvar.string :=
    coherent.shown c m cvar (fun never => never) tracked isCvar
  have value : cvar.value = (atof cvar.string).single :=
    (coherent.kept.value c cvar isCvar).trans (engine cvar.string)
  have number : SameNumber cvar.string ↔ ∀ (bind : PtrBind) (ptrLen : Nat), bind.type = .num →
      bind.cells cvar = [(m.get cvar .num ptrLen).1] := by
    have cells {bind : PtrBind} (num : bind.type = .num) (ptrLen : Nat) :
        bind.cells cvar = [(m.get cvar .num ptrLen).1] ↔ SameNumber cvar.string := by
      rw [← sameNumber_iff, ← value, ← ofInt_toInt32]
      simp only [PtrBind.cells, num, Tracked.get, copyArg, List.cons.injEq, and_true]
    exact ⟨fun same bind ptrLen num => (cells num ptrLen).2 same,
      fun all => (cells rfl 0).1 (all ⟨0, .num, 1⟩ 0 rfl)⟩
  rw [number, ← wstos_stows_iff, ← sameText_iff shows]
  constructor
  · rintro ⟨num, -, str⟩
    exact ⟨str, num⟩
  · rintro ⟨str, num⟩
    refine ⟨num, fun bind ptrLen flg => ?_, str⟩
    have back := (sameText_iff shows).1 str
    simp only [PtrBind.cells, flg, Tracked.get, shows, back]

/-! ## One cvar -/

/-- An engine that parses. -/
def Env.parsing : Env := { Env.plain with atof := fun string => (Cvars.atof string).single }

def shownCvar (string : Text) : Cvar := ⟨[0x78], string, (atof string).single, 0⟩

def shownRecord (string : Text) : Tracked :=
  { name := ['x'], value := stows string, desc := [], hasMin := false, hasMax := false,
    minVal := .fin false 0, maxVal := .fin false 0, type := .none, flags := 0 }

/-- A tracked cvar that nothing is bound to. -/
def shown (string : Text) : State :=
  { State.empty with
    cvars := [shownCvar string]
    pCvar := fun c => if c = 0 then some (shownRecord string) else none }

theorem shown_coherent (string : Text) : (shown string).Coherent .parsing := by
  have cvars {c : Nat} {cvar : Cvar} (isCvar : (shown string).cvars[c]? = some cvar) :
      c = 0 ∧ cvar = shownCvar string := by
    obtain _ | c := c
    · exact ⟨rfl, (Option.some.inj isCvar).symm⟩
    · cases isCvar
  have record {c : Nat} {m : Tracked} (isRecord : (shown string).pCvar c = some m) :
      c = 0 ∧ m = shownRecord string := by
    simp only [shown] at isRecord
    split at isRecord
    · next isX => exact ⟨isX, (Option.some.inj isRecord).symm⟩
    · cases isRecord
  refine ⟨⟨fun c cvar isCvar => ?_, fun c cvar isCvar => ?_, fun c tracked => ?_,
    fun c bound => absurd rfl bound, fun c m isRecord typed => ?_, fun c => .nil,
    fun c d other a isA => (by cases isA)⟩, fun c cvar bind isCvar member => (by cases member),
    fun c m cvar _ isRecord isCvar => ?_⟩
  · obtain ⟨-, rfl⟩ := cvars isCvar
    rfl
  · obtain ⟨rfl, rfl⟩ := cvars isCvar
    rfl
  · obtain ⟨m, isRecord⟩ := Option.ne_none_iff_exists'.1 tracked
    obtain ⟨rfl, -⟩ := record isRecord
    exact Nat.one_pos
  · obtain ⟨-, rfl⟩ := record isRecord
    exact absurd rfl typed
  · obtain ⟨-, rfl⟩ := record isRecord
    obtain ⟨-, rfl⟩ := cvars isCvar
    rfl

/-- `5`. -/
theorem reads_bound_iff_five : (shownRecord [0x35]).ReadsBound (shownCvar [0x35]) := by
  refine (reads_bound_iff (c := 0) (shown_coherent [0x35]) (fun _ => rfl) rfl rfl).2 ⟨?_, ?_⟩
  · exact .append (.one (by decide)) .nil
  · have reads : Strtod.strtod [0x35] = some (.fin false 5, false, []) := by decide +kernel
    show SameNumber [0x35]
    simp only [SameNumber, reads]
    rw [if_pos ⟨rfl, trivial⟩]
    rintro a q same
    cases same
    refine .inr ?_
    rw [Format.KeepsFloor, if_pos (by decide +kernel)]
    exact .inl (by decide +kernel)

/-- 16777217. -/
def oddNumber : Text := [0x31, 0x36, 0x37, 0x37, 0x37, 0x32, 0x31, 0x37]

/-- 16777217 is no `float`: `get` returns 16777216. -/
theorem not_always_reads_bound : ¬ ∀ (env : Env) (s : State) (c : Nat) (m : Tracked) (cvar : Cvar),
    s.Coherent env → (∀ string, env.atof string = (atof string).single) → s.pCvar c = some m →
      s.cvars[c]? = some cvar → m.ReadsBound cvar := by
  intro always
  have agrees := always .parsing (shown oddNumber) 0 (shownRecord oddNumber)
    (shownCvar oddNumber) (shown_coherent oddNumber) (fun _ => rfl) rfl rfl
  have bound := agrees.num ⟨0, .num, 1⟩ 0 rfl
  revert bound
  decide +kernel

end Refsapi.Cvars
