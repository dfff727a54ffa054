/-
# Misc.Path -- where the files of a plugin are

`make_path` joins the directories of the server with what a plugin asks for, and strips the
characters of `_BAD_PATH_CHARS_L` from the joined path: those of the directories go as well, and
the slashes at the end may be those of the game directory.  From the name it takes away `.amxx`
and whatever stands within 18 characters behind it, as the length of the literal is counted in
bytes.

`makePath_iff` says for which calls the path begins with the directories of the server and the
name is the plugin's own; two such names that differ do not share a file.
-/
import Mathlib.Data.List.DropRight
import Mathlib.Data.List.Infix

namespace Refsapi

set_option autoImplicit false

/-! ## The function -/

/-- `_BAD_PATH_CHARS_L`. -/
def badPathChars : List Char :=
  [' ', '\x5C', ',', '?', Char.ofNat 0x60, '\'', '"', '~', '!', '@', '#', '$', '%', '^', '&', '*',
    '(', ')', Char.ofNat 0x7B, Char.ofNat 0x7D, '[', ']', '-', '=', '\r', '\t', '\n', '\x08',
    '\x07']

def isBadPathChar (c : Char) : Bool := badPathChars.contains c

/-- `remove_chars` with `_BAD_PATH_CHARS_L`. -/
def removeBad (s : List Char) : List Char := s.filter fun c => !isBadPathChar c

/-- `rtrim` with the characters that no path ends with. -/
def rtrimPath (s : List Char) : List Char := s.rdropWhile [' ', '/'].contains

/-- The extension of a plugin's file. -/
def amxx : List Char := ['.', 'a', 'm', 'x', 'x']

/-- `find`, of the extension. -/
def findAmxx (name : List Char) : Option Nat := name.tails.findIdx? amxx.isPrefixOf

/-- `sizeof(L".amxx") - 1`: the literal has six characters of four bytes. -/
def sizeofAmxx : Nat := 6 * 4 - 1

/-- The directories of the server, of a `CAPI_Config`. -/
structure ApiConfig where
  rootPath : List Char
  gamePath : List Char

/-- What `make_path` is called with. -/
structure PathCall where
  path : List Char
  name : List Char
  defPath : List Char
  defName : List Char
  ext : List Char

namespace PathCall

/-- The directory that is asked for. -/
def dir (call : PathCall) : List Char := if call.path.isEmpty then call.defPath else call.path

/-- The name that is given. -/
def given (call : PathCall) : List Char := if call.name.isEmpty then call.defName else call.name

end PathCall

/-- `make_path`: the path and the name that it leaves. -/
def ApiConfig.makePath (cfg : ApiConfig) (call : PathCall) : List Char × List Char :=
  let path := cfg.rootPath ++ ['/'] ++ cfg.gamePath ++ ['/'] ++ call.dir
  let name := match findAmxx call.given with
    | none => call.given
    | some pos => call.given.take pos ++ call.given.drop (pos + sizeofAmxx)
  (rtrimPath (removeBad path), removeBad name ++ call.ext)

/-! ## What it is for -/

/-- The directory of the game. -/
def ApiConfig.home (cfg : ApiConfig) : List Char := cfg.rootPath ++ ['/'] ++ cfg.gamePath

/-- A name without the extension of a plugin's file. -/
def stem (name : List Char) : List Char :=
  match findAmxx name with
  | none => name
  | some pos => name.take pos ++ name.drop (pos + amxx.length)

/-- The file lands in the directory of the game, under the plugin's own name. -/
structure ApiConfig.Lands (cfg : ApiConfig) (call : PathCall) : Prop where
  path : (cfg.makePath call).1 = cfg.home ++ rtrimPath ('/' :: removeBad call.dir)
  name : (cfg.makePath call).2 = removeBad (stem call.given) ++ call.ext

/-- No bad character is in the directories of the server; the end of the game directory is not
trimmed; and behind the extension there are 18 bad characters, or nothing else. -/
structure ApiConfig.Plain (cfg : ApiConfig) (call : PathCall) : Prop where
  root : ∀ c ∈ cfg.rootPath, isBadPathChar c = false
  game : ∀ c ∈ cfg.gamePath, isBadPathChar c = false
  ends : (∃ c ∈ removeBad call.dir, c ≠ '/') ∨ cfg.gamePath ≠ [] ∧ cfg.gamePath.getLast? ≠ some '/'
  behind : ∀ pos, findAmxx call.given = some pos →
    ∀ c ∈ (call.given.drop (pos + amxx.length)).take 18, isBadPathChar c = true

/-! ## The path -/

theorem removeBad_append (s t : List Char) : removeBad (s ++ t) = removeBad s ++ removeBad t :=
  List.filter_append s t

theorem removeBad_eq_self {s : List Char} : removeBad s = s ↔ ∀ c ∈ s, isBadPathChar c = false := by
  simp [removeBad, List.filter_eq_self]

theorem removeBad_eq_nil {s : List Char} : removeBad s = [] ↔ ∀ c ∈ s, isBadPathChar c = true := by
  simp [removeBad, List.filter_eq_nil_iff]

theorem good_of_mem_removeBad {s : List Char} {c : Char} (member : c ∈ removeBad s) :
    isBadPathChar c = false := by
  simpa using (List.mem_filter.1 member).2

/-- What is left of two parts. -/
theorem rtrimPath_append (s t : List Char) :
    rtrimPath (s ++ t) = if rtrimPath t = [] then rtrimPath s else s ++ rtrimPath t := by
  simp only [rtrimPath, List.rdropWhile, List.reverse_append, List.dropWhile_append,
    List.isEmpty_iff, List.reverse_eq_nil_iff]
  split <;> simp

theorem rtrimPath_eq_nil {s : List Char} : rtrimPath s = [] ↔ ∀ c ∈ s, c = ' ' ∨ c = '/' := by
  simp [rtrimPath, List.rdropWhile_eq_nil_iff]

/-- The directory of the game is not trimmed. -/
theorem rtrimPath_home {cfg : ApiConfig} (clean : ∀ c ∈ cfg.gamePath, isBadPathChar c = false) :
    rtrimPath cfg.home = cfg.home ↔ cfg.gamePath ≠ [] ∧ cfg.gamePath.getLast? ≠ some '/' := by
  rw [rtrimPath, List.rdropWhile_eq_self_iff]
  rcases List.eq_nil_or_concat cfg.gamePath with empty | ⟨front, last, whole⟩
  · simp [ApiConfig.home, empty]
  · have noSpace : last ≠ ' ' := by
      rintro rfl
      exact absurd (clean ' ' (by simp [whole])) (by decide)
    simp [ApiConfig.home, whole, noSpace]

theorem slash_good : isBadPathChar '/' = false := by decide

theorem removeBad_cons_slash (s : List Char) : removeBad ('/' :: s) = '/' :: removeBad s :=
  List.filter_cons_of_pos (by decide)

theorem makePath_path (cfg : ApiConfig) (call : PathCall) :
    (cfg.makePath call).1 = rtrimPath (removeBad cfg.home ++ '/' :: removeBad call.dir) := by
  simp only [ApiConfig.makePath, ApiConfig.home, removeBad_append, List.append_assoc]
  rfl

theorem removeBad_home {cfg : ApiConfig} : removeBad cfg.home = cfg.home ↔
    (∀ c ∈ cfg.rootPath, isBadPathChar c = false) ∧
      ∀ c ∈ cfg.gamePath, isBadPathChar c = false := by
  rw [removeBad_eq_self]
  simp only [ApiConfig.home, List.mem_append, List.mem_singleton]
  constructor
  · intro good
    exact ⟨fun c member => good c (.inl (.inl member)), fun c member => good c (.inr member)⟩
  · rintro ⟨root, game⟩ c ((member | rfl) | member)
    · exact root c member
    · exact slash_good
    · exact game c member

/-- What is asked for is nothing but slashes. -/
theorem rtrimPath_dir (call : PathCall) : rtrimPath ('/' :: removeBad call.dir) = [] ↔
    ¬ ∃ c ∈ removeBad call.dir, c ≠ '/' := by
  have noSpace (c : Char) (member : c ∈ removeBad call.dir) : c ≠ ' ' := by
    rintro rfl
    exact absurd (good_of_mem_removeBad member) (by decide)
  rw [rtrimPath_eq_nil]
  constructor
  · rintro slashes ⟨c, member, other⟩
    exact (slashes c (List.mem_cons_of_mem _ member)).elim (noSpace c member) other
  · intro none c member
    rcases List.mem_cons.1 member with rfl | inDir
    · exact .inr rfl
    · exact .inr (by_contra fun other => none ⟨c, inDir, other⟩)

theorem lands_path_iff (cfg : ApiConfig) (call : PathCall) :
    (cfg.makePath call).1 = cfg.home ++ rtrimPath ('/' :: removeBad call.dir) ↔
      removeBad cfg.home = cfg.home ∧ ((∃ c ∈ removeBad call.dir, c ≠ '/') ∨
        cfg.gamePath ≠ [] ∧ cfg.gamePath.getLast? ≠ some '/') := by
  rw [makePath_path]
  constructor
  · intro lands
    have clean : removeBad cfg.home = cfg.home := by
      refine removeBad_eq_self.2 fun c member => ?_
      have inPath : c ∈ rtrimPath (removeBad cfg.home ++ '/' :: removeBad call.dir) :=
        lands ▸ List.mem_append_left _ member
      have stripped : removeBad (cfg.home ++ '/' :: call.dir) =
          removeBad cfg.home ++ '/' :: removeBad call.dir := by
        rw [removeBad_append, removeBad_cons_slash]
      rw [← stripped] at inPath
      exact good_of_mem_removeBad ((List.rdropWhile_prefix _ _).subset inPath)
    refine ⟨clean, or_iff_not_imp_left.2 fun slashes => ?_⟩
    have game := (removeBad_home.1 clean).2
    rw [rtrimPath_append, if_pos ((rtrimPath_dir call).2 slashes), clean,
      (rtrimPath_dir call).2 slashes, List.append_nil] at lands
    exact (rtrimPath_home game).1 lands
  · rintro ⟨clean, ends⟩
    have game := (removeBad_home.1 clean).2
    rw [clean, rtrimPath_append]
    split
    · next slashes =>
        have trimmed := (rtrimPath_home game).2 (ends.resolve_left ((rtrimPath_dir call).1 slashes))
        rw [trimmed, slashes, List.append_nil]
    · rfl

/-! ## The name -/

theorem lands_name_iff (cfg : ApiConfig) (call : PathCall) :
    (cfg.makePath call).2 = removeBad (stem call.given) ++ call.ext ↔
      ∀ pos, findAmxx call.given = some pos →
        ∀ c ∈ (call.given.drop (pos + amxx.length)).take 18, isBadPathChar c = true := by
  simp only [ApiConfig.makePath, stem, List.append_left_inj]
  cases found : findAmxx call.given with
  | none => exact iff_of_true rfl fun _ some => by cases some
  | some pos =>
      -- The two names differ by what is taken away with the extension.
      have far : call.given.drop (pos + sizeofAmxx) =
          (call.given.drop (pos + amxx.length)).drop 18 := by
        rw [List.drop_drop]
        rfl
      simp only [Option.some.injEq, forall_eq', removeBad_append, List.append_right_inj]
      rw [far]
      generalize call.given.drop (pos + amxx.length) = rest
      have parts : removeBad rest = removeBad (rest.take 18) ++ removeBad (rest.drop 18) := by
        rw [← removeBad_append, List.take_append_drop]
      rw [parts, ← removeBad_eq_nil]
      exact List.self_eq_append_left

/-- **Where the file of a plugin is.**  The path begins with the directory of the game and the
name is the plugin's own, if and only if the call is plain; and of plain calls two names that
differ give different files. -/
theorem makePath_iff (cfg : ApiConfig) (call other : PathCall) :
    (cfg.Lands call ↔ cfg.Plain call) ∧
      (cfg.Plain call → cfg.Plain other → call.ext = other.ext →
        removeBad (stem call.given) ≠ removeBad (stem other.given) →
          cfg.makePath call ≠ cfg.makePath other) := by
  have lands_iff (call : PathCall) : cfg.Lands call ↔ cfg.Plain call := by
    constructor
    · rintro ⟨path, name⟩
      obtain ⟨clean, ends⟩ := (lands_path_iff cfg call).1 path
      obtain ⟨root, game⟩ := removeBad_home.1 clean
      exact ⟨root, game, ends, (lands_name_iff cfg call).1 name⟩
    · rintro ⟨root, game, ends, behind⟩
      exact ⟨(lands_path_iff cfg call).2 ⟨removeBad_home.2 ⟨root, game⟩, ends⟩,
        (lands_name_iff cfg call).2 behind⟩
  refine ⟨lands_iff call, fun plain plain' sameExt differ same => differ ?_⟩
  have name := ((lands_iff call).2 plain).name
  rw [same, ((lands_iff other).2 plain').name, sameExt] at name
  exact (List.append_left_inj _).1 name.symm

/-- The directories `/srv` and `cstrike`. -/
def srv : ApiConfig := ⟨['/', 's', 'r', 'v'], ['c', 's', 't', 'r', 'i', 'k', 'e']⟩

/-- A call with a name, in the directory `logs`. -/
def named (name : List Char) : PathCall :=
  { path := [], name := name, defPath := ['l', 'o', 'g', 's'], defName := [], ext := ['.', 'l'] }

theorem plain_named {name : List Char}
    (behind : ∀ pos, findAmxx (named name).given = some pos →
      ∀ c ∈ ((named name).given.drop (pos + amxx.length)).take 18, isBadPathChar c = true) :
    srv.Plain (named name) :=
  ⟨removeBad_eq_self.1 (by decide), removeBad_eq_self.1 (by decide), .inr (by decide), behind⟩

/-- `a.amxx` and `b` give different files. -/
theorem makePath_iff_named :
    srv.makePath (named (['a'] ++ amxx)) ≠ srv.makePath (named ['b']) :=
  (makePath_iff srv _ _).2
    (plain_named (by
      intro pos found
      have first : findAmxx (named (['a'] ++ amxx)).given = some 1 := by decide
      obtain rfl : 1 = pos := Option.some.inj (first.symm.trans found)
      exact removeBad_eq_nil.1 (by decide)))
    (plain_named (by
      intro pos found
      have none : findAmxx (named ['b']).given = Option.none := by decide
      rw [none] at found
      cases found))
    rfl (by decide)

/-- `my-srv` loses its `-`, and `a.amxx1` and `a.amxx2` share a file. -/
theorem not_always_lands : (¬ ∀ cfg call, ApiConfig.Lands cfg call) ∧
    ¬ ∀ (cfg : ApiConfig) (call other : PathCall), call.ext = other.ext →
      removeBad (stem call.given) ≠ removeBad (stem other.given) →
        cfg.makePath call ≠ cfg.makePath other := by
  constructor
  · intro always
    have path := (always ⟨['/', 'm', 'y', '-', 's', 'r', 'v'], ['c', 's']⟩ (named ['a'])).path
    exact absurd path (by decide)
  · intro always
    exact always srv (named (['a'] ++ amxx ++ ['1'])) (named (['a'] ++ amxx ++ ['2'])) rfl
      (by decide) (by decide)

end Refsapi
