/-
# Cvars.Config -- `cvar_mngr::config`, which reads and writes a plugin's file

The file is read line by line into a map, where the first entry of a name stays.
If the names in the map are not those of the list the file is written anew: a
banner, and for each cvar its description, default and bounds as comments and a
line with its value.  What was loaded is set in any case.

Opening the file always succeeds, and what the stream writes is what it reads.
A `std::map` is the list of its entries in the order of their keys.
-/
import Mathlib.Data.Char
import Mathlib.Data.List.Lex
import Mathlib.Data.List.Sort
import Refsapi.Lib.Decimal
import Refsapi.Misc.Text

namespace Refsapi.Cvars

set_option autoImplicit false

/-- What `config` uses of an `m_cvar_t`. -/
structure MCvar where
  name : List Char
  value : List Char
  desc : List Char
  hasMin : Bool
  hasMax : Bool
  minVal : Fp
  maxVal : Fp
  deriving DecidableEq

/-- A name and a value read from the file. -/
abbrev Entry : Type := List Char × List Char

/-! ## Reading -/

/-- The line is a comment. -/
def isComment (line : List Char) : Bool :=
  [';'].isPrefixOf line || ['#'].isPrefixOf line || ['/', '/'].isPrefixOf line

/-- What a line says: nothing, or an entry.  `none` where `rm_quote` is undefined. -/
def readLine (line : List Char) : Option (Option Entry) :=
  let line := trim line
  if isComment line || !line.contains ' ' then some none
  else
    let varName := trim (line.takeWhile (· != ' '))
    let varValue := trim ((line.dropWhile (· != ' ')).drop 1)
    (rmQuote varValue).map fun quoted => some (varName, quoted.2)

/-- `load_cvars.insert`: an entry that is there stays. -/
def insertEntry (entry : Entry) (loaded : List Entry) : List Entry :=
  if (loaded.lookup entry.1).isSome then loaded
  else loaded.orderedInsert (fun a b => a.1 ≤ b.1) entry

/-- The loop that reads the file. -/
def readLines : List (List Char) → List Entry → Option (List Entry)
  | [], loaded => some loaded
  | line :: rest, loaded =>
      (readLine line).bind fun
        | none => readLines rest loaded
        | some entry => readLines rest (insertEntry entry loaded)

/-- The map that the file loads.  `splitOn` finds one line more than `getline`, the empty
one after the last line feed, which says nothing. -/
def readFile (file : List Char) : Option (List Entry) := readLines (file.splitOn '\n') []

def needUpdate (loaded : List Entry) (cvars : List MCvar) : Bool :=
  cvars.any (fun c => (loaded.lookup c.name).isNone) ||
    (cvars.length == 0 || cvars.length != loaded.length)

/-! ## Writing -/

/-- `plugin_title`, `plugin_author`, `plugin_name` and `plugin_version`, as the characters that the
stream makes of them.  These texts are narrow, and `widen` knows ASCII only (`Plugin.Ascii`): behind
another byte the stream fails, and the file is lost. -/
structure Plugin where
  title : List Char
  author : List Char
  name : List Char
  version : List Char
  deriving DecidableEq

/-- What makes a line a comment. -/
def slashes : List Char := ['/', '/', ' ']

/-- The line of the banner that names the plugin. -/
def signature (plugin : Plugin) : List Char :=
  slashes ++ "Cvars for plugin \"".toList ++ plugin.title ++ "\" by \"".toList ++ plugin.author ++
    "\" (".toList ++ plugin.name ++ ", v".toList ++ plugin.version ++ [')']

/-- The stream can widen the texts of the banner. -/
def Plugin.Ascii (plugin : Plugin) : Prop := ∀ c ∈ signature plugin, c.toNat < 0x80

instance (plugin : Plugin) : Decidable plugin.Ascii :=
  List.decidableBAll (fun c : Char => c.toNat < 0x80) (signature plugin)

def banner (plugin : Plugin) : List Char :=
  slashes ++ "This file was auto-generated by REFSAPI".toList ++ ['\n'] ++
    signature plugin ++ ['\n']

/-- A description, where each line is made a comment. -/
def describe (desc : List Char) : List Char :=
  desc.flatMap fun ch => if ch == '\n' then ch :: slashes else [ch]

def defaultComment (c : MCvar) : List Char := slashes ++ "Default: \"".toList ++ c.value ++ ['"']

/-- The comment of a bound that the cvar has. -/
def boundComment (title : List Char) (shown : Bool) (x : Fp) : List Char :=
  if shown then slashes ++ title ++ [':', ' ', '"'] ++ x.printF ++ ['"', '\n'] else []

/-- The comments of a cvar. -/
def comments (c : MCvar) : List Char :=
  ['\n'] ++ slashes ++ describe c.desc ++ ['\n'] ++ slashes ++ ['-', '\n'] ++
    defaultComment c ++ ['\n'] ++
    boundComment "Minimum".toList c.hasMin c.minVal ++
    boundComment "Maximum".toList c.hasMax c.maxVal

/-- The line that carries a value. -/
def assignment (name value : List Char) : List Char := name ++ [' ', '"'] ++ value ++ ['"']

/-- All that is written of a cvar. -/
def cvarText (c : MCvar) (value : List Char) : List Char :=
  comments c ++ assignment c.name value ++ ['\n']

/-- The entries that are left over. -/
def disabled (loaded : List Entry) : List Char :=
  if loaded.isEmpty then []
  else ['\n'] ++ slashes ++ "- DISABLED\n".toList ++ loaded.flatMap fun entry =>
    slashes ++ entry.1 ++ [' ', '=', ' ', '"'] ++ entry.2 ++ ['"', '\n']

theorem disabled_nil : disabled [] = [] := rfl

/-! ## `config` -/

/-- What a call leaves: the list of the plugin, the file, what has been set in which
order, and what is told of the file. -/
structure Outcome where
  cvars : List MCvar
  file : List Char
  sets : List Entry
  left : Nat
  isExist : Bool
  autoCreate : Bool
  isNeedUpdate : Bool
  deriving DecidableEq

/-- The cell that is returned. -/
def Outcome.result (o : Outcome) : Nat :=
  (o.cvars.length &&& 0xFF) ||| ((o.left &&& 0xFF) <<< 8) |||
    ((o.isExist.toNat ||| ((!o.isExist && o.autoCreate).toNat <<< 1) |||
      (o.isNeedUpdate.toNat <<< 2)) <<< 16)

/-- One turn of the loop over the list: the cvar, what is written and set, and what is left
of the map.  `remove_chars` changes the string it is given. -/
def turn (isNeedUpdate : Bool) (c : MCvar) (loaded : List Entry) :
    MCvar × List Char × List Entry × List Entry :=
  match loaded.lookup c.name with
  | some value =>
      let value := if isNeedUpdate then removeChars value else value
      (c, if isNeedUpdate then cvarText c value else [], [(c.name, value)],
        loaded.filter fun entry => entry.1 != c.name)
  | none =>
      let value := if isNeedUpdate then removeChars c.value else c.value
      ({ c with value := value }, if isNeedUpdate then cvarText c value else [], [], loaded)

/-- The loop over the list. -/
def turns (isNeedUpdate : Bool) : List MCvar → List Entry →
    List MCvar × List Char × List Entry × List Entry
  | [], loaded => ([], [], [], loaded)
  | c :: rest, loaded =>
      let first := turn isNeedUpdate c loaded
      let others := turns isNeedUpdate rest first.2.2.2
      (first.1 :: others.1, first.2.1 ++ others.2.1, first.2.2.1 ++ others.2.2.1, others.2.2.2)

/-- `sort`: by name. -/
def sortCvars (cvars : List MCvar) : List MCvar := cvars.insertionSort fun a b => a.name ≤ b.name

/-- `config`, where the file is there or not.  `none` where reading it is undefined, and
`some none` where nothing is done. -/
def config (cvars : List MCvar) (file : Option (List Char)) (autoCreate : Bool) (plugin : Plugin) :
    Option (Option Outcome) :=
  let cvars := sortCvars cvars
  if file.isNone && !autoCreate then some none
  else
    ((file.map readFile).getD (some [])).map fun loaded =>
      let isNeedUpdate := needUpdate loaded cvars
      let (after, text, sets, left) := turns isNeedUpdate cvars loaded
      some {
        cvars := after
        file := if isNeedUpdate then banner plugin ++ text ++ disabled left else file.getD []
        sets := sets
        left := left.length
        isExist := file.isSome
        autoCreate := autoCreate
        isNeedUpdate := isNeedUpdate }

/-! ## The map -/

theorem lookup_entry (entry : Entry) (loaded : List Entry) (n : List Char) :
    (entry :: loaded).lookup n = if n = entry.1 then some entry.2 else loaded.lookup n := by
  obtain ⟨name, value⟩ := entry
  by_cases same : n = name
  · simp [same]
  · simp [List.lookup_cons, same, beq_eq_false_iff_ne.2 same]

theorem lookup_orderedInsert {entry : Entry} {loaded : List Entry}
    (new : loaded.lookup entry.1 = none) (n : List Char) :
    (loaded.orderedInsert (fun a b => a.1 ≤ b.1) entry).lookup n =
      if n = entry.1 then some entry.2 else loaded.lookup n := by
  induction loaded with
  | nil => exact lookup_entry entry [] n
  | cons head rest ih =>
      rw [lookup_entry] at new
      split at new
      · cases new
      · next other =>
          rw [List.orderedInsert]
          split
          · exact lookup_entry entry (head :: rest) n
          · rw [lookup_entry, ih new, lookup_entry]
            by_cases same : n = entry.1
            · subst same
              simp [other]
            · simp [same]

theorem lookup_insertEntry (entry : Entry) (loaded : List Entry) (n : List Char) :
    (insertEntry entry loaded).lookup n = (loaded.lookup n).or ([entry].lookup n) := by
  unfold insertEntry
  rw [lookup_entry]
  split
  · next known =>
      by_cases same : n = entry.1
      · subst same
        obtain ⟨value, found⟩ := Option.isSome_iff_exists.1 known
        simp [found]
      · simp [same]
  · next new =>
      rw [Bool.not_eq_true, Option.isSome_eq_false_iff, Option.isNone_iff_eq_none] at new
      rw [lookup_orderedInsert new]
      by_cases same : n = entry.1
      · subst same
        simp [new]
      · simp [same]

/-- The entries of a file, in their order, put into the map. -/
def load (entries loaded : List Entry) : List Entry :=
  entries.foldl (fun m entry => insertEntry entry m) loaded

theorem lookup_load (entries loaded : List Entry) (n : List Char) :
    (load entries loaded).lookup n = (loaded.lookup n).or (entries.lookup n) := by
  induction entries generalizing loaded with
  | nil => simp [load]
  | cons entry rest ih =>
      have step : load (entry :: rest) loaded = load rest (insertEntry entry loaded) := rfl
      rw [step, ih, lookup_insertEntry, Option.or_assoc, ← List.lookup_append]
      rfl

theorem nodup_insertEntry (entry : Entry) {loaded : List Entry}
    (distinct : (loaded.map Prod.fst).Nodup) :
    ((insertEntry entry loaded).map Prod.fst).Nodup := by
  unfold insertEntry
  split
  · exact distinct
  · next new =>
      have perm :=
        (List.perm_orderedInsert (fun a b : Entry => a.1 ≤ b.1) entry loaded).map Prod.fst
      rw [perm.nodup_iff, List.map_cons, List.nodup_cons]
      refine ⟨fun member => new ?_, distinct⟩
      obtain ⟨e, inside, same⟩ := List.mem_map.1 member
      exact List.lookup_isSome_iff.2 ⟨e, inside, by simp [same]⟩

theorem nodup_load (entries : List Entry) {loaded : List Entry}
    (distinct : (loaded.map Prod.fst).Nodup) : ((load entries loaded).map Prod.fst).Nodup := by
  induction entries generalizing loaded with
  | nil => exact distinct
  | cons entry rest ih => exact ih (nodup_insertEntry entry distinct)

theorem mem_keys_iff {loaded : List Entry} {n : List Char} :
    n ∈ loaded.map Prod.fst ↔ (loaded.lookup n).isSome = true := by
  rw [List.lookup_isSome_iff, List.mem_map]
  constructor
  · rintro ⟨entry, inside, rfl⟩
    exact ⟨entry, inside, beq_self_eq_true _⟩
  · rintro ⟨entry, inside, same⟩
    exact ⟨entry, inside, (beq_iff_eq.1 same).symm⟩

theorem lookup_erased {n name : List Char} (other : n ≠ name) (loaded : List Entry) :
    (loaded.filter fun entry => entry.1 != name).lookup n = loaded.lookup n := by
  induction loaded with
  | nil => rfl
  | cons entry rest ih =>
      by_cases same : entry.1 = name
      · rw [List.filter_cons_of_neg (by simp [same]), ih, lookup_entry,
          if_neg (fun isName => other (isName.trans same))]
      · rw [List.filter_cons_of_pos (by simp [same]), lookup_entry, lookup_entry, ih]

/-- What the empty map loads. -/
theorem nodup_load_nil (entries : List Entry) : ((load entries []).map Prod.fst).Nodup :=
  nodup_load entries List.Pairwise.nil

theorem lookup_load_nil (entries : List Entry) (n : List Char) :
    (load entries []).lookup n = entries.lookup n := by
  rw [lookup_load, List.lookup_nil, Option.none_or]

end Refsapi.Cvars
