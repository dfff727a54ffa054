/-
# Cvars.RoundTrip -- a configuration file that `config` has written, read again

A file that is written for the first time holds comments, and for each cvar one
line with its value.  Read back, that line gives the value (`readLine_assignment`)
and a comment gives nothing; but the default of a cvar and the names in the banner
are written as they are, and where they hold a line feed the comment ends there.
The lines after it (`strayLines`) are read like any others.
-/
import Refsapi.Cvars.Config

namespace Refsapi.Cvars

set_option autoImplicit false

/-! ## What lines say -/

/-- The entries that lines carry, in their order. -/
def entries (ls : List (List Char)) : List Entry := ls.filterMap fun line => (readLine line).join

/-- Reading the lines is defined. -/
def Defined (ls : List (List Char)) : Prop := ∀ line ∈ ls, readLine line ≠ none

/-- The lines say nothing. -/
def Silent (ls : List (List Char)) : Prop := ∀ line ∈ ls, readLine line = some none

theorem readLines_eq_some_iff (ls : List (List Char)) (loaded result : List Entry) :
    readLines ls loaded = some result ↔ Defined ls ∧ result = load (entries ls) loaded := by
  induction ls generalizing loaded with
  | nil => simp [readLines, Defined, entries, load, eq_comm]
  | cons line rest ih =>
      rw [readLines, Defined, List.forall_mem_cons]
      cases said : readLine line with
      | none => simp
      | some found =>
          cases found with
          | none => simpa [entries, said, Defined] using ih loaded
          | some entry => simpa [entries, said, load, Defined] using ih (insertEntry entry loaded)

theorem readFile_eq_some_iff (file : List Char) (result : List Entry) :
    readFile file = some result ↔
      Defined (file.splitOn '\n') ∧ result = load (entries (file.splitOn '\n')) [] :=
  readLines_eq_some_iff _ _ _

theorem defined_append {a b : List (List Char)} : Defined (a ++ b) ↔ Defined a ∧ Defined b :=
  List.forall_mem_append

theorem entries_append (a b : List (List Char)) : entries (a ++ b) = entries a ++ entries b :=
  List.filterMap_append ..

theorem Silent.defined {ls : List (List Char)} (silent : Silent ls) : Defined ls := by
  intro line member
  rw [silent line member]
  exact Option.some_ne_none _

theorem Silent.entries {ls : List (List Char)} (silent : Silent ls) : entries ls = [] := by
  refine List.filterMap_eq_nil_iff.2 fun line member => ?_
  rw [silent line member]
  rfl

theorem silent_append {a b : List (List Char)} : Silent (a ++ b) ↔ Silent a ∧ Silent b :=
  List.forall_mem_append

theorem silent_nil : Silent [] := fun _ member => nomatch member

theorem silent_singleton {line : List Char} : Silent [line] ↔ readLine line = some none :=
  List.forall_mem_singleton

/-! ## Comments -/

theorem readLine_comment (rest : List Char) : readLine ('/' :: '/' :: rest) = some none := by
  unfold readLine
  rw [trim_cons rfl, rtrim_cons rfl]
  simp [isComment]

/-- A text without line feeds only makes the first line longer. -/
theorem splitOn_append_flat {text : List Char} (flat : '\n' ∉ text) (more : List Char) :
    (text ++ more).splitOn '\n' = (more.splitOn '\n').modifyHead (text ++ ·) := by
  induction text with
  | nil =>
      rw [List.nil_append]
      cases more.splitOn '\n' <;> rfl
  | cons c rest ih =>
      simp only [List.mem_cons, not_or] at flat
      rw [List.cons_append, List.splitOn_cons_eq_if_modifyHead, ih flat.2,
        if_neg (by simpa using Ne.symm flat.1), List.modifyHead_modifyHead]
      rfl

/-- Of a text that begins as a comment the first line says nothing. -/
theorem splitOn_comment (text : List Char) (flat : '\n' ∉ text) (more : List Char) :
    ∃ first, ('/' :: '/' :: text ++ more).splitOn '\n' = first :: (more.splitOn '\n').tail ∧
      readLine first = some none := by
  have flat : '\n' ∉ '/' :: '/' :: text := by simp [flat]
  rw [splitOn_append_flat flat]
  cases lines : more.splitOn '\n' with
  | nil => exact absurd lines (List.splitOn_ne_nil _ _)
  | cons head rest => exact ⟨_, rfl, readLine_comment _⟩

/-- A comment on one line. -/
theorem silent_comment (text : List Char) (flat : '\n' ∉ text) :
    Silent (('/' :: '/' :: text).splitOn '\n') := by
  obtain ⟨first, lines, silent⟩ := splitOn_comment text flat []
  rw [List.append_nil] at lines
  rw [lines]
  exact silent_singleton.2 silent

/-- Every line of a description is a comment. -/
theorem silent_describe (text : List Char) (flat : '\n' ∉ text) (desc : List Char) :
    Silent (('/' :: '/' :: text ++ describe desc).splitOn '\n') := by
  induction desc generalizing text with
  | nil => simpa [describe] using silent_comment text flat
  | cons ch rest ih =>
      by_cases feed : ch = '\n'
      · subst feed
        have lines : ('/' :: '/' :: text ++ describe ('\n' :: rest)) =
            '/' :: '/' :: text ++ '\n' :: ('/' :: '/' :: [' '] ++ describe rest) := by
          simp [describe, slashes]
        rw [lines, List.splitOn_append_cons_self]
        exact silent_append.2 ⟨silent_comment text flat, ih [' '] (by decide)⟩
      · have lines : ('/' :: '/' :: text ++ describe (ch :: rest)) =
            '/' :: '/' :: (text ++ [ch]) ++ describe rest := by
          simp [describe, feed]
        rw [lines]
        exact ih (text ++ [ch]) (by simpa [flat] using Ne.symm feed)

/-! ## The line with the value -/

/-- A name that `add` accepts, free of white space and of comment marks, and that the reader
does not trim. -/
structure PlainName (name : List Char) : Prop where
  nonempty : name ≠ []
  trimmed : Trimmed name

theorem isComment_append {name : List Char} (nonempty : name ≠ [])
    (unmarked : isComment name = false)
    (rest : List Char) : isComment (name ++ ' ' :: rest) = false := by
  match name with
  | [] => exact absurd rfl nonempty
  | [c] => simpa [isComment, List.isPrefixOf] using unmarked
  | c :: d :: more => simpa [isComment, List.isPrefixOf] using unmarked

/-- The line of a cvar gives its name and, with the quotes off, its value. -/
theorem readLine_assignment {name : List Char} (plain : PlainName name)
    (spaceless : ' ' ∉ name) (unmarked : isComment name = false) (value : List Char) :
    readLine (assignment name value) = some (some (name, value)) := by
  have quoted : Trimmed ('"' :: (value ++ ['"'])) := by
    refine ⟨by simp; rfl, fun c last => ?_⟩
    rw [← List.cons_append, List.getLast?_concat] at last
    obtain rfl := Option.some.inj last
    rfl
  have line : assignment name value = name ++ ' ' :: '"' :: (value ++ ['"']) := by
    simp [assignment]
  have trimmed : Trimmed (name ++ ' ' :: '"' :: (value ++ ['"'])) := by
    refine ⟨fun c head => ?_, fun c last => quoted.back c ?_⟩
    · rw [List.head?_append_of_ne_nil _ plain.nonempty] at head
      exact plain.trimmed.front c head
    · simpa [List.getLast?_append] using last
  have before : (name ++ ' ' :: '"' :: (value ++ ['"'])).takeWhile (· != ' ') = name := by
    rw [List.takeWhile_append_of_pos fun c member => ?_]
    · simp
    · have other : c ≠ ' ' := fun same => spaceless (same ▸ member)
      simpa using other
  have after : (name ++ ' ' :: '"' :: (value ++ ['"'])).dropWhile (· != ' ') =
      ' ' :: '"' :: (value ++ ['"']) := by
    rw [List.dropWhile_append_of_pos fun c member => ?_]
    · simp
    · have other : c ≠ ' ' := fun same => spaceless (same ▸ member)
      simpa using other
  unfold readLine
  rw [line, trimmed.trim_eq]
  simp only [isComment_append plain.nonempty unmarked, before, after, plain.trimmed.trim_eq,
    List.drop_succ_cons, List.drop_zero, quoted.trim_eq, rmQuote_quoted]
  simp

/-- The name of an entry is never one that the reader would trim. -/
theorem plainName_of_readLine {line : List Char} {entry : Entry}
    (found : readLine line = some (some entry)) : PlainName entry.1 := by
  unfold readLine at found
  simp only at found
  split at found
  · cases found
  · next kept =>
      obtain ⟨quoted, -, same⟩ := Option.map_eq_some_iff.1 found
      obtain rfl := Option.some.inj same
      refine ⟨?_, trimmed_trim _⟩
      cases text : trim line with
      | nil => simp [text] at kept
      | cons c rest =>
          have kept : isTrimChar c = false := (trimmed_trim line).front c (by rw [text]; rfl)
          have other : c ≠ ' ' := by
            rintro rfl
            cases kept
          rw [List.takeWhile_cons_of_pos (by simpa using other), trim_cons kept]
          exact List.cons_ne_nil _ _

/-! ## The file that is written first -/

/-- The lines of a text after its first. -/
def laterLines (text : List Char) : List (List Char) := (text.splitOn '\n').tail

/-- The lines of the file that begin after a line feed in the banner or in a default. -/
def strayLines (plugin : Plugin) (cvars : List MCvar) : List (List Char) :=
  laterLines (signature plugin) ++ cvars.flatMap fun c => laterLines (defaultComment c)

theorem newline_not_mem_removeChars (s : List Char) : '\n' ∉ removeChars s := by
  simp [removeChars]

theorem newline_not_mem_assignment {name value : List Char} (flatName : '\n' ∉ name)
    (flat : '\n' ∉ value) : '\n' ∉ assignment name value := by
  simp [assignment, flatName, flat]

/-- A bound is one line, a comment, or none. -/
theorem splitOn_bound (title : List Char) (flat : '\n' ∉ title) (shown : Bool) (x : Fp)
    (rest : List Char) :
    ∃ ls, Silent ls ∧
      (boundComment title shown x ++ rest).splitOn '\n' = ls ++ rest.splitOn '\n' := by
  cases shown with
  | false => exact ⟨[], silent_nil, rfl⟩
  | true =>
      have flatBound : '\n' ∉ ' ' :: (title ++ [':', ' ', '"'] ++ x.printF ++ ['"']) := by
        simp [flat, newline_not_mem_printF x]
      refine ⟨_, silent_comment _ flatBound, ?_⟩
      rw [← List.splitOn_append_cons_self]
      simp [boundComment, slashes]

theorem splitOn_cvarText (c : MCvar) {value : List Char} (flatName : '\n' ∉ c.name)
    (flat : '\n' ∉ value) (rest : List Char) :
    ∃ before between, Silent before ∧ Silent between ∧
      (cvarText c value ++ rest).splitOn '\n' = before ++ laterLines (defaultComment c) ++
        (between ++ assignment c.name value :: rest.splitOn '\n') := by
  have line := newline_not_mem_assignment flatName flat
  have parts : cvarText c value ++ rest = [] ++ '\n' :: (slashes ++ describe c.desc ++
      '\n' :: (slashes ++ ['-'] ++ '\n' :: (defaultComment c ++ '\n' ::
        (boundComment "Minimum".toList c.hasMin c.minVal ++
          (boundComment "Maximum".toList c.hasMax c.maxVal ++
            (assignment c.name value ++ '\n' :: rest)))))) := by
    simp [cvarText, comments]
  obtain ⟨maxLines, silentMax, isMax⟩ := splitOn_bound "Maximum".toList (by decide)
    c.hasMax c.maxVal (assignment c.name value ++ '\n' :: rest)
  obtain ⟨minLines, silentMin, isMin⟩ := splitOn_bound "Minimum".toList (by decide)
    c.hasMin c.minVal (boundComment "Maximum".toList c.hasMax c.maxVal ++
      (assignment c.name value ++ '\n' :: rest))
  obtain ⟨first, isDefault, silentFirst⟩ := splitOn_comment
    (' ' :: "Default: \"".toList) (by decide) (c.value ++ ['"'])
  have isDefault : (defaultComment c).splitOn '\n' = first :: laterLines (defaultComment c) := by
    have same : defaultComment c =
        '/' :: '/' :: ' ' :: "Default: \"".toList ++ (c.value ++ ['"']) := by
      simp [defaultComment, slashes]
    rw [laterLines, same, isDefault]
    rfl
  refine ⟨[[]] ++ (slashes ++ describe c.desc).splitOn '\n' ++ (slashes ++ ['-']).splitOn '\n' ++
    [first], minLines ++ maxLines, ?_, silent_append.2 ⟨silentMin, silentMax⟩, ?_⟩
  · refine silent_append.2 ⟨silent_append.2 ⟨silent_append.2 ⟨?_, ?_⟩, ?_⟩, ?_⟩
    · exact silent_singleton.2 rfl
    · exact silent_describe [' '] (by decide) c.desc
    · exact silent_comment [' ', '-'] (by decide)
    · exact silent_singleton.2 silentFirst
  · rw [parts, List.splitOn_append_cons_self, List.splitOn_append_cons_self,
      List.splitOn_append_cons_self, List.splitOn_append_cons_self, isDefault, isMin, isMax,
      List.splitOn_append_cons_self_of_not_mem line]
    simp

/-- A name with no white space and no comment mark, that is read as it is written. -/
structure GoodName (name : List Char) : Prop extends PlainName name where
  spaceless : ' ' ∉ name
  flat : '\n' ∉ name
  unmarked : isComment name = false

/-- The part of the file that is written for a list. -/
def listText (cvars : List MCvar) : List Char :=
  cvars.flatMap fun c => cvarText c (removeChars c.value)

/-- The entries of the lines after a line feed in a default. -/
def strayEntries (c : MCvar) : List Entry := entries (laterLines (defaultComment c))

/-- A cvar as it should be read. -/
def stripped (c : MCvar) : Entry := (c.name, removeChars c.value)

theorem readLine_stripped {c : MCvar} (good : GoodName c.name) :
    readLine (assignment c.name (removeChars c.value)) = some (some (stripped c)) :=
  readLine_assignment good.toPlainName good.spaceless good.unmarked _

theorem entries_listText {cvars : List MCvar} (good : ∀ c ∈ cvars, GoodName c.name) :
    entries ((listText cvars).splitOn '\n') =
      cvars.flatMap fun c => strayEntries c ++ [stripped c] := by
  induction cvars with
  | nil => rfl
  | cons c rest ih =>
      obtain ⟨goodName, goodRest⟩ := List.forall_mem_cons.1 good
      obtain ⟨before, between, silentBefore, silentBetween, lines⟩ :=
        splitOn_cvarText c goodName.flat (newline_not_mem_removeChars c.value) (listText rest)
      have more : listText (c :: rest) = cvarText c (removeChars c.value) ++ listText rest := rfl
      have own (ls : List (List Char)) : entries (assignment c.name (removeChars c.value) :: ls) =
          stripped c :: entries ls := by
        simp [entries, readLine_stripped goodName]
      rw [more, lines, entries_append, entries_append, entries_append, silentBefore.entries,
        silentBetween.entries, own, ih goodRest]
      simp [strayEntries]

theorem defined_listText {cvars : List MCvar} (good : ∀ c ∈ cvars, GoodName c.name) :
    Defined ((listText cvars).splitOn '\n') ↔
      Defined (cvars.flatMap fun c => laterLines (defaultComment c)) := by
  induction cvars with
  | nil => exact ⟨fun _ => silent_nil.defined, fun _ => (silent_singleton.2 rfl).defined⟩
  | cons c rest ih =>
      obtain ⟨goodName, goodRest⟩ := List.forall_mem_cons.1 good
      obtain ⟨before, between, silentBefore, silentBetween, lines⟩ :=
        splitOn_cvarText c goodName.flat (newline_not_mem_removeChars c.value) (listText rest)
      have more : listText (c :: rest) = cvarText c (removeChars c.value) ++ listText rest := rfl
      have own (ls : List (List Char)) :
          Defined (assignment c.name (removeChars c.value) :: ls) ↔ Defined ls := by
        simp [Defined, readLine_stripped goodName]
      rw [more, lines, defined_append, defined_append, defined_append, own, ih goodRest,
        List.flatMap_cons, defined_append]
      simp [silentBefore.defined, silentBetween.defined]

theorem splitOn_banner (plugin : Plugin) (rest : List Char) :
    ∃ before, Silent before ∧ (banner plugin ++ rest).splitOn '\n' =
      before ++ laterLines (signature plugin) ++ rest.splitOn '\n' := by
  have generated : '\n' ∉ ' ' :: "This file was auto-generated by REFSAPI".toList := by decide
  have parts : banner plugin ++ rest = '/' :: '/' :: ' ' ::
      "This file was auto-generated by REFSAPI".toList ++ '\n' :: (signature plugin ++
        '\n' :: rest) := by
    simp [banner, slashes]
  obtain ⟨first, isSignature, silentFirst⟩ := splitOn_comment (' ' :: "Cvars for plugin \"".toList)
    (by decide) (plugin.title ++ "\" by \"".toList ++ plugin.author ++ "\" (".toList ++
      plugin.name ++ ", v".toList ++ plugin.version ++ [')'])
  have isSignature : (signature plugin).splitOn '\n' = first :: laterLines (signature plugin) := by
    have same : signature plugin = '/' :: '/' :: ' ' :: "Cvars for plugin \"".toList ++
        (plugin.title ++ "\" by \"".toList ++ plugin.author ++ "\" (".toList ++ plugin.name ++
          ", v".toList ++ plugin.version ++ [')']) := by
      simp only [signature, slashes, List.append_assoc, List.cons_append, List.nil_append]
    rw [laterLines, same, isSignature]
    rfl
  refine ⟨('/' :: '/' :: ' ' :: "This file was auto-generated by REFSAPI".toList).splitOn '\n' ++
    [first], silent_append.2 ⟨silent_comment _ generated, silent_singleton.2 silentFirst⟩, ?_⟩
  rw [parts, List.splitOn_append_cons_self, List.splitOn_append_cons_self, isSignature]
  simp only [List.append_assoc, List.cons_append, List.nil_append]

/-! ## What the file loads -/

/-- The file that is written when there is none. -/
def firstFile (plugin : Plugin) (cvars : List MCvar) : List Char :=
  banner plugin ++ listText cvars

theorem entries_strayLines (plugin : Plugin) (cvars : List MCvar) :
    entries (strayLines plugin cvars) =
      entries (laterLines (signature plugin)) ++ cvars.flatMap strayEntries := by
  rw [strayLines, entries_append]
  congr 1
  exact List.filterMap_flatMap ..

theorem entries_firstFile (plugin : Plugin) {cvars : List MCvar}
    (good : ∀ c ∈ cvars, GoodName c.name) :
    entries ((firstFile plugin cvars).splitOn '\n') =
      entries (laterLines (signature plugin)) ++
        cvars.flatMap fun c => strayEntries c ++ [stripped c] := by
  obtain ⟨before, silentBefore, lines⟩ := splitOn_banner plugin (listText cvars)
  rw [firstFile, lines, entries_append, entries_append, silentBefore.entries, entries_listText good,
    List.nil_append]

theorem defined_firstFile (plugin : Plugin) {cvars : List MCvar}
    (good : ∀ c ∈ cvars, GoodName c.name) :
    Defined ((firstFile plugin cvars).splitOn '\n') ↔ Defined (strayLines plugin cvars) := by
  obtain ⟨before, silentBefore, lines⟩ := splitOn_banner plugin (listText cvars)
  rw [firstFile, lines, defined_append, defined_append, defined_listText good, strayLines,
    defined_append]
  simp [silentBefore.defined]

/-- The lines of other cvars do not count for a name. -/
theorem lookup_others {cvars : List MCvar} {n : List Char} (other : ∀ c ∈ cvars, c.name ≠ n) :
    (cvars.flatMap fun c => strayEntries c ++ [stripped c]).lookup n =
      (cvars.flatMap strayEntries).lookup n := by
  induction cvars with
  | nil => rfl
  | cons c rest ih =>
      obtain ⟨here, others⟩ := List.forall_mem_cons.1 other
      have own : [stripped c].lookup n = none := by
        rw [lookup_entry, if_neg (show n ≠ (stripped c).1 from Ne.symm here)]
        rfl
      rw [List.flatMap_cons, List.lookup_append, List.lookup_append, own, ih others,
        List.flatMap_cons, List.lookup_append, Option.or_none]

/-- The first line for a name is a stray one before the cvar's own, or that one. -/
theorem lookup_own (plugin : Plugin) {before after : List MCvar} {c : MCvar}
    (good : ∀ x ∈ before ++ c :: after, GoodName x.name)
    (distinct : ((before ++ c :: after).map MCvar.name).Nodup) :
    (entries ((firstFile plugin (before ++ c :: after)).splitOn '\n')).lookup c.name =
      ((entries (strayLines plugin (before ++ [c]))).lookup c.name).or
        (some (removeChars c.value)) := by
  have other : ∀ x ∈ before, x.name ≠ c.name := by
    intro x member same
    rw [List.map_append, List.map_cons, List.nodup_append] at distinct
    exact distinct.2.2 _ (List.mem_map_of_mem member) _ List.mem_cons_self same
  have own (es : List Entry) : (stripped c :: es).lookup c.name = some (removeChars c.value) := by
    rw [lookup_entry, stripped, if_pos rfl]
  rw [entries_firstFile plugin good, entries_strayLines, List.flatMap_append, List.flatMap_cons,
    List.append_assoc, List.singleton_append, List.lookup_append, List.lookup_append,
    List.lookup_append, own, lookup_others other, List.flatMap_append, List.lookup_append,
    List.lookup_append]
  simp

/-! ## The two calls -/

/-- `config` asks for an update when a cvar is not in the file, or the file has an entry that
is none of the cvars, or there is no cvar. -/
theorem needUpdate_eq_false_iff {loaded : List Entry} {cvars : List MCvar}
    (keys : (loaded.map Prod.fst).Nodup) (distinct : (cvars.map MCvar.name).Nodup) :
    needUpdate loaded cvars = false ↔ cvars ≠ [] ∧
      (∀ c ∈ cvars, (loaded.lookup c.name).isSome = true) ∧
      ∀ n ∈ loaded.map Prod.fst, ∃ c ∈ cvars, c.name = n := by
  have lists : needUpdate loaded cvars = false ↔ (∀ c ∈ cvars, loaded.lookup c.name ≠ none) ∧
      cvars ≠ [] ∧ cvars.length = loaded.length := by
    simp [needUpdate]
  have found : (∀ c ∈ cvars, (loaded.lookup c.name).isSome = true) ↔
      ∀ c ∈ cvars, loaded.lookup c.name ≠ none := by
    simp only [Option.isSome_iff_ne_none]
  rw [lists, found]
  refine ⟨fun ⟨all, nonempty, same⟩ => ⟨nonempty, all, ?_⟩, fun ⟨nonempty, all, known⟩ =>
    ⟨all, nonempty, ?_⟩⟩
  all_goals
    have inside : cvars.map MCvar.name ⊆ loaded.map Prod.fst := by
      intro n member
      obtain ⟨c, listed, rfl⟩ := List.mem_map.1 member
      exact mem_keys_iff.2 (Option.isSome_iff_ne_none.2 (all c listed))
    have subperm := List.subperm_of_subset distinct inside
  · intro n member
    have perm := subperm.perm_of_length_le (by simp [same])
    obtain ⟨c, listed, isName⟩ := List.mem_map.1 (perm.mem_iff.2 member)
    exact ⟨c, listed, isName⟩
  · have back : loaded.map Prod.fst ⊆ cvars.map MCvar.name := by
      intro n member
      obtain ⟨c, listed, rfl⟩ := known n member
      exact List.mem_map_of_mem listed
    have := subperm.length_le
    have := (List.subperm_of_subset keys back).length_le
    simp only [List.length_map] at *
    omega

/-- `remove_chars` has been at the value. -/
def strip (c : MCvar) : MCvar := { c with value := removeChars c.value }

theorem turns_new (cvars : List MCvar) :
    turns true cvars [] = (cvars.map strip, listText cvars, [], []) := by
  induction cvars with
  | nil => rfl
  | cons c rest ih =>
      simp only [turns, turn, List.lookup_nil, if_true, ih]
      rfl

/-- Where nothing is written, what is set is what was loaded. -/
theorem turns_known {cvars : List MCvar} {loaded : List Entry}
    (distinct : (cvars.map MCvar.name).Nodup) :
    (turns false cvars loaded).2.2.1 =
      cvars.filterMap fun c => (loaded.lookup c.name).map fun value => (c.name, value) := by
  induction cvars generalizing loaded with
  | nil => rfl
  | cons c rest ih =>
      rw [List.map_cons, List.nodup_cons] at distinct
      obtain ⟨new, distinct⟩ := distinct
      cases found : loaded.lookup c.name with
      | none => simp [turns, turn, found, ih distinct]
      | some value =>
          have others : ∀ x ∈ rest, (loaded.filter fun entry => entry.1 != c.name).lookup x.name =
              loaded.lookup x.name := by
            intro x member
            refine lookup_erased (fun same => new ?_) loaded
            exact same ▸ List.mem_map_of_mem member
          simp only [turns, turn, found, ih distinct, List.filterMap_cons, Option.map_some,
            List.singleton_append, Bool.false_eq_true, if_false]
          rw [List.filterMap_congr fun x member => by rw [others x member]]

theorem sortCvars_perm (cvars : List MCvar) : (sortCvars cvars).Perm cvars :=
  List.perm_insertionSort _ _

/-- The list stays sorted when `remove_chars` has been at the values. -/
theorem sortCvars_strip (cvars : List MCvar) :
    sortCvars ((sortCvars cvars).map strip) = (sortCvars cvars).map strip := by
  refine List.Pairwise.insertionSort_eq (List.pairwise_map.2 ?_)
  exact List.pairwise_insertionSort (fun a b : MCvar => a.name ≤ b.name) cvars

theorem config_new (cvars : List MCvar) (plugin : Plugin) :
    config cvars none true plugin = some (some {
      cvars := (sortCvars cvars).map strip
      file := firstFile plugin (sortCvars cvars)
      sets := []
      left := 0
      isExist := false
      autoCreate := true
      isNeedUpdate := true }) := by
  have isNeedUpdate : needUpdate [] (sortCvars cvars) = true := by
    cases sorted : sortCvars cvars with
    | nil => rfl
    | cons c rest => simp [needUpdate]
  unfold config
  simp only [Option.isNone_none, Bool.not_true, Bool.and_false, Bool.false_eq_true, if_false,
    Option.map_none, Option.getD_none, Option.map_some, isNeedUpdate, turns_new, if_true,
    disabled_nil, List.append_nil]
  rfl

/-- The bit of the returned cell that tells of an update. -/
theorem result_testBit (o : Outcome) : o.result.testBit 18 = o.isNeedUpdate := by
  have low (n : Nat) : (n &&& 0xFF).testBit 18 = false := by
    rw [Nat.testBit_and, show (0xFF : Nat).testBit 18 = false from rfl, Bool.and_false]
  have middle (n : Nat) : ((n &&& 0xFF) <<< 8).testBit 18 = false := by
    rw [Nat.testBit_shiftLeft, Nat.testBit_and, show (0xFF : Nat).testBit (18 - 8) = false from rfl]
    simp
  rw [Outcome.result, Nat.testBit_or, Nat.testBit_or, low, middle, Nat.testBit_shiftLeft]
  cases o.isExist <;> cases o.autoCreate <;> cases o.isNeedUpdate <;> rfl

/-! ## The round trip -/

/-- The file is written for the first time; a second call then sets every cvar to its value
less the characters that `remove_chars` takes out, reports no update and leaves the file. -/
def RoundTrips (plugin : Plugin) (cvars : List MCvar) : Prop :=
  ∃ first, config cvars none true plugin = some (some first) ∧ ∀ autoCreate, ∃ second,
    config first.cvars (some first.file) autoCreate plugin = some (some second) ∧
      second.sets = (sortCvars cvars).map stripped ∧ second.result.testBit 18 = false ∧
      second.file = first.file

theorem config_again {cvars : List MCvar} (file : List Char) (autoCreate : Bool) (plugin : Plugin)
    (sorted : sortCvars cvars = cvars) {second : Outcome} :
    config cvars (some file) autoCreate plugin = some (some second) ↔
      ∃ loaded, readFile file = some loaded ∧ {
        cvars := (turns (needUpdate loaded cvars) cvars loaded).1
        file := if needUpdate loaded cvars then banner plugin ++
          (turns (needUpdate loaded cvars) cvars loaded).2.1 ++
          disabled (turns (needUpdate loaded cvars) cvars loaded).2.2.2 else file
        sets := (turns (needUpdate loaded cvars) cvars loaded).2.2.1
        left := (turns (needUpdate loaded cvars) cvars loaded).2.2.2.length
        isExist := true
        autoCreate := autoCreate
        isNeedUpdate := needUpdate loaded cvars : Outcome } = second := by
  unfold config
  simp only [sorted, Option.isNone_some, Bool.false_and, Bool.false_eq_true, if_false,
    Option.map_some, Option.getD_some, Option.map_eq_some_iff, Option.some.injEq,
    Option.isSome_some]

/-- The second call does what it should when it loads the values, and no more. -/
theorem roundTrips_iff_loads (plugin : Plugin) {cvars : List MCvar}
    (distinct : (cvars.map MCvar.name).Nodup) :
    RoundTrips plugin cvars ↔ ∃ loaded,
      readFile (firstFile plugin (sortCvars cvars)) = some loaded ∧
      needUpdate loaded ((sortCvars cvars).map strip) = false ∧
      ∀ c ∈ sortCvars cvars, loaded.lookup c.name = some (removeChars c.value) := by
  have names : ((sortCvars cvars).map strip).map MCvar.name = (sortCvars cvars).map MCvar.name := by
    rw [List.map_map]
    rfl
  have distinct' : (((sortCvars cvars).map strip).map MCvar.name).Nodup := by
    rw [names]
    exact ((sortCvars_perm cvars).map MCvar.name).nodup_iff.2 distinct
  constructor
  · rintro ⟨first, isFirst, again⟩
    rw [config_new, Option.some.injEq, Option.some.injEq] at isFirst
    subst isFirst
    obtain ⟨second, isSecond, sets, bit, -⟩ := again true
    obtain ⟨loaded, reads, rfl⟩ := (config_again _ _ _ (sortCvars_strip cvars)).1 isSecond
    rw [result_testBit] at bit
    refine ⟨loaded, reads, bit, fun c listed => ?_⟩
    have found : ∀ x ∈ sortCvars cvars, (loaded.lookup x.name).isSome = true := by
      intro x member
      have := bit
      simp only [needUpdate, Bool.or_eq_false_iff, List.any_eq_false] at this
      have := this.1 (strip x) (List.mem_map_of_mem member)
      simpa [strip, Option.isSome_iff_ne_none] using this
    simp only at bit
    simp only [bit] at sets
    rw [turns_known distinct', List.filterMap_map] at sets
    have values : (sortCvars cvars).filterMap ((fun c => (loaded.lookup c.name).map fun value =>
        (c.name, value)) ∘ strip) =
        (sortCvars cvars).map fun x => (x.name, (loaded.lookup x.name).getD []) := by
      rw [← List.filterMap_eq_map]
      refine List.filterMap_congr fun x member => ?_
      obtain ⟨value, isValue⟩ := Option.isSome_iff_exists.1 (found x member)
      simp [strip, isValue]
    rw [values] at sets
    have same := List.map_inj_left.1 sets c listed
    obtain ⟨value, isValue⟩ := Option.isSome_iff_exists.1 (found c listed)
    simp only [stripped, isValue, Option.getD_some, Prod.mk.injEq, true_and] at same
    rw [isValue, same]
  · rintro ⟨loaded, reads, known, values⟩
    refine ⟨_, config_new cvars plugin, fun autoCreate => ⟨_, (config_again _ _ _
      (sortCvars_strip cvars)).2 ⟨loaded, reads, rfl⟩, ?_, ?_, ?_⟩⟩
    · simp only [known]
      rw [turns_known distinct', List.filterMap_map, ← List.filterMap_eq_map]
      refine List.filterMap_congr fun x member => ?_
      simp [strip, stripped, values x member]
    · rw [result_testBit]
      exact known
    · simp only [known, Bool.false_eq_true, if_false]

/-- What the stray lines say does no harm: they can be read, a stray entry names a cvar, and
if it is the first for that cvar it has its value. -/
structure Harmless (plugin : Plugin) (cvars : List MCvar) : Prop where
  defined : Defined (strayLines plugin cvars)
  known : ∀ entry ∈ entries (strayLines plugin cvars), ∃ c ∈ cvars, c.name = entry.1
  first : ∀ before c after, cvars = before ++ c :: after →
    ∀ value ∈ (entries (strayLines plugin (before ++ [c]))).lookup c.name,
      value = removeChars c.value

/-- There is a cvar, every name is read as it is written, and the stray lines do no harm. -/
structure Plain (plugin : Plugin) (cvars : List MCvar) : Prop where
  nonempty : cvars ≠ []
  names : ∀ c ∈ cvars, PlainName c.name
  harmless : Harmless plugin (sortCvars cvars)

/-- Where no value and no text of the banner has a line feed there are no stray lines. -/
theorem strayLines_eq_nil {plugin : Plugin} {cvars : List MCvar}
    (banner : '\n' ∉ signature plugin) (values : ∀ c ∈ cvars, '\n' ∉ c.value) :
    strayLines plugin cvars = [] := by
  have one {text : List Char} (flat : '\n' ∉ text) : laterLines text = [] := by
    rw [laterLines, List.splitOn_eq_singleton flat, List.tail_cons]
  rw [strayLines, one banner, List.nil_append, List.flatMap_eq_nil_iff]
  intro c listed
  have flat : '\n' ∉ slashes ++ "Default: \"".toList := by decide
  refine one ?_
  rw [defaultComment, List.mem_append, List.mem_append, not_or, not_or]
  exact ⟨⟨flat, values c listed⟩, by decide⟩

theorem harmless_of_flat {plugin : Plugin} {cvars : List MCvar}
    (banner : '\n' ∉ signature plugin) (values : ∀ c ∈ cvars, '\n' ∉ c.value) :
    Harmless plugin cvars := by
  have none {some : List MCvar} (listed : some ⊆ cvars) : strayLines plugin some = [] :=
    strayLines_eq_nil banner fun c member => values c (listed member)
  refine ⟨?_, ?_, fun before c after split value isValue => ?_⟩
  · rw [none (List.Subset.refl _)]
    exact silent_nil.defined
  · rw [none (List.Subset.refl _)]
    exact fun entry member => nomatch member
  · have part : before ++ [c] ⊆ cvars := by
      rw [split, List.append_cons before c after]
      exact List.subset_append_left _ _
    rw [none part] at isValue
    cases isValue

theorem plain_of_flat {plugin : Plugin} {cvars : List MCvar} (nonempty : cvars ≠ [])
    (names : ∀ c ∈ cvars, PlainName c.name) (banner : '\n' ∉ signature plugin)
    (values : ∀ c ∈ cvars, '\n' ∉ c.value) : Plain plugin cvars :=
  ⟨nonempty, names, harmless_of_flat banner fun c listed =>
    values c ((sortCvars_perm cvars).mem_iff.1 listed)⟩

/-- A name that is found in a file is one that is read as it is written. -/
theorem plainName_of_lookup {file name : List Char} {loaded : List Entry}
    (reads : readFile file = some loaded) (found : (loaded.lookup name).isSome = true) :
    PlainName name := by
  obtain ⟨-, rfl⟩ := (readFile_eq_some_iff _ _).1 reads
  rw [lookup_load_nil, ← mem_keys_iff] at found
  obtain ⟨entry, member, rfl⟩ := List.mem_map.1 found
  obtain ⟨line, -, isEntry⟩ := List.mem_filterMap.1 member
  exact plainName_of_readLine (Option.join_eq_some_iff.1 isEntry)

/-- The entries of the file are stray ones and the cvars' own. -/
theorem mem_entries_firstFile (plugin : Plugin) {cvars : List MCvar}
    (good : ∀ c ∈ cvars, GoodName c.name) (entry : Entry) :
    entry ∈ entries ((firstFile plugin cvars).splitOn '\n') ↔
      entry ∈ entries (strayLines plugin cvars) ∨ ∃ c ∈ cvars, entry = stripped c := by
  rw [entries_firstFile plugin good, entries_strayLines]
  simp only [List.mem_append, List.mem_flatMap, List.mem_singleton]
  grind

theorem loads_iff (plugin : Plugin) {cvars : List MCvar} (good : ∀ c ∈ cvars, GoodName c.name)
    (distinct : (cvars.map MCvar.name).Nodup) :
    (∃ loaded, readFile (firstFile plugin cvars) = some loaded ∧
      needUpdate loaded (cvars.map strip) = false ∧
      ∀ c ∈ cvars, loaded.lookup c.name = some (removeChars c.value)) ↔
    cvars ≠ [] ∧ Harmless plugin cvars := by
  have names : ((cvars.map strip).map MCvar.name).Nodup := by
    rwa [List.map_map]
  constructor
  · rintro ⟨loaded, reads, known, values⟩
    obtain ⟨defined, rfl⟩ := (readFile_eq_some_iff _ _).1 reads
    obtain ⟨nonempty, -, known⟩ := (needUpdate_eq_false_iff (nodup_load_nil _) names).1 known
    refine ⟨fun empty => nonempty (by rw [empty]; rfl), (defined_firstFile plugin good).1 defined,
      fun entry stray => ?_, fun before c after split value isValue => ?_⟩
    · have inFile := (mem_entries_firstFile plugin good entry).2 (.inl stray)
      obtain ⟨x, listed, isName⟩ := known entry.1 (by
        rw [mem_keys_iff, lookup_load_nil, ← mem_keys_iff]
        exact List.mem_map_of_mem inFile)
      obtain ⟨c, member, rfl⟩ := List.mem_map.1 listed
      exact ⟨c, member, isName⟩
    · subst split
      have own := values c (List.mem_append_right _ List.mem_cons_self)
      rw [lookup_load_nil, lookup_own plugin good distinct, Option.mem_def.1 isValue] at own
      exact Option.some.inj own
  · rintro ⟨nonempty, defined, known, first⟩
    have values : ∀ c ∈ cvars, (load (entries ((firstFile plugin cvars).splitOn '\n')) []).lookup
        c.name = some (removeChars c.value) := by
      intro c listed
      obtain ⟨before, after, rfl⟩ := List.append_of_mem listed
      rw [lookup_load_nil, lookup_own plugin good distinct]
      cases stray : (entries (strayLines plugin (before ++ [c]))).lookup c.name with
      | none => rfl
      | some value => rw [first before c after rfl value stray]; rfl
    refine ⟨_, (readFile_eq_some_iff _ _).2 ⟨(defined_firstFile plugin good).2 defined, rfl⟩, ?_,
      values⟩
    refine (needUpdate_eq_false_iff (nodup_load_nil _) names).2 ⟨?_, fun x member => ?_,
      fun n member => ?_⟩
    · simpa using nonempty
    · obtain ⟨c, listed, rfl⟩ := List.mem_map.1 member
      rw [show (strip c).name = c.name from rfl, values c listed]
      rfl
    · rw [mem_keys_iff, lookup_load_nil, ← mem_keys_iff] at member
      obtain ⟨entry, inside, rfl⟩ := List.mem_map.1 member
      rcases (mem_entries_firstFile plugin good entry).1 inside with stray | ⟨c, listed, rfl⟩
      · obtain ⟨c, listed, isName⟩ := known entry stray
        exact ⟨strip c, List.mem_map_of_mem listed, isName⟩
      · exact ⟨strip c, List.mem_map_of_mem listed, rfl⟩

/-- **The round trip of a configuration file.**  For distinct names without white space and
comment marks the file comes back as it should precisely when there is a cvar, every name is
read as it is written, and no line that the writer leaves outside its comments does harm. -/
theorem config_round_trip (plugin : Plugin) (cvars : List MCvar)
    (distinct : (cvars.map MCvar.name).Nodup)
    (spaceless : ∀ c ∈ cvars, ∀ ch ∈ c.name, ch.isWhitespace = false)
    (unmarked : ∀ c ∈ cvars, isComment c.name = false) :
    RoundTrips plugin cvars ↔ Plain plugin cvars := by
  have perm := sortCvars_perm cvars
  have distinctSorted : ((sortCvars cvars).map MCvar.name).Nodup :=
    (perm.map MCvar.name).nodup_iff.2 distinct
  have good (plain : ∀ c ∈ cvars, PlainName c.name) : ∀ c ∈ sortCvars cvars, GoodName c.name := by
    intro c member
    have listed := perm.mem_iff.1 member
    refine ⟨plain c listed, fun space => ?_, fun feed => ?_, unmarked c listed⟩
    · exact absurd (spaceless c listed _ space) (by decide)
    · exact absurd (spaceless c listed _ feed) (by decide)
  have empty : sortCvars cvars = [] ↔ cvars = [] :=
    ⟨fun none => List.perm_nil.1 (none ▸ perm.symm), fun none => by rw [none]; rfl⟩
  rw [roundTrips_iff_loads plugin distinct]
  constructor
  · intro loads
    have plain : ∀ c ∈ cvars, PlainName c.name := by
      obtain ⟨loaded, reads, -, values⟩ := loads
      exact fun c listed =>
        plainName_of_lookup reads (by rw [values c (perm.mem_iff.2 listed)]; rfl)
    obtain ⟨nonempty, harmless⟩ := (loads_iff plugin (good plain) distinctSorted).1 loads
    exact ⟨fun none => nonempty (empty.2 none), plain, harmless⟩
  · rintro ⟨nonempty, plain, harmless⟩
    exact (loads_iff plugin (good plain) distinctSorted).2
      ⟨fun none => nonempty (empty.1 none), harmless⟩

/-- Quotes, blanks, a backslash and a comment mark, and a tab to remove. -/
theorem config_round_trip_quotes : RoundTrips ⟨['T'], ['A'], ['N'], ['1']⟩
    [⟨['x'], " a\"b\\ // \t\"".toList, ['d'], true, false, .fin true (1 / 8), .nan false⟩,
      ⟨['a'], ['"'], [], false, false, .nan false, .nan false⟩] := by
  refine (config_round_trip _ _ (by decide) (by simp) (by decide)).2
    (plain_of_flat (List.cons_ne_nil _ _) ?_ (by decide) (by decide))
  simp only [List.forall_mem_cons, List.not_mem_nil, false_imp_iff, implies_true, and_true]
  exact ⟨⟨by decide, (trim_eq_self_iff _).1 rfl⟩, by decide, (trim_eq_self_iff _).1 rfl⟩

/-- A value with a line feed: what follows it in the default is read as a second entry, so
the second call asks for an update. -/
theorem not_always_round_trip : ¬ ∀ (plugin : Plugin) (cvars : List MCvar),
    (cvars.map MCvar.name).Nodup → (∀ c ∈ cvars, ∀ ch ∈ c.name, ch.isWhitespace = false) →
      (∀ c ∈ cvars, isComment c.name = false) → RoundTrips plugin cvars := by
  intro always
  let plugin : Plugin := ⟨['T'], ['A'], ['N'], ['1']⟩
  let cvars : List MCvar :=
    [⟨['x'], "1\nfoo 2".toList, ['d'], false, false, .nan false, .nan false⟩]
  have trips := always plugin cvars (by decide) (by simp [cvars]) (by decide)
  obtain ⟨loaded, reads, known, -⟩ := (roundTrips_iff_loads plugin (by decide)).1 trips
  have update : (readFile (firstFile plugin (sortCvars cvars))).map
      (fun loaded => needUpdate loaded ((sortCvars cvars).map strip)) = some true := by
    decide +kernel
  rw [reads, Option.map_some, known] at update
  cases update

end Refsapi.Cvars
