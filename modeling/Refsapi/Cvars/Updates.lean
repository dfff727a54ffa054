/-
# Cvars.Updates -- a configuration file over many calls of `config`

A plugin's list of cvars changes from version to version, and its administrator edits the file
in between.  A call that finds other names in the file than in the list writes the file anew:
what the file said of the cvars that are still there, the defaults of the new ones, and the rest
as comments.  The file that such a call leaves holds just the names of the list
(`config_updates`), so the next call leaves it as it is; and what an administrator has set stays
set over any number of such calls (`settings_survive`).
-/
import Refsapi.Cvars.RoundTrip

namespace Refsapi.Cvars

set_option autoImplicit false

/-! ## Lines -/

theorem newline_not_mem_line (text : List Char) : ∀ line ∈ text.splitOn '\n', '\n' ∉ line := by
  induction text with
  | nil =>
      intro line member
      rw [List.splitOn_nil, List.mem_singleton] at member
      rw [member]
      exact List.not_mem_nil
  | cons c rest ih =>
      intro line member
      rw [List.splitOn_cons_eq_if_modifyHead] at member
      by_cases feed : c = '\n'
      · rw [if_pos (by simpa using feed)] at member
        rcases List.mem_cons.1 member with rfl | later
        · exact List.not_mem_nil
        · exact ih line later
      · rw [if_neg (by simpa using feed)] at member
        cases lines : rest.splitOn '\n' with
        | nil => exact absurd lines (List.splitOn_ne_nil _ _)
        | cons first others =>
            rw [lines, List.modifyHead_cons] at member
            rw [lines] at ih
            rcases List.mem_cons.1 member with rfl | later
            · intro inLine
              rcases List.mem_cons.1 inLine with same | inFirst
              · exact feed same.symm
              · exact ih first List.mem_cons_self inFirst
            · exact ih line (List.mem_cons_of_mem _ later)

theorem mem_trim {c : Char} {s : List Char} (member : c ∈ trim s) : c ∈ s := by
  have inner : c ∈ rtrim s := (List.dropWhile_sublist _).subset member
  exact (List.rdropWhile_prefix isTrimChar s).sublist.subset inner

theorem mem_rmQuote {c : Char} {s : List Char} {quoted : Int × List Char}
    (left : rmQuote s = some quoted) (member : c ∈ quoted.2) : c ∈ s := by
  unfold rmQuote at left
  split at left
  · cases left
    exact member
  · generalize quotes = marks at left
    induction marks with
    | nil =>
        cases left
        exact member
    | cons mark rest ih =>
        simp only [rmQuoteLoop] at left
        split at left
        · split at left
          · cases left
          · cases left
            exact List.mem_of_mem_tail ((List.dropLast_sublist _).subset member)
        · split at left
          · cases left
            exact member
          · exact ih left

/-- What a line says is on the line. -/
theorem flat_of_readLine {line : List Char} (flat : '\n' ∉ line) {entry : Entry}
    (found : readLine line = some (some entry)) : '\n' ∉ entry.1 ∧ '\n' ∉ entry.2 := by
  unfold readLine at found
  simp only at found
  split at found
  · cases found
  · obtain ⟨quoted, left, same⟩ := Option.map_eq_some_iff.1 found
    obtain rfl := Option.some.inj same
    constructor
    · intro member
      exact flat (mem_trim ((List.takeWhile_sublist _).subset (mem_trim member)))
    · intro member
      have inValue := mem_trim (mem_rmQuote left member)
      exact flat (mem_trim ((List.dropWhile_sublist _).subset
        ((List.drop_sublist _ _).subset inValue)))

theorem mem_insertEntry {entry e : Entry} {loaded : List Entry}
    (member : e ∈ insertEntry entry loaded) : e = entry ∨ e ∈ loaded := by
  unfold insertEntry at member
  split at member
  · exact .inr member
  · exact (List.mem_orderedInsert _).1 member

theorem mem_load {e : Entry} {entries loaded : List Entry} (member : e ∈ load entries loaded) :
    e ∈ entries ∨ e ∈ loaded := by
  induction entries generalizing loaded with
  | nil => exact .inr member
  | cons entry rest ih =>
      rcases ih member with later | earlier
      · exact .inl (List.mem_cons_of_mem _ later)
      · rcases mem_insertEntry earlier with rfl | before
        · exact .inl List.mem_cons_self
        · exact .inr before

/-- No entry of a file holds a line feed. -/
theorem flat_of_readFile {file : List Char} {loaded : List Entry}
    (reads : readFile file = some loaded) : ∀ e ∈ loaded, '\n' ∉ e.1 ∧ '\n' ∉ e.2 := by
  intro e member
  obtain ⟨-, rfl⟩ := (readFile_eq_some_iff _ _).1 reads
  rcases mem_load member with inFile | none
  · obtain ⟨line, inLines, isEntry⟩ := List.mem_filterMap.1 inFile
    exact flat_of_readLine (newline_not_mem_line file line inLines)
      (Option.join_eq_some_iff.1 isEntry)
  · cases none

/-! ## The file that an update writes -/

/-- What is written of a cvar: what the file said of it, or else its default. -/
def written (loaded : List Entry) (c : MCvar) : List Char :=
  removeChars ((loaded.lookup c.name).getD c.value)

/-- The cvars with the values that are written of them. -/
def writtenText (loaded : List Entry) (cvars : List MCvar) : List Char :=
  cvars.flatMap fun c => cvarText c (written loaded c)

theorem written_erased {name : List Char} {c : MCvar} (other : c.name ≠ name)
    (loaded : List Entry) :
    written (loaded.filter fun entry => entry.1 != name) c = written loaded c := by
  rw [written, written, lookup_erased other]

/-- What is set of a value in the file. -/
def setValue (isNeedUpdate : Bool) (value : List Char) : List Char :=
  if isNeedUpdate then removeChars value else value

/-- What the loop writes, what it sets and what it leaves over. -/
theorem turns_eq (isNeedUpdate : Bool) {cvars : List MCvar}
    (distinct : (cvars.map MCvar.name).Nodup) (loaded : List Entry) :
    (turns isNeedUpdate cvars loaded).2 =
      (if isNeedUpdate then writtenText loaded cvars else [],
        cvars.filterMap fun c =>
          (loaded.lookup c.name).map fun value => (c.name, setValue isNeedUpdate value),
        loaded.filter fun entry => cvars.all fun c => entry.1 != c.name) := by
  induction cvars generalizing loaded with
  | nil =>
      have all : (loaded.filter fun _ => true) = loaded := List.filter_true _
      simp only [turns, writtenText, List.flatMap_nil, ite_self, List.filterMap_nil, List.all_nil,
        all]
  | cons c rest ih =>
      rw [List.map_cons, List.nodup_cons] at distinct
      obtain ⟨new, distinct⟩ := distinct
      have other : ∀ x ∈ rest, x.name ≠ c.name :=
        fun x member same => new (same ▸ List.mem_map_of_mem member)
      cases found : loaded.lookup c.name with
      | none =>
          have unnamed : ∀ entry ∈ loaded, entry.1 ≠ c.name := by
            intro entry member same
            have isSome := mem_keys_iff.1 (List.mem_map_of_mem (f := Prod.fst) member)
            rw [same, found] at isSome
            cases isSome
          have left : (loaded.filter fun entry => (c :: rest).all fun x => entry.1 != x.name) =
              loaded.filter fun entry => rest.all fun x => entry.1 != x.name := by
            refine List.filter_congr fun entry member => ?_
            rw [List.all_cons, bne_iff_ne.2 (unnamed entry member), Bool.true_and]
          rw [left, List.filterMap_cons, found]
          simp only [turns, turn, found, ih distinct, writtenText, List.flatMap_cons, written,
            Option.getD_none, Option.map_none, List.nil_append]
          cases isNeedUpdate <;> rfl
      | some value =>
          have text : writtenText (loaded.filter fun entry => entry.1 != c.name) rest =
              writtenText loaded rest :=
            List.flatMap_congr fun x member => by rw [written_erased (other x member)]
          have sets : (rest.filterMap fun x =>
              ((loaded.filter fun entry => entry.1 != c.name).lookup x.name).map fun value =>
                (x.name, setValue isNeedUpdate value)) = rest.filterMap fun x =>
              (loaded.lookup x.name).map fun value => (x.name, setValue isNeedUpdate value) :=
            List.filterMap_congr fun x member => by rw [lookup_erased (other x member)]
          have left : (loaded.filter fun entry => (c :: rest).all fun x => entry.1 != x.name) =
              (loaded.filter fun entry => entry.1 != c.name).filter fun entry =>
                rest.all fun x => entry.1 != x.name := by
            rw [List.filter_filter]
            exact List.filter_congr fun entry _ => by rw [List.all_cons, Bool.and_comm]
          rw [left, List.filterMap_cons, found, ← sets]
          simp only [turns, turn, found, ih distinct, text]
          cases isNeedUpdate with
          | false => rfl
          | true =>
              simp only [if_true, writtenText, List.flatMap_cons, written, found, Option.getD_some,
                setValue, Option.map_some, List.singleton_append]

theorem laterLines_flat {text : List Char} (flat : '\n' ∉ text) : laterLines text = [] := by
  rw [laterLines, List.splitOn_eq_singleton flat, List.tail_cons]

theorem laterLines_default {c : MCvar} (flat : '\n' ∉ c.value) :
    laterLines (defaultComment c) = [] := by
  have title : '\n' ∉ slashes ++ "Default: \"".toList := by decide
  apply laterLines_flat
  rw [defaultComment, List.mem_append, List.mem_append, not_or, not_or]
  exact ⟨⟨title, flat⟩, by decide⟩

theorem splitOn_writtenText (loaded : List Entry) {cvars : List MCvar}
    (good : ∀ c ∈ cvars, GoodName c.name) (values : ∀ c ∈ cvars, '\n' ∉ c.value)
    (rest : List Char) : ∃ ls, Defined ls ∧
      entries ls = (cvars.map fun c => (c.name, written loaded c)) ∧
      (writtenText loaded cvars ++ rest).splitOn '\n' = ls ++ rest.splitOn '\n' := by
  induction cvars with
  | nil => exact ⟨[], silent_nil.defined, rfl, rfl⟩
  | cons c others ih =>
      obtain ⟨goodName, goodOthers⟩ := List.forall_mem_cons.1 good
      obtain ⟨flat, flatOthers⟩ := List.forall_mem_cons.1 values
      obtain ⟨later, defined, told, split⟩ := ih goodOthers flatOthers
      obtain ⟨before, between, silentBefore, silentBetween, lines⟩ :=
        splitOn_cvarText c goodName.flat (newline_not_mem_removeChars
          ((loaded.lookup c.name).getD c.value)) (writtenText loaded others ++ rest)
      have line : readLine (assignment c.name (written loaded c)) =
          some (some (c.name, written loaded c)) :=
        readLine_assignment goodName.toPlainName goodName.spaceless goodName.unmarked _
      have more : writtenText loaded (c :: others) ++ rest =
          cvarText c (written loaded c) ++ (writtenText loaded others ++ rest) := by
        rw [← List.append_assoc]
        rfl
      refine ⟨before ++ (between ++ assignment c.name (written loaded c) :: later), ?_, ?_, ?_⟩
      · rw [defined_append, defined_append]
        refine ⟨silentBefore.defined, silentBetween.defined, ?_⟩
        intro l member
        rcases List.mem_cons.1 member with rfl | inLater
        · rw [line]
          exact Option.some_ne_none _
        · exact defined l inLater
      · rw [entries_append, entries_append, silentBefore.entries, silentBetween.entries,
          List.nil_append, List.nil_append, List.map_cons, ← told]
        simp only [entries, List.filterMap_cons, line, Option.join_some]
      · rw [more, written, lines, laterLines_default flat, List.append_nil, split]
        simp only [List.append_assoc, List.cons_append]

/-- What is left over is written as comments. -/
theorem silent_disabled {left : List Entry} (flat : ∀ e ∈ left, '\n' ∉ e.1 ∧ '\n' ∉ e.2) :
    Silent ((disabled left).splitOn '\n') := by
  have comments : Silent ((left.flatMap fun entry =>
      slashes ++ entry.1 ++ [' ', '=', ' ', '"'] ++ entry.2 ++ ['"', '\n']).splitOn '\n') := by
    induction left with
    | nil => exact silent_singleton.2 rfl
    | cons entry rest ih =>
        obtain ⟨⟨flatName, flatValue⟩, flatRest⟩ := List.forall_mem_cons.1 flat
        have flatLine : '\n' ∉ ' ' :: (entry.1 ++ [' ', '=', ' ', '"'] ++ entry.2 ++ ['"']) := by
          simp [flatName, flatValue]
        have line (more : List Char) :
            slashes ++ entry.1 ++ [' ', '=', ' ', '"'] ++ entry.2 ++ ['"', '\n'] ++ more =
              '/' :: '/' :: ' ' :: (entry.1 ++ [' ', '=', ' ', '"'] ++ entry.2 ++ ['"']) ++
                '\n' :: more := by
          simp [slashes]
        rw [List.flatMap_cons, line, List.splitOn_append_cons_self]
        exact silent_append.2 ⟨silent_comment _ flatLine, ih flatRest⟩
  unfold disabled
  split
  · exact silent_singleton.2 rfl
  · have title (more : List Char) : ['\n'] ++ slashes ++ "- DISABLED\n".toList ++ more =
        [] ++ '\n' :: ('/' :: '/' :: " - DISABLED".toList ++ '\n' :: more) := by
      simp [slashes]
    rw [title, List.splitOn_append_cons_self, List.splitOn_append_cons_self]
    exact silent_append.2 ⟨silent_singleton.2 rfl,
      silent_append.2 ⟨silent_comment _ (by decide), comments⟩⟩

/-- The comment that keeps an entry. -/
def disabledLine (entry : Entry) : List Char :=
  slashes ++ entry.1 ++ [' ', '=', ' ', '"'] ++ entry.2 ++ ['"', '\n']

theorem disabledLine_within {left : List Entry} {entry : Entry} (member : entry ∈ left) :
    disabledLine entry <:+: disabled left := by
  obtain ⟨before, after, rfl⟩ := List.append_of_mem member
  have nonempty : ¬ (before ++ entry :: after).isEmpty = true := by simp
  rw [disabled, if_neg nonempty, List.flatMap_append, List.flatMap_cons]
  refine List.infix_append_of_infix_right (List.infix_append_of_infix_right ?_)
  exact (List.prefix_append _ _).isInfix

/-- **What an updated file says**: of each cvar what was written, and no more. -/
theorem readFile_update {plugin : Plugin} (banner : '\n' ∉ signature plugin)
    {cvars : List MCvar} (good : ∀ c ∈ cvars, GoodName c.name)
    (values : ∀ c ∈ cvars, '\n' ∉ c.value) (loaded : List Entry) {left : List Entry}
    (flat : ∀ e ∈ left, '\n' ∉ e.1 ∧ '\n' ∉ e.2) :
    readFile (Cvars.banner plugin ++ writtenText loaded cvars ++ disabled left) =
      some (load (cvars.map fun c => (c.name, written loaded c)) []) := by
  obtain ⟨before, silentBefore, top⟩ :=
    splitOn_banner plugin (writtenText loaded cvars ++ disabled left)
  obtain ⟨ls, defined, told, lines⟩ := splitOn_writtenText loaded good values (disabled left)
  have silent := silent_disabled flat
  rw [readFile_eq_some_iff, List.append_assoc, top, laterLines_flat banner, List.append_nil, lines]
  constructor
  · exact defined_append.2 ⟨silentBefore.defined, defined_append.2 ⟨defined, silent.defined⟩⟩
  · rw [entries_append, entries_append, silentBefore.entries, silent.entries, told,
      List.nil_append, List.append_nil]

/-! ## One call -/

theorem config_some (cvars : List MCvar) {file : Option (List Char)} {autoCreate : Bool}
    (plugin : Plugin) (there : file.isSome = true ∨ autoCreate = true) {loaded : List Entry}
    (reads : (file.map readFile).getD (some []) = some loaded) :
    config cvars file autoCreate plugin = some (some {
      cvars := (turns (needUpdate loaded (sortCvars cvars)) (sortCvars cvars) loaded).1
      file := if needUpdate loaded (sortCvars cvars) then banner plugin ++
        (turns (needUpdate loaded (sortCvars cvars)) (sortCvars cvars) loaded).2.1 ++
        disabled (turns (needUpdate loaded (sortCvars cvars)) (sortCvars cvars) loaded).2.2.2
        else file.getD []
      sets := (turns (needUpdate loaded (sortCvars cvars)) (sortCvars cvars) loaded).2.2.1
      left := (turns (needUpdate loaded (sortCvars cvars)) (sortCvars cvars) loaded).2.2.2.length
      isExist := file.isSome
      autoCreate := autoCreate
      isNeedUpdate := needUpdate loaded (sortCvars cvars) }) := by
  have acts : ¬ (file.isNone && !autoCreate) = true := by
    cases file <;> simp_all
  unfold config
  simp only
  rw [if_neg acts, reads]
  rfl

/-- The lookup of a cvar among what is set. -/
theorem lookup_sets {cvars : List MCvar} (distinct : (cvars.map MCvar.name).Nodup)
    (value : MCvar → Option (List Char)) (set : List Char → List Char) {c : MCvar}
    (listed : c ∈ cvars) :
    (cvars.filterMap fun c => (value c).map fun v => (c.name, set v)).lookup c.name =
      (value c).map set := by
  induction cvars with
  | nil => cases listed
  | cons x rest ih =>
      rw [List.map_cons, List.nodup_cons] at distinct
      obtain ⟨new, distinct⟩ := distinct
      rcases List.mem_cons.1 listed with rfl | later
      · cases found : value c with
        | none =>
            have absent : ¬ ((rest.filterMap fun c =>
                (value c).map fun v => (c.name, set v)).lookup c.name).isSome = true := by
              rw [← mem_keys_iff]
              intro member
              obtain ⟨entry, inside, same⟩ := List.mem_map.1 member
              obtain ⟨y, inRest, isEntry⟩ := List.mem_filterMap.1 inside
              obtain ⟨v, -, rfl⟩ := Option.map_eq_some_iff.1 isEntry
              exact new (same ▸ List.mem_map_of_mem inRest)
            rw [List.filterMap_cons, found]
            exact Option.not_isSome_iff_eq_none.1 absent
        | some v =>
            rw [List.filterMap_cons, found, Option.map_some, lookup_entry, if_pos rfl]
            rfl
      · have other : c.name ≠ x.name := fun same => new (same ▸ List.mem_map_of_mem later)
        cases found : value x with
        | none =>
            rw [List.filterMap_cons, found]
            exact ih distinct later
        | some v =>
            rw [List.filterMap_cons, found, Option.map_some, lookup_entry, if_neg other]
            exact ih distinct later

theorem needUpdate_perm {a b : List MCvar} (same : (a.map MCvar.name).Perm (b.map MCvar.name))
    (loaded : List Entry) : needUpdate loaded a = needUpdate loaded b := by
  have names (cvars : List MCvar) : needUpdate loaded cvars =
      ((cvars.map MCvar.name).any (fun n => (loaded.lookup n).isNone) ||
        ((cvars.map MCvar.name).length == 0 ||
          (cvars.map MCvar.name).length != loaded.length)) := by
    rw [needUpdate, List.any_map, List.length_map]
    rfl
  rw [names, names, same.any_eq, same.length_eq]

/-- A call of `config`. -/
structure Call where
  cvars : List MCvar
  plugin : Plugin
  autoCreate : Bool
  deriving DecidableEq

/-- There is a cvar, the names are distinct and read as they are written, neither a default nor the
banner has a line feed, and the stream can widen the banner. -/
structure Call.Flat (call : Call) : Prop where
  nonempty : call.cvars ≠ []
  distinct : (call.cvars.map MCvar.name).Nodup
  names : ∀ c ∈ call.cvars, GoodName c.name
  banner : '\n' ∉ signature call.plugin
  ascii : call.plugin.Ascii
  values : ∀ c ∈ call.cvars, '\n' ∉ c.value

namespace Call.Flat

variable {call : Call}

theorem sorted (flat : call.Flat) : ((sortCvars call.cvars).map MCvar.name).Nodup :=
  ((sortCvars_perm call.cvars).map MCvar.name).nodup_iff.2 flat.distinct

/-- A file that holds just the names of the list stays as it is. -/
theorem current (flat : call.Flat) {file : List Char} {loaded : List Entry}
    (reads : readFile file = some loaded) (known : needUpdate loaded call.cvars = false)
    {later : List MCvar} (same : (later.map MCvar.name).Perm (call.cvars.map MCvar.name))
    (autoCreate : Bool) (plugin : Plugin) : ∃ second,
      config later (some file) autoCreate plugin = some (some second) ∧
        second.isNeedUpdate = false ∧ second.file = file ∧ second.left = 0 ∧
        ∀ c ∈ later, second.sets.lookup c.name = loaded.lookup c.name := by
  have perm := sortCvars_perm later
  have names := (perm.map MCvar.name).trans same
  have distinct : ((sortCvars later).map MCvar.name).Nodup := names.nodup_iff.2 flat.distinct
  have known : needUpdate loaded (sortCvars later) = false :=
    (needUpdate_perm names loaded).trans known
  have keys : (loaded.map Prod.fst).Nodup := by
    obtain ⟨-, rfl⟩ := (readFile_eq_some_iff _ _).1 reads
    exact nodup_load_nil _
  obtain ⟨-, -, listed⟩ := (needUpdate_eq_false_iff keys distinct).1 known
  refine ⟨_, config_some later plugin (.inl rfl) (by exact reads), known, ?_, ?_, ?_⟩
  · simp only [known]
    rfl
  · simp only [known, turns_eq false distinct]
    rw [List.length_eq_zero_iff, List.filter_eq_nil_iff]
    intro entry member all
    obtain ⟨c, inList, isName⟩ := listed entry.1 (List.mem_map_of_mem member)
    have other := List.all_eq_true.1 all c inList
    rw [isName, bne_self_eq_false] at other
    cases other
  · intro c inLater
    simp only [known, turns_eq false distinct]
    rw [lookup_sets distinct (fun c => loaded.lookup c.name) _ (perm.mem_iff.2 inLater)]
    exact Option.map_id'

/-- A file with other names is written anew, and then it holds just the names of the list. -/
theorem updated (flat : call.Flat) {file : Option (List Char)} {loaded : List Entry}
    (there : file.isSome = true ∨ call.autoCreate = true)
    (reads : (file.map readFile).getD (some []) = some loaded)
    (stale : needUpdate loaded call.cvars = true) : ∃ first,
      config call.cvars file call.autoCreate call.plugin = some (some first) ∧
        first.isNeedUpdate = true ∧
        (∀ c ∈ call.cvars, first.sets.lookup c.name = (loaded.lookup c.name).map removeChars) ∧
        (∀ entry ∈ loaded, (∀ c ∈ call.cvars, c.name ≠ entry.1) →
          disabledLine entry <:+: first.file) ∧
        ∃ loaded', readFile first.file = some loaded' ∧
          needUpdate loaded' call.cvars = false ∧
          ∀ c ∈ call.cvars, loaded'.lookup c.name = some (written loaded c) := by
  have perm := sortCvars_perm call.cvars
  have stale : needUpdate loaded (sortCvars call.cvars) = true :=
    (needUpdate_perm (perm.map MCvar.name) loaded).trans stale
  have flatLoaded : ∀ e ∈ loaded, '\n' ∉ e.1 ∧ '\n' ∉ e.2 := by
    cases file with
    | none =>
        cases reads
        exact fun e none => absurd none List.not_mem_nil
    | some text => exact flat_of_readFile reads
  have flatLeft : ∀ e ∈ loaded.filter fun entry =>
      (sortCvars call.cvars).all fun c => entry.1 != c.name, '\n' ∉ e.1 ∧ '\n' ∉ e.2 :=
    fun e member => flatLoaded e (List.mem_of_mem_filter member)
  have good : ∀ c ∈ sortCvars call.cvars, GoodName c.name :=
    fun c member => flat.names c (perm.mem_iff.1 member)
  have values : ∀ c ∈ sortCvars call.cvars, '\n' ∉ c.value :=
    fun c member => flat.values c (perm.mem_iff.1 member)
  have found : ∀ c ∈ call.cvars, (load ((sortCvars call.cvars).map fun c =>
      (c.name, written loaded c)) []).lookup c.name = some (written loaded c) := by
    intro c listed
    have own := lookup_sets flat.sorted (fun c => some (written loaded c)) id
      (perm.mem_iff.2 listed)
    rw [lookup_load_nil, ← List.filterMap_eq_map]
    exact own
  refine ⟨_, config_some call.cvars call.plugin there reads, stale, ?_, ?_,
    load ((sortCvars call.cvars).map fun c => (c.name, written loaded c)) [], ?_, ?_, found⟩
  · intro c listed
    simp only [stale, turns_eq true flat.sorted]
    rw [lookup_sets flat.sorted (fun c => loaded.lookup c.name) _ (perm.mem_iff.2 listed)]
    rfl
  · intro entry member unlisted
    simp only [stale, turns_eq true flat.sorted, if_true]
    refine List.infix_append_of_infix_right (disabledLine_within ?_)
    refine List.mem_filter.2 ⟨member, List.all_eq_true.2 fun c inList => bne_iff_ne.2 ?_⟩
    exact (unlisted c (perm.mem_iff.1 inList)).symm
  · simp only [stale, turns_eq true flat.sorted, if_true]
    exact readFile_update flat.banner good values loaded flatLeft
  · refine (needUpdate_eq_false_iff (nodup_load_nil _) flat.distinct).2
      ⟨flat.nonempty, fun c listed => ?_, fun n member => ?_⟩
    · rw [found c listed]
      rfl
    · rw [mem_keys_iff, lookup_load_nil, ← mem_keys_iff, List.map_map] at member
      obtain ⟨c, inList, rfl⟩ := List.mem_map.1 member
      exact ⟨c, perm.mem_iff.1 inList, rfl⟩

end Call.Flat

/-- **A file is updated once.**  A call sets every cvar that the file speaks of to what it says.
Then any call for the same names, with whatever values, bounds and descriptions, sets every cvar
to what the file said of it or to its default (less the characters that `remove_chars` takes
out, if the first call wrote), writes nothing and leaves nothing over.  What the file said of
other names stays in it as comments. -/
theorem config_updates {call : Call} (flat : call.Flat) {file : Option (List Char)}
    {loaded : List Entry} (there : file.isSome = true ∨ call.autoCreate = true)
    (reads : (file.map readFile).getD (some []) = some loaded) : ∃ first,
      config call.cvars file call.autoCreate call.plugin = some (some first) ∧
        (∀ c ∈ call.cvars, first.sets.lookup c.name =
          (loaded.lookup c.name).map (setValue first.isNeedUpdate)) ∧
        (∀ entry ∈ loaded, (∀ c ∈ call.cvars, c.name ≠ entry.1) →
          disabledLine entry <:+: first.file) ∧
        ∀ later autoCreate plugin, (later.map MCvar.name).Perm (call.cvars.map MCvar.name) →
          ∃ second, config later (some first.file) autoCreate plugin = some (some second) ∧
            second.isNeedUpdate = false ∧ second.file = first.file ∧ second.left = 0 ∧
            ∀ c ∈ call.cvars, second.sets.lookup c.name =
              some (setValue first.isNeedUpdate ((loaded.lookup c.name).getD c.value)) := by
  have listed {later : List MCvar} (same : (later.map MCvar.name).Perm (call.cvars.map MCvar.name))
      {c : MCvar} (member : c ∈ call.cvars) : ∃ x ∈ later, x.name = c.name :=
    List.mem_map.1 (same.mem_iff.2 (List.mem_map_of_mem member))
  cases known : needUpdate loaded call.cvars with
  | true =>
      obtain ⟨first, called, isNeedUpdate, sets, comments, loaded', reads', known', found⟩ :=
        flat.updated there reads known
      refine ⟨first, called, ?_, comments, fun later autoCreate plugin same => ?_⟩
      · rw [isNeedUpdate]
        exact sets
      · obtain ⟨second, again, still, kept, left, sets'⟩ :=
          flat.current reads' known' same autoCreate plugin
        refine ⟨second, again, still, kept, left, fun c member => ?_⟩
        obtain ⟨x, inLater, isName⟩ := listed same member
        rw [← isName, sets' x inLater, isName, found c member, isNeedUpdate]
        rfl
  | false =>
      cases file with
      | none =>
          cases reads
          obtain ⟨c, rest, split⟩ := List.exists_cons_of_ne_nil flat.nonempty
          rw [split, needUpdate, List.any_cons] at known
          cases known
      | some text =>
          obtain ⟨first, called, still, kept, -, sets⟩ :=
            flat.current reads known (List.Perm.refl _) call.autoCreate call.plugin
          have keys : (loaded.map Prod.fst).Nodup := by
            obtain ⟨-, rfl⟩ := (readFile_eq_some_iff _ _).1 reads
            exact nodup_load_nil _
          obtain ⟨-, all, names⟩ := (needUpdate_eq_false_iff keys flat.distinct).1 known
          have whole (value : Option (List Char)) :
              value.map (setValue first.isNeedUpdate) = value := by
            rw [still]
            exact Option.map_id'
          refine ⟨first, called, fun c member => ?_, fun entry member unlisted => ?_,
            fun later autoCreate plugin same => ?_⟩
          · rw [whole]
            exact sets c member
          · obtain ⟨c, inList, isName⟩ := names entry.1 (List.mem_map_of_mem member)
            exact absurd isName (unlisted c inList)
          · rw [kept]
            obtain ⟨second, again, still', kept', left, sets'⟩ :=
              flat.current reads known same autoCreate plugin
            refine ⟨second, again, still', kept', left, fun c member => ?_⟩
            obtain ⟨x, inLater, isName⟩ := listed same member
            obtain ⟨value, found⟩ := Option.isSome_iff_exists.1 (all c member)
            rw [← isName, sets' x inLater, isName, found, still]
            rfl

/-- A call for a list of cvars with short names. -/
def shortCall (cvars : List MCvar) : Call := ⟨cvars, ⟨['T'], ['A'], ['N'], ['1']⟩, true⟩

def cvarX : MCvar := ⟨['x'], ['5'], "speed".toList, true, false, .fin false 0, .nan false⟩

def cvarY : MCvar :=
  ⟨['y'], ['a', '\t', 'b'], "two\nlines".toList, false, false, .nan false, .nan false⟩

theorem shortCall_flat {cvars : List MCvar} (some : cvars ≠ []) (distinct : cvars.Nodup)
    (short : cvars ⊆ [cvarX, cvarY]) : (shortCall cvars).Flat where
  nonempty := some
  distinct := by
    refine distinct.map_on fun c member d member' same => ?_
    have c := short member
    have d := short member'
    simp only [List.mem_cons, List.not_mem_nil, or_false] at c d
    rcases c with rfl | rfl <;> rcases d with rfl | rfl <;> first | rfl | cases same
  names c member := by
    have c := short member
    simp only [List.mem_cons, List.not_mem_nil, or_false] at c
    rcases c with rfl | rfl
    · exact ⟨⟨by decide, (trim_eq_self_iff _).1 rfl⟩, by decide, by decide, by decide⟩
    · exact ⟨⟨by decide, (trim_eq_self_iff _).1 rfl⟩, by decide, by decide, by decide⟩
  banner := show '\n' ∉ signature ⟨['T'], ['A'], ['N'], ['1']⟩ by decide
  ascii := show Plugin.Ascii ⟨['T'], ['A'], ['N'], ['1']⟩ by decide
  values c member := by
    have c := short member
    simp only [List.mem_cons, List.not_mem_nil, or_false] at c
    rcases c with rfl | rfl <;> decide

/-- The plugin has a new cvar and has lost one. -/
theorem config_updates_renamed : ∃ first,
    config [cvarX, cvarY] (some "x 7\nz \"2\"".toList) true ⟨['T'], ['A'], ['N'], ['1']⟩ =
        some (some first) ∧
      first.sets.lookup ['x'] = some (setValue first.isNeedUpdate ['7']) ∧
      disabledLine (['z'], ['2']) <:+: first.file ∧
      ∃ second, config [cvarY, cvarX] (some first.file) false ⟨[], [], [], []⟩ =
          some (some second) ∧ second.file = first.file ∧
        second.sets.lookup ['y'] = some (setValue first.isNeedUpdate ['a', '\t', 'b']) := by
  have flat : (shortCall [cvarX, cvarY]).Flat :=
    shortCall_flat (by decide) (by decide) (List.Subset.refl _)
  have reads : ((some "x 7\nz \"2\"".toList).map readFile).getD (some []) =
      some [(['x'], ['7']), (['z'], ['2'])] := by decide +kernel
  obtain ⟨first, called, sets, comments, again⟩ := config_updates flat (.inl rfl) reads
  obtain ⟨second, called', -, same, -, sets'⟩ :=
    again [cvarY, cvarX] false ⟨[], [], [], []⟩ (List.Perm.swap _ _ _)
  refine ⟨first, called, ?_, ?_, second, called', same, ?_⟩
  · exact sets cvarX List.mem_cons_self
  · exact comments _ (List.mem_cons_of_mem _ List.mem_cons_self) (by decide)
  · exact sets' cvarY (List.mem_cons_of_mem _ List.mem_cons_self)

/-! ## A history of calls -/

/-- The calls of a history, one after the other: the file that is left, and what each call has
set.  Where the file is there a call always does something. -/
def configs (file : List Char) : List Call → Option (List Char × List (List Entry))
  | [] => some (file, [])
  | call :: rest =>
      (config call.cvars (some file) call.autoCreate call.plugin).join.bind fun outcome =>
        (configs outcome.file rest).map fun later => (later.1, outcome.sets :: later.2)

/-- The value, or the value less the characters that `remove_chars` takes out. -/
def Kept (value w : List Char) : Prop := w = value ∨ w = removeChars value

theorem removeChars_removeChars (s : List Char) : removeChars (removeChars s) = removeChars s := by
  rw [removeChars, removeChars, List.filter_filter]
  exact List.filter_congr fun c _ => Bool.and_self _

theorem Kept.removeChars {value w : List Char} (kept : Kept value w) :
    Kept value (removeChars w) := by
  rcases kept with rfl | rfl
  · exact .inr rfl
  · exact .inr (removeChars_removeChars value)

/-- One call keeps what the file says of a cvar. -/
theorem Call.Flat.keeps {call : Call} (flat : call.Flat) {file : List Char} {loaded : List Entry}
    (reads : readFile file = some loaded) {c : MCvar} (listed : c ∈ call.cvars)
    {value w : List Char} (found : loaded.lookup c.name = some w) (kept : Kept value w) :
    ∃ outcome loaded', config call.cvars (some file) call.autoCreate call.plugin =
        some (some outcome) ∧ readFile outcome.file = some loaded' ∧
      (∃ w', outcome.sets.lookup c.name = some w' ∧ Kept value w') ∧
      ∃ w', loaded'.lookup c.name = some w' ∧ Kept value w' := by
  cases known : needUpdate loaded call.cvars with
  | false =>
      obtain ⟨outcome, called, -, same, -, sets⟩ :=
        flat.current reads known (List.Perm.refl _) call.autoCreate call.plugin
      refine ⟨outcome, loaded, called, by rw [same, reads], ⟨w, ?_, kept⟩, w, found, kept⟩
      rw [sets c listed, found]
  | true =>
      obtain ⟨outcome, called, -, sets, -, loaded', reads', -, found'⟩ :=
        flat.updated (.inl rfl) (show ((some file).map readFile).getD (some []) = _ from reads)
          known
      refine ⟨outcome, loaded', called, reads', ⟨removeChars w, ?_, kept.removeChars⟩,
        removeChars w, ?_, kept.removeChars⟩
      · rw [sets c listed, found]
        rfl
      · rw [found' c listed, written, found]
        rfl

/-- **Settings survive.**  What the file says of a cvar it says after any history of calls whose
lists have the cvar, however the rest of the lists, the defaults and the plugin change, and
every one of the calls sets the cvar to it. -/
theorem settings_survive {file : List Char} {loaded : List Entry}
    (reads : readFile file = some loaded) {name value : List Char}
    (found : loaded.lookup name = some value) {history : List Call}
    (flat : ∀ call ∈ history, call.Flat)
    (lists : ∀ call ∈ history, name ∈ call.cvars.map MCvar.name) :
    ∃ last sets loaded', configs file history = some (last, sets) ∧
      readFile last = some loaded' ∧ sets.length = history.length ∧
      (∀ s ∈ sets, ∃ w, s.lookup name = some w ∧ Kept value w) ∧
      ∃ w, loaded'.lookup name = some w ∧ Kept value w := by
  have start : ∃ w, loaded.lookup name = some w ∧ Kept value w := ⟨value, found, .inl rfl⟩
  clear found
  induction history generalizing file loaded with
  | nil =>
      exact ⟨file, [], loaded, rfl, reads, rfl, fun s none => absurd none List.not_mem_nil, start⟩
  | cons call rest ih =>
      obtain ⟨flatCall, flatRest⟩ := List.forall_mem_cons.1 flat
      obtain ⟨listed, listsRest⟩ := List.forall_mem_cons.1 lists
      obtain ⟨w, found, kept⟩ := start
      obtain ⟨c, inList, rfl⟩ := List.mem_map.1 listed
      obtain ⟨outcome, loaded₁, called, reads₁, set, next⟩ := flatCall.keeps reads inList found kept
      obtain ⟨last, sets, loaded', run, readsLast, count, all, held⟩ :=
        ih reads₁ flatRest listsRest next
      refine ⟨last, outcome.sets :: sets, loaded', ?_, readsLast, ?_, ?_, held⟩
      · rw [configs, called, Option.join_some, Option.bind_some, run]
        rfl
      · rw [List.length_cons, List.length_cons, count]
      · exact List.forall_mem_cons.2 ⟨set, all⟩

/-- A cvar is new, and then one is lost. -/
theorem settings_survive_renamed : ∃ last sets loaded',
    configs "x \" 7\"".toList [shortCall [cvarX], shortCall [cvarY, cvarX], shortCall [cvarX]] =
        some (last, sets) ∧ readFile last = some loaded' ∧ sets.length = 3 ∧
      ∃ w, loaded'.lookup ['x'] = some w ∧ Kept [' ', '7'] w := by
  obtain ⟨last, sets, loaded', run, reads, count, -, held⟩ :=
    @settings_survive "x \" 7\"".toList [(['x'], [' ', '7'])] (by decide +kernel) ['x']
      [' ', '7'] rfl
      [shortCall [cvarX], shortCall [cvarY, cvarX], shortCall [cvarX]]
      (by
        simp only [List.forall_mem_cons, List.not_mem_nil, false_imp_iff, implies_true, and_true]
        refine ⟨?_, ?_, ?_⟩
        · exact shortCall_flat (by decide) (by decide) (by decide)
        · exact shortCall_flat (by decide) (by decide) (by decide)
        · exact shortCall_flat (by decide) (by decide) (by decide))
      (by decide)
  exact ⟨last, sets, loaded', run, reads, count, held⟩

end Refsapi.Cvars
