/-
# Misc.Quotes -- when `rm_quote` strips what it should

`rm_quote` strips a pair of quote marks, and reports a mark that has no counterpart.  It tests
the back of the string only where the front is the mark, so a mark at the back alone is not
reported; and it takes the one character of a single mark for both ends, and erases twice.  On
every other string the answer is as described (`rmQuote_iff`).

The narrow `rm_quote` is the same loop, which trims what it has stripped.
-/
import Refsapi.Misc.Number
import Refsapi.Misc.Text

namespace Refsapi

set_option autoImplicit false

variable {α : Type} {s : List α} {a b : α}

/-! ## The loop -/

/-- The loop of both functions; `finish` is what they do with the stripped string. -/
def stripLoop [DecidableEq α] (finish : List α → List α) (s : List α) :
    List α → Option (Int × List α)
  | [] => some (0, s)
  | ch :: rest =>
      let front := s.head? == some ch
      let back := front && s.getLast? == some ch
      if back then
        if s.tail.isEmpty then none else some (1, finish s.tail.dropLast)
      else if front != back then some (-1, s)
      else stripLoop finish s rest

/-- `_QQ`, with the null that ends it. -/
def quoteBytes : Text := [0x22, 0x27, 0x60, 0]

/-- The narrow `rm_quote`. -/
def rmQuoteText (s : Text) : Option (Int × Text) :=
  if s.isEmpty then some (0, s) else stripLoop trimText s quoteBytes

theorem rmQuoteLoop_eq (s quotes : List Char) : rmQuoteLoop s quotes = stripLoop id s quotes := by
  induction quotes with
  | nil => rfl
  | cons ch rest ih => simp only [rmQuoteLoop, stripLoop, ih, id]

/-! ## What it is for -/

/-- The quote marks, without the null. -/
def quoteMarks : List Char := ['"', '\'', Char.ofNat 0x60]

def quoteMarkBytes : Text := [0x22, 0x27, 0x60]

/-- The string is put in a pair of quote marks. -/
def Paired (marks s : List α) : Prop :=
  2 ≤ s.length ∧ ∃ a ∈ marks, s.head? = some a ∧ s.getLast? = some a

/-- One end of the string is a quote mark, or the ends are different ones. -/
def Unpaired (marks s : List α) : Prop :=
  ∃ a b, s.head? = some a ∧ s.getLast? = some b ∧ a ≠ b ∧ (a ∈ marks ∨ b ∈ marks)

/-- The answer, and the string that is left. -/
structure Strips (finish : List α → List α) (marks s : List α) (answer : Int × List α) : Prop where
  stripped : answer = (1, finish s.tail.dropLast) ↔ Paired marks s
  reported : answer = (-1, s) ↔ Unpaired marks s
  left : answer = (0, s) ↔ ¬ Paired marks s ∧ ¬ Unpaired marks s

/-- The string is no single quote mark, and has none at its back alone. -/
structure Closed (marks s : List α) : Prop where
  single : ∀ a ∈ marks, s ≠ [a]
  back : ∀ b ∈ marks, s.getLast? = some b → ∃ a ∈ marks, s.head? = some a

/-! ## What it does -/

/-- The loop stops at the mark that the string begins with. -/
theorem stripLoop_eq [DecidableEq α] (finish : List α → List α) (front : s.head? = some a)
    (back : s.getLast? = some b) (marks : List α) :
    stripLoop finish s marks =
      if a ∈ marks then
        if a = b then if s.tail.isEmpty then none else some (1, finish s.tail.dropLast)
        else some (-1, s)
      else some (0, s) := by
  induction marks with
  | nil => rfl
  | cons ch rest ih =>
      by_cases here : a = ch
      · subst here
        simp only [stripLoop, front, back, beq_self_eq_true, Bool.true_and, beq_iff_eq,
          Option.some.injEq, List.mem_cons, true_or, if_true]
        by_cases same : a = b
        · simp [same]
        · simp [same, Ne.symm same]
      · have other : (s.head? == some ch) = false := by simpa [front] using here
        simp only [stripLoop, other, Bool.false_and, Bool.false_eq_true, if_false,
          bne_self_eq_false, ih, List.mem_cons, here, false_or]

theorem paired_iff (front : s.head? = some a) (back : s.getLast? = some b) (marks : List α) :
    Paired marks s ↔ a ∈ marks ∧ a = b ∧ s.tail ≠ [] := by
  have long : 2 ≤ s.length ↔ s.tail ≠ [] := by
    rw [Ne, ← List.length_eq_zero_iff, List.length_tail]
    omega
  unfold Paired
  rw [front, back, long]
  constructor
  · rintro ⟨more, c, member, isFront, isBack⟩
    obtain rfl := Option.some.inj isFront
    exact ⟨member, (Option.some.inj isBack).symm, more⟩
  · rintro ⟨member, rfl, more⟩
    exact ⟨more, a, member, rfl, rfl⟩

theorem unpaired_iff (front : s.head? = some a) (back : s.getLast? = some b) (marks : List α) :
    Unpaired marks s ↔ a ≠ b ∧ (a ∈ marks ∨ b ∈ marks) := by
  unfold Unpaired
  rw [front, back]
  constructor
  · rintro ⟨c, d, isFront, isBack, rest⟩
    obtain rfl := Option.some.inj isFront
    obtain rfl := Option.some.inj isBack
    exact rest
  · exact fun rest => ⟨a, b, rfl, rfl, rest⟩

theorem closed_iff (front : s.head? = some a) (back : s.getLast? = some b) (marks : List α) :
    Closed marks s ↔ (s.tail = [] → a ∉ marks) ∧ (b ∈ marks → a ∈ marks) := by
  have shape : s = a :: s.tail := List.eq_cons_of_mem_head? front
  constructor
  · rintro ⟨single, backs⟩
    refine ⟨fun alone member => single a member (by rw [shape, alone]), fun member => ?_⟩
    obtain ⟨c, isMark, isFront⟩ := backs b member back
    rw [front] at isFront
    exact Option.some.inj isFront ▸ isMark
  · rintro ⟨single, backs⟩
    refine ⟨fun c member same => ?_, fun c member isBack => ?_⟩
    · subst same
      exact single rfl (Option.some.inj front ▸ member)
    · rw [back] at isBack
      exact ⟨a, backs (Option.some.inj isBack ▸ member), front⟩

/-- The answer is as described if and only if the string is closed. -/
theorem strips_iff [DecidableEq α] (finish : List α → List α) (marks : List α) {null : α}
    (nonempty : s ≠ []) (noNull : null ∉ s) :
    (∃ answer, stripLoop finish s (marks ++ [null]) = some answer ∧ Strips finish marks s answer) ↔
      Closed marks s := by
  obtain ⟨a, front⟩ : ∃ a, s.head? = some a := ⟨_, List.head?_eq_some_head nonempty⟩
  obtain ⟨b, back⟩ : ∃ b, s.getLast? = some b := ⟨_, List.getLast?_eq_some_getLast nonempty⟩
  have isMark : a ∈ marks ++ [null] ↔ a ∈ marks := by
    have other : a ≠ null := fun same => noNull (same ▸ List.mem_of_mem_head? front)
    simp [other]
  have shape : s = a :: s.tail := List.eq_cons_of_mem_head? front
  have paired := paired_iff front back marks
  have unpaired := unpaired_iff front back marks
  rw [stripLoop_eq finish front back, closed_iff front back]
  simp only [isMark]
  by_cases member : a ∈ marks
  · rw [if_pos member]
    by_cases same : a = b
    · rw [if_pos same]
      by_cases alone : s.tail = []
      · simp [alone, member]
      · have pair : Paired marks s := paired.2 ⟨member, same, alone⟩
        have noReport : ¬ Unpaired marks s := fun apart => (unpaired.1 apart).1 same
        rw [if_neg (by simpa using alone)]
        refine iff_of_true ⟨_, rfl, ?_, ?_, ?_⟩ ⟨fun none => absurd none alone, fun _ => member⟩
        · exact iff_of_true rfl pair
        · exact iff_of_false (by simp) noReport
        · exact iff_of_false (by simp) fun neither => neither.1 pair
    · have apart : Unpaired marks s := unpaired.2 ⟨same, .inl member⟩
      have noPair : ¬ Paired marks s := fun pair => same (paired.1 pair).2.1
      have more : s.tail ≠ [] := by
        intro alone
        rw [shape, alone] at back
        exact same (Option.some.inj back)
      rw [if_neg same]
      refine iff_of_true ⟨_, rfl, ?_, ?_, ?_⟩ ⟨fun none => absurd none more, fun _ => member⟩
      · exact iff_of_false (by simp) noPair
      · exact iff_of_true rfl apart
      · exact iff_of_false (by simp) fun neither => neither.2 apart
  · have noPair : ¬ Paired marks s := fun pair => member (paired.1 pair).1
    rw [if_neg member]
    constructor
    · rintro ⟨answer, isAnswer, -, reported, -⟩
      cases isAnswer
      refine ⟨fun _ => member, fun isBack => ?_⟩
      have apart : a ≠ b := fun same => member (same ▸ isBack)
      exact absurd (reported.2 (unpaired.2 ⟨apart, .inr isBack⟩)) (by simp)
    · rintro ⟨-, backs⟩
      have noReport : ¬ Unpaired marks s := fun apart =>
        (unpaired.1 apart).2.elim member fun isBack => member (backs isBack)
      refine ⟨_, rfl, ?_, ?_, ?_⟩
      · exact iff_of_false (by simp) noPair
      · exact iff_of_false (by simp) noReport
      · exact iff_of_true rfl ⟨noPair, noReport⟩

/-- To an empty string nothing is done. -/
theorem strips_nil (finish : List α → List α) (marks : List α) :
    Strips finish marks [] (0, []) ∧ Closed marks [] := by
  have noPair : ¬ Paired marks [] := fun pair => absurd pair.1 (by simp)
  have noReport : ¬ Unpaired marks [] := by
    rintro ⟨a, b, isFront, -⟩
    cases isFront
  refine ⟨⟨?_, ?_, ?_⟩, fun a _ => (List.cons_ne_nil a []).symm, fun b _ isBack => by cases isBack⟩
  · exact iff_of_false (by simp) noPair
  · exact iff_of_false (by simp) noReport
  · exact iff_of_true rfl ⟨noPair, noReport⟩

/-- **When quotes are stripped as they should be.**  Both functions give the answer described,
and never erase from an empty string, if and only if the string is not a single quote mark and
has no quote mark at its back alone. -/
theorem rmQuote_iff (s : List Char) (t : Text) (noNull : '\x00' ∉ s) (noNullByte : 0 ∉ t) :
    ((∃ answer, rmQuote s = some answer ∧ Strips id quoteMarks s answer) ↔ Closed quoteMarks s) ∧
      ((∃ answer, rmQuoteText t = some answer ∧ Strips trimText quoteMarkBytes t answer) ↔
        Closed quoteMarkBytes t) := by
  constructor
  · by_cases empty : s = []
    · subst empty
      have nothing := strips_nil id quoteMarks
      exact iff_of_true ⟨_, rfl, nothing.1⟩ nothing.2
    · rw [rmQuote, if_neg (by simpa using empty), rmQuoteLoop_eq]
      exact strips_iff id quoteMarks empty noNull
  · by_cases empty : t = []
    · subst empty
      have nothing := strips_nil trimText quoteMarkBytes
      exact iff_of_true ⟨_, rfl, nothing.1⟩ nothing.2
    · rw [rmQuoteText, if_neg (by simpa using empty)]
      exact strips_iff trimText quoteMarkBytes empty noNullByte

/-- `'a'` is stripped. -/
theorem rmQuote_iff_pair : ∃ answer, rmQuote ['\'', 'a', '\''] = some answer ∧
    Strips id quoteMarks ['\'', 'a', '\''] answer :=
  (rmQuote_iff ['\'', 'a', '\''] [] (by decide) (by decide)).1.2
    ⟨fun _ _ same => List.cons_ne_nil _ _ (List.cons.inj same).2,
      fun _ _ _ => ⟨'\'', by decide, rfl⟩⟩

/-- Of a single quote mark `rm_quote` erases twice. -/
theorem not_always_strips : ¬ ∀ s : List Char, '\x00' ∉ s →
    ∃ answer, rmQuote s = some answer ∧ Strips id quoteMarks s answer := by
  intro always
  obtain ⟨answer, isAnswer, -⟩ := always ['"'] (by decide)
  have undefined : rmQuote ['"'] = none := rfl
  rw [undefined] at isAnswer
  cases isAnswer

end Refsapi
