/-
# Misc.Text -- the string helpers of `refsapi_misc.h`

A `std::wstring` is the list of its characters.  `trim` leaves exactly the
strings that neither begin nor end with a character of `_TRIM_CHARS` as they are
(`trim_eq_self_iff`).
-/
import Mathlib.Data.List.DropRight

namespace Refsapi

set_option autoImplicit false

/-- `_TRIM_CHARS`. -/
def trimChars : List Char := [' ', '\r', '\t', '\n', '\x08', '\x07']

/-- `_QQ_L`, with the null that ends it: `rm_quote` goes through the array. -/
def quotes : List Char := ['"', '\'', Char.ofNat 0x60, '\x00']

def isTrimChar (c : Char) : Bool := trimChars.contains c

def ltrim (s : List Char) : List Char := s.dropWhile isTrimChar

def rtrim (s : List Char) : List Char := s.rdropWhile isTrimChar

def trim (s : List Char) : List Char := ltrim (rtrim s)

/-- `remove_chars` with its default characters. -/
def removeChars (s : List Char) : List Char := s.filter fun c => !(['\r', '\t', '\n'].contains c)

/-- The loop of `rm_quote`.  To erase the last character of an empty string is
undefined. -/
def rmQuoteLoop (s : List Char) : List Char → Option (Int × List Char)
  | [] => some (0, s)
  | ch :: rest =>
      let front := s.head? == some ch
      let back := front && s.getLast? == some ch
      if back then
        if s.tail.isEmpty then none else some (1, s.tail.dropLast)
      else if front != back then some (-1, s)
      else rmQuoteLoop s rest

/-- `rm_quote`, with the string that it leaves. -/
def rmQuote (s : List Char) : Option (Int × List Char) :=
  if s.isEmpty then some (0, s) else rmQuoteLoop s quotes

/-! ## Trimming -/

/-- The string neither begins nor ends with a character to trim. -/
structure Trimmed (s : List Char) : Prop where
  front : ∀ c ∈ s.head?, isTrimChar c = false
  back : ∀ c ∈ s.getLast?, isTrimChar c = false

theorem trimmed_trim (s : List Char) : Trimmed (trim s) := by
  constructor
  · intro c head
    have := List.head?_dropWhile_not isTrimChar (rtrim s)
    rw [show (rtrim s).dropWhile isTrimChar = trim s from rfl, Option.mem_def.1 head] at this
    simpa using this
  · intro c last
    have rest : (rtrim s).getLast? = some c := by
      rw [← List.takeWhile_append_dropWhile (p := isTrimChar) (l := rtrim s), List.getLast?_append,
        show (rtrim s).dropWhile isTrimChar = trim s from rfl, Option.mem_def.1 last]
      rfl
    have nonempty : rtrim s ≠ [] := fun empty => by simp [empty] at rest
    rw [List.getLast?_eq_some_getLast nonempty, Option.some.injEq] at rest
    have := List.rdropWhile_last_not isTrimChar s nonempty
    simpa [← rest, rtrim] using this

theorem Trimmed.trim_eq {s : List Char} (trimmed : Trimmed s) : trim s = s := by
  have right : rtrim s = s := by
    refine List.rdropWhile_eq_self_iff.2 fun nonempty => ?_
    simp [trimmed.back _ (List.getLast?_eq_some_getLast nonempty)]
  rw [trim, right, ltrim, List.dropWhile_eq_self_iff]
  intro nonempty
  simp [trimmed.front _ (List.head?_eq_getElem? .. ▸ List.getElem?_eq_getElem nonempty)]

theorem trim_eq_self_iff (s : List Char) : trim s = s ↔ Trimmed s :=
  ⟨fun same => same ▸ trimmed_trim s, Trimmed.trim_eq⟩

theorem rtrim_cons {a : Char} (kept : isTrimChar a = false) (s : List Char) :
    rtrim (a :: s) = a :: rtrim s := by
  unfold rtrim
  rw [List.rdropWhile, List.reverse_cons, List.dropWhile_append]
  split
  · next empty => simp [List.rdropWhile, List.isEmpty_iff.1 empty, kept]
  · simp [List.rdropWhile]

theorem trim_cons {a : Char} (kept : isTrimChar a = false) (s : List Char) :
    trim (a :: s) = a :: rtrim s := by
  rw [trim, rtrim_cons kept, ltrim, List.dropWhile_cons_of_neg (by simp [kept])]

/-! ## Quotes -/

/-- What has been put in quotes comes out of them as it was. -/
theorem rmQuote_quoted (s : List Char) : rmQuote ('"' :: (s ++ ['"'])) = some (1, s) := by
  have last : ('"' :: (s ++ ['"'])).getLast? = some '"' := List.getLast?_concat (l := '"' :: s)
  simp [rmQuote, rmQuoteLoop, quotes, last]

end Refsapi
