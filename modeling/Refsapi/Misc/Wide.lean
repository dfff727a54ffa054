/-
# Misc.Wide -- C strings, and `stows` and `wstos` between them and wide ones

A C string is the list of its bytes, without the null; a `std::wstring` is the
list of its characters.  `stows` reads UTF-8, leaves out what is there of a
sequence at the end that is not complete, and takes a text that is none byte by
byte; so two texts may have one wide form, that of an ASCII text among them.
-/
import Refsapi.Lib.Utf8

namespace Refsapi

set_option autoImplicit false

/-- A C string. -/
abbrev Text : Type := List UInt8

/-- A `std::wstring`. -/
abbrev Wide : Type := List Char

/-! ## Reading UTF-8 -/

/-- The number that a lead byte and the continuation bytes after it encode. -/
def codePoint (lead : Nat) (tail : List UInt8) : Nat :=
  tail.foldl (fun n b => n * 64 + (b.toNat - 0x80)) lead

/-- `g_converter.from_bytes`; `none` where it throws, and that is not where a sequence is cut off
by the end of the text. -/
def fromBytes : Text → Option Wide
  | [] => some []
  | a :: rest =>
      if a < 0x80 then (fromBytes rest).map fun wide => .ofNat a.toNat :: wide
      else if ¬ (0xC2 ≤ a ∧ a < 0xF5) then none
      else
        match rest with
        | [] => some []
        | b :: rest =>
            if ¬ (Utf8.Cont b ∧ Utf8.Second a b) then none
            else if a < 0xE0 then
              (fromBytes rest).map fun wide => .ofNat (codePoint (a.toNat - 0xC0) [b]) :: wide
            else
              match rest with
              | [] => some []
              | c :: rest =>
                  if ¬ Utf8.Cont c then none
                  else if a < 0xF0 then
                    (fromBytes rest).map fun wide =>
                      .ofNat (codePoint (a.toNat - 0xE0) [b, c]) :: wide
                  else
                    match rest with
                    | [] => some []
                    | d :: rest =>
                        if ¬ Utf8.Cont d then none
                        else
                          (fromBytes rest).map fun wide =>
                            .ofNat (codePoint (a.toNat - 0xF0) [b, c, d]) :: wide

/-- `stows`. -/
def stows (s : Text) : Wide := (fromBytes s).getD (s.map fun b => .ofNat b.toNat)

/-- `wstos`. -/
def wstos (s : Wide) : Text := s.flatMap String.utf8EncodeChar

/-! ## Back and forth -/

theorem codePoint_three (a b c : UInt8) :
    codePoint (a.toNat - 0xE0) [b, c] = Utf8.scalar [a, b, c] := by
  rw [Utf8.scalar_three]
  simp only [codePoint, List.foldl]
  omega

theorem codePoint_four (a b c d : UInt8) :
    codePoint (a.toNat - 0xF0) [b, c, d] = Utf8.scalar [a, b, c, d] := by
  rw [Utf8.scalar_four]
  simp only [codePoint, List.foldl]
  omega

/-- A sequence is read as its scalar value. -/
theorem fromBytes_append {c : Text} (sequence : Utf8.Sequence c) (rest : Text) :
    fromBytes (c ++ rest) =
      (fromBytes rest).map fun wide => .ofNat (Utf8.scalar c) :: wide := by
  cases sequence with
  | @one a ascii =>
      show fromBytes (a :: rest) = _
      conv_lhs => unfold fromBytes
      rw [if_pos ascii]
      rfl
  | @two a b low high cont =>
      have above : ¬ a < 0x80 := by grind
      have lead : 0xC2 ≤ a ∧ a < 0xF5 := ⟨low, by grind⟩
      have follows : Utf8.Cont b ∧ Utf8.Second a b := ⟨cont, Utf8.second_of_ne high⟩
      show fromBytes (a :: b :: rest) = _
      conv_lhs => unfold fromBytes
      rw [if_neg above, if_neg (not_not.2 lead)]
      simp only
      rw [if_neg (not_not.2 follows), if_pos high]
      rfl
  | @three a b c low high cont second last =>
      have above : ¬ a < 0x80 := by grind
      have more : ¬ a < 0xE0 := by grind
      have lead : 0xC2 ≤ a ∧ a < 0xF5 := ⟨by grind, by grind⟩
      have follows : Utf8.Cont b ∧ Utf8.Second a b := ⟨cont, second⟩
      show fromBytes (a :: b :: c :: rest) = _
      conv_lhs => unfold fromBytes
      rw [if_neg above, if_neg (not_not.2 lead)]
      simp only
      rw [if_neg (not_not.2 follows), if_neg more, if_neg (not_not.2 last), if_pos high,
        codePoint_three]
  | @four a b c d low high cont second third last =>
      have above : ¬ a < 0x80 := by grind
      have more : ¬ a < 0xE0 := by grind
      have most : ¬ a < 0xF0 := by grind
      have lead : 0xC2 ≤ a ∧ a < 0xF5 := ⟨by grind, high⟩
      have follows : Utf8.Cont b ∧ Utf8.Second a b := ⟨cont, second⟩
      show fromBytes (a :: b :: c :: d :: rest) = _
      conv_lhs => unfold fromBytes
      rw [if_neg above, if_neg (not_not.2 lead)]
      simp only
      rw [if_neg (not_not.2 follows), if_neg more, if_neg (not_not.2 third), if_neg most,
        if_neg (not_not.2 last), codePoint_four]

/-- **Back and forth.**  A text comes back from its wide form if and only if it is UTF-8. -/
theorem wstos_stows_iff (s : Text) : wstos (stows s) = s ↔ Utf8.WellFormed s := by
  constructor
  · intro same
    exact (Utf8.wellFormed_iff_encodes s).2 ⟨stows s, same⟩
  · intro formed
    have reads : ∃ wide, fromBytes s = some wide ∧ wstos wide = s := by
      induction formed with
      | nil => exact ⟨[], rfl, rfl⟩
      | @append c l first _ ih =>
          obtain ⟨wide, reads, same⟩ := ih
          refine ⟨.ofNat (Utf8.scalar c) :: wide, ?_, ?_⟩
          · rw [fromBytes_append first, reads]
            rfl
          · rw [wstos, List.flatMap_cons, first.encode_ofNat, ← wstos, same]
    obtain ⟨wide, reads, same⟩ := reads
    rw [stows, reads]
    exact same

end Refsapi
