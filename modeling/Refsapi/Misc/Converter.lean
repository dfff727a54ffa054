/-
# Misc.Converter -- what `stows` and `wstos` keep

`stows` reads a text as UTF-8, and byte by byte where it is none.  `is_valid_utf8_simd` has
replaced a check that only asked whether the first reading throws (the commented function in
`refsapi_misc.h`), and the two do not agree: a text that ends inside a sequence is read, without
what is there of it, and does not pass (`fromBytes_eq_some_iff`).

So a text that passes the check survives the conversions; two texts may have one wide form, but
not if both pass or if neither is read (`converter_exact`).
-/
import Refsapi.Misc.Utf8Simd
import Refsapi.Misc.Wide

namespace Refsapi

set_option autoImplicit false

/-! ## Reading what was written -/

theorem utf8EncodeChar_injective : Function.Injective String.utf8EncodeChar := by
  intro c d same
  have first := ByteArray.utf8DecodeChar?_utf8EncodeChar_append (b := .empty) (c := c)
  rw [same, ByteArray.utf8DecodeChar?_utf8EncodeChar_append] at first
  exact (Option.some.inj first).symm

theorem ofNat_scalar (ch : Char) : Char.ofNat (Utf8.scalar (String.utf8EncodeChar ch)) = ch :=
  utf8EncodeChar_injective (Utf8.sequence_encode ch).encode_ofNat

/-! ## Which texts are read -/

/-- The bytes are the beginning of a sequence, and not all of it. -/
def CutOff (cut : Text) : Prop := ∃ b more, Utf8.Sequence (cut ++ b :: more)

theorem cutOff_nil : CutOff [] := ⟨0x20, [], .one (by decide)⟩

/-- What is cut off is left out. -/
theorem CutOff.fromBytes {cut : Text} (cutOff : CutOff cut) : fromBytes cut = some [] := by
  obtain ⟨next, more, sequence⟩ := cutOff
  rcases cut with _ | ⟨a, _ | ⟨b, _ | ⟨c, _ | ⟨d, cut⟩⟩⟩⟩
  · rfl
  · cases sequence with
    | two low high cont => grind [Refsapi.fromBytes]
    | three low high cont second cont₂ => grind [Refsapi.fromBytes]
    | four low high cont second cont₂ cont₃ => grind [Refsapi.fromBytes]
  · cases sequence with
    | three low high cont second cont₂ => grind [Refsapi.fromBytes]
    | four low high cont second cont₂ cont₃ => grind [Refsapi.fromBytes]
  · cases sequence with
    | four low high cont second cont₂ cont₃ => grind [Refsapi.fromBytes]
  · generalize whole : a :: b :: c :: d :: cut ++ next :: more = s at sequence
    have long : 4 < s.length := by
      rw [← whole, List.length_append]
      simp only [List.length_cons]
      omega
    cases sequence with
    | _ => exact absurd long (Nat.not_lt.2 (by simp))

/-- A lead byte that is the last one is cut off. -/
theorem cutOff_lead {a : UInt8} (lead : 0xC2 ≤ a ∧ a < 0xF5) : CutOff [a] := by
  obtain ⟨b, cont, second⟩ : ∃ b, Utf8.Cont b ∧ Utf8.Second a b := by
    by_cases low : a = 0xE0 ∨ a = 0xF0
    · exact ⟨0xA0, by decide, by unfold Utf8.Second; grind⟩
    · exact ⟨0x80, by decide, by unfold Utf8.Second; grind⟩
  have last : Utf8.Cont 0x80 := by decide
  by_cases two : a < 0xE0
  · exact ⟨b, [], .two lead.1 two cont⟩
  by_cases three : a < 0xF0
  · exact ⟨b, [0x80], .three (UInt8.not_lt.1 two) three cont second last⟩
  · exact ⟨b, [0x80, 0x80], .four (UInt8.not_lt.1 three) lead.2 cont second last last⟩

/-- One sequence more before the texts that are read. -/
theorem exists_cut_cons {c rest : Text} {n : Nat} {wide : Wide} (sequence : Utf8.Sequence c)
    (scalar : n = Utf8.scalar c) (reads : ∃ cut, CutOff cut ∧ rest = wstos wide ++ cut) :
    ∃ cut, CutOff cut ∧ c ++ rest = wstos (.ofNat n :: wide) ++ cut := by
  obtain ⟨cut, cutOff, rfl⟩ := reads
  refine ⟨cut, cutOff, ?_⟩
  rw [scalar, ← List.append_assoc]
  refine congrArg (· ++ cut) ?_
  rw [wstos, wstos, List.flatMap_cons, sequence.encode_ofNat]

theorem exists_cut_of_fromBytes {s : Text} {wide : Wide} (reads : fromBytes s = some wide) :
    ∃ cut, CutOff cut ∧ s = wstos wide ++ cut := by
  have last : Utf8.Cont 0x80 := by decide
  fun_induction fromBytes s generalizing wide with
  | case1 =>
      cases reads
      exact ⟨[], cutOff_nil, rfl⟩
  | case2 a rest low ih =>
      obtain ⟨tail, inner, rfl⟩ := Option.map_eq_some_iff.1 reads
      exact exists_cut_cons (.one low) rfl (ih inner)
  | case4 a _ lead =>
      cases reads
      exact ⟨[a], cutOff_lead (Decidable.not_not.1 lead), rfl⟩
  | case6 a _ lead b rest follows two ih =>
      obtain ⟨tail, inner, rfl⟩ := Option.map_eq_some_iff.1 reads
      obtain ⟨low, -⟩ := Decidable.not_not.1 lead
      obtain ⟨cont, -⟩ := Decidable.not_not.1 follows
      exact exists_cut_cons (.two low two cont) rfl (ih inner)
  | case7 a _ lead b follows more =>
      cases reads
      obtain ⟨cont, second⟩ := Decidable.not_not.1 follows
      refine ⟨[a, b], ?_, rfl⟩
      by_cases three : a < 0xF0
      · exact ⟨0x80, [], .three (UInt8.not_lt.1 more) three cont second last⟩
      · exact ⟨0x80, [0x80], .four (UInt8.not_lt.1 three) (Decidable.not_not.1 lead).2 cont second
          last last⟩
  | case9 a _ lead b follows more c rest third three ih =>
      obtain ⟨tail, inner, rfl⟩ := Option.map_eq_some_iff.1 reads
      obtain ⟨cont, second⟩ := Decidable.not_not.1 follows
      exact exists_cut_cons (.three (UInt8.not_lt.1 more) three cont second
        (Decidable.not_not.1 third)) (codePoint_three a b c) (ih inner)
  | case10 a _ lead b follows _ c third more =>
      cases reads
      obtain ⟨cont, second⟩ := Decidable.not_not.1 follows
      exact ⟨[a, b, c], ⟨0x80, [], .four (UInt8.not_lt.1 more) (Decidable.not_not.1 lead).2 cont
        second (Decidable.not_not.1 third) last⟩, rfl⟩
  | case12 a _ lead b follows _ c third more d rest fourth ih =>
      obtain ⟨tail, inner, rfl⟩ := Option.map_eq_some_iff.1 reads
      obtain ⟨cont, second⟩ := Decidable.not_not.1 follows
      exact exists_cut_cons (.four (UInt8.not_lt.1 more) (Decidable.not_not.1 lead).2 cont second
        (Decidable.not_not.1 third) (Decidable.not_not.1 fourth)) (codePoint_four a b c d)
        (ih inner)
  | _ => cases reads

/-- **What the converter reads**: what is written of some characters, and at most the beginning of
one sequence more. -/
theorem fromBytes_eq_some_iff (s : Text) (wide : Wide) :
    fromBytes s = some wide ↔ ∃ cut, CutOff cut ∧ s = wstos wide ++ cut := by
  constructor
  · exact exists_cut_of_fromBytes
  · rintro ⟨cut, cutOff, rfl⟩
    induction wide with
    | nil => exact cutOff.fromBytes
    | cons ch wide ih =>
        have split : wstos (ch :: wide) ++ cut =
            String.utf8EncodeChar ch ++ (wstos wide ++ cut) := by
          rw [← List.append_assoc]
          exact congrArg (· ++ cut) List.flatMap_cons
        rw [split, fromBytes_append (Utf8.sequence_encode ch), ih, ofNat_scalar]
        rfl

theorem fromBytes_wstos (w : Wide) : fromBytes (wstos w) = some w :=
  (fromBytes_eq_some_iff _ _).2 ⟨[], cutOff_nil, (List.append_nil _).symm⟩

theorem stows_wstos (w : Wide) : stows (wstos w) = w := by
  rw [stows, fromBytes_wstos]
  rfl

theorem wellFormed_wstos (w : Wide) : Utf8.WellFormed (wstos w) :=
  (Utf8.wellFormed_iff_encodes _).2 ⟨w, rfl⟩

/-- A text is read if and only if it can be completed. -/
theorem isSome_fromBytes_iff (s : Text) :
    (fromBytes s).isSome = true ↔ ∃ more, Utf8.WellFormed (s ++ more) := by
  constructor
  · intro readable
    obtain ⟨wide, reads⟩ := Option.isSome_iff_exists.1 readable
    obtain ⟨cut, ⟨b, more, sequence⟩, rfl⟩ := (fromBytes_eq_some_iff _ _).1 reads
    refine ⟨b :: more, ?_⟩
    rw [List.append_assoc]
    have complete : Utf8.WellFormed (cut ++ b :: more) := by
      rw [← List.append_nil (cut ++ b :: more)]
      exact .append sequence .nil
    obtain ⟨chars, same⟩ := (Utf8.wellFormed_iff_encodes _).1 complete
    exact (Utf8.wellFormed_iff_encodes _).2 ⟨wide ++ chars, by
      rw [List.flatMap_append, ← wstos, same]⟩
  · rintro ⟨more, formed⟩
    generalize whole : s ++ more = t at formed
    induction formed generalizing s with
    | nil =>
        rw [(List.append_eq_nil_iff.1 whole).1]
        rfl
    | @append c l first _ ih =>
        rcases List.append_eq_append_iff.1 whole with ⟨rest, rfl, rfl⟩ | ⟨rest, rfl, rfl⟩
        · -- the text ends inside this sequence, or just behind it
          cases rest with
          | nil =>
              rw [List.append_nil] at first
              rw [← List.append_nil s, fromBytes_append first]
              rfl
          | cons b rest =>
              rw [CutOff.fromBytes ⟨b, rest, first⟩]
              rfl
        · rw [fromBytes_append first, Option.isSome_map]
          exact ih rest rfl

/-! ## Texts that are no UTF-8 -/

theorem stows_of_unreadable {s : Text} (unreadable : fromBytes s = none) :
    stows s = s.map fun b => .ofNat b.toNat := by
  rw [stows, unreadable]
  rfl

theorem ofNat_byte_injective : Function.Injective fun b : UInt8 => Char.ofNat b.toNat := by
  have back (b : UInt8) : (Char.ofNat b.toNat).toNat = b.toNat := by
    rw [Char.ofNat, dif_pos (.inl (Nat.lt_trans b.toNat_lt (by decide)))]
    rfl
  intro b c same
  have toNat := congrArg Char.toNat same
  simp only [back] at toNat
  exact UInt8.toNat_inj.1 toNat

/-- The reading byte by byte gives up no byte. -/
theorem eq_of_stows_unreadable {s t : Text} (unreadable : fromBytes s = none)
    (unreadable' : fromBytes t = none) (same : stows s = stows t) : s = t := by
  rw [stows_of_unreadable unreadable, stows_of_unreadable unreadable'] at same
  exact List.map_injective_iff.2 ofNat_byte_injective same

/-- **What the conversions keep.**  What `wstos` writes passes the check and is read back.  The
converter reads just the texts that can be completed to one that passes, and gives the wide form of
what passes of them, all but the beginning of a sequence.  Those that pass survive the way there
and back, they are read piece by piece, and two texts with one wide form are the same if both pass
or if neither is read. -/
theorem converter_exact :
    (∀ w : Wide, stows (wstos w) = w ∧ isValidUtf8Simd (.bytes (wstos w)) = true) ∧
      (∀ s : Text, (fromBytes s).isSome = true ↔
        ∃ more, isValidUtf8Simd (.bytes (s ++ more)) = true) ∧
      (∀ s : Text, (fromBytes s).isSome = true → ∃ kept cut, s = kept ++ cut ∧ CutOff cut ∧
        isValidUtf8Simd (.bytes kept) = true ∧ stows s = stows kept) ∧
      (∀ s : Text, wstos (stows s) = s ↔ isValidUtf8Simd (.bytes s) = true) ∧
      (∀ s t : Text, isValidUtf8Simd (.bytes s) = true → isValidUtf8Simd (.bytes t) = true →
        stows (s ++ t) = stows s ++ stows t ∧ isValidUtf8Simd (.bytes (s ++ t)) = true) ∧
      ∀ s t : Text, stows s = stows t →
        isValidUtf8Simd (.bytes s) = true ∧ isValidUtf8Simd (.bytes t) = true ∨
          fromBytes s = none ∧ fromBytes t = none → s = t := by
  have formed (s : Text) : isValidUtf8Simd (.bytes s) = true ↔ Utf8.WellFormed s :=
    isValidUtf8Simd_bytes_iff s
  have back (s : Text) : wstos (stows s) = s ↔ isValidUtf8Simd (.bytes s) = true :=
    (wstos_stows_iff s).trans (formed s).symm
  have written (w : Wide) : isValidUtf8Simd (.bytes (wstos w)) = true :=
    (formed _).2 (wellFormed_wstos w)
  refine ⟨fun w => ⟨stows_wstos w, written w⟩, ?_, ?_, back, ?_, ?_⟩
  · intro s
    simp only [formed]
    exact isSome_fromBytes_iff s
  · intro s readable
    obtain ⟨wide, reads⟩ := Option.isSome_iff_exists.1 readable
    obtain ⟨cut, cutOff, same⟩ := (fromBytes_eq_some_iff s wide).1 reads
    refine ⟨wstos wide, cut, same, cutOff, written wide, ?_⟩
    rw [stows_wstos, stows, reads]
    rfl
  · intro s t passes passes'
    have joined : s ++ t = wstos (stows s ++ stows t) := by
      rw [wstos, List.flatMap_append, ← wstos, ← wstos, (back s).2 passes, (back t).2 passes']
    rw [joined]
    exact ⟨stows_wstos _, written _⟩
  · rintro s t same (⟨passes, passes'⟩ | ⟨unreadable, unreadable'⟩)
    · rw [← (back s).2 passes, same]
      exact (back t).2 passes'
    · exact eq_of_stows_unreadable unreadable unreadable' same

end Refsapi
