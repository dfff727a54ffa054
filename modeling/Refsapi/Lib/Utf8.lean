/-
# Lib.Utf8 -- well-formed UTF-8, and a scan that looks three bytes back

`WellFormed` is the grammar: a concatenation of the byte sequences of one to
four bytes in which every lead byte is followed by as many continuation bytes as
it announces, the second byte being restricted after `E0` and `F0` (shortest
form), `ED` (no surrogates) and `F4` (nothing above U+10FFFF).

`Scan` is the same language read one byte at a time with no state but the last
three bytes: a byte is a continuation byte exactly when one of the three bytes
before it still owes it (`Window.Owes`).  A validator that works on bit masks
checks the conditions of `Scan` position by position, in any order, and need not
know where a sequence begins (`steps_take_iff`).  `scan_iff_wellFormed` says
that the two agree from every window that owes nothing, so a scan may be
restarted at any such place (`wellFormed_iff_drop`).

The sequences of the grammar are the encodings of the Unicode scalar values, so
well-formed UTF-8 is the encoding of a list of them (`wellFormed_iff_encodes`).
-/
import Mathlib.Data.List.Basic
import Mathlib.Tactic.Tauto

namespace Utf8

set_option autoImplicit false

/-! ## Byte classes -/

/-- A continuation byte, `10xxxxxx`. -/
def Cont (b : UInt8) : Prop := 0x80 ≤ b ∧ b < 0xC0

/-- A byte that occurs in UTF-8 at all: not `C0`, `C1` or `F5..FF`. -/
def Allowed (b : UInt8) : Prop := b ≠ 0xC0 ∧ b ≠ 0xC1 ∧ b < 0xF5

/-- What the second byte of a sequence must satisfy beyond being a continuation
byte.  Vacuous unless the lead is one of `E0`, `ED`, `F0`, `F4`. -/
def Second (lead b : UInt8) : Prop :=
  (lead = 0xE0 → 0xA0 ≤ b) ∧ (lead = 0xED → b < 0xA0) ∧
    (lead = 0xF0 → 0x90 ≤ b) ∧ (lead = 0xF4 → b < 0x90)

instance (b : UInt8) : Decidable (Cont b) := inferInstanceAs (Decidable (_ ∧ _))
instance (b : UInt8) : Decidable (Allowed b) := inferInstanceAs (Decidable (_ ∧ _ ∧ _))
instance (a b : UInt8) : Decidable (Second a b) := inferInstanceAs (Decidable (_ ∧ _))

theorem Cont.allowed {b : UInt8} (cont : Cont b) : Allowed b := by
  unfold Cont at cont
  unfold Allowed
  grind

theorem second_of_ne {lead b : UInt8} (plain : lead < 0xE0) : Second lead b := by
  unfold Second
  grind

/-! ## The grammar -/

/-- One well-formed sequence. -/
inductive Sequence : List UInt8 → Prop where
  | one {a : UInt8} : a < 0x80 → Sequence [a]
  | two {a b : UInt8} : 0xC2 ≤ a → a < 0xE0 → Cont b → Sequence [a, b]
  | three {a b c : UInt8} : 0xE0 ≤ a → a < 0xF0 → Cont b → Second a b → Cont c →
      Sequence [a, b, c]
  | four {a b c d : UInt8} : 0xF0 ≤ a → a < 0xF5 → Cont b → Second a b → Cont c → Cont d →
      Sequence [a, b, c, d]

/-- A concatenation of well-formed sequences. -/
inductive WellFormed : List UInt8 → Prop where
  | nil : WellFormed []
  | append {c l : List UInt8} : Sequence c → WellFormed l → WellFormed (c ++ l)

/-- `n` continuation bytes, then well-formed UTF-8. -/
def Tails : Nat → List UInt8 → Prop
  | 0, l => WellFormed l
  | _ + 1, [] => False
  | n + 1, b :: l => Cont b ∧ Tails n l

/-- What may follow the lead byte `a` of an `n + 2` byte sequence. -/
def After (a : UInt8) (n : Nat) : List UInt8 → Prop
  | [] => False
  | b :: l => Cont b ∧ Second a b ∧ Tails n l

/-- A well-formed string, split at its first byte. -/
theorem wellFormed_cons_iff (a : UInt8) (l : List UInt8) :
    WellFormed (a :: l) ↔
      (a < 0x80 ∧ WellFormed l) ∨ (0xC2 ≤ a ∧ a < 0xE0 ∧ After a 0 l) ∨
        (0xE0 ≤ a ∧ a < 0xF0 ∧ After a 1 l) ∨ (0xF0 ≤ a ∧ a < 0xF5 ∧ After a 2 l) := by
  constructor
  · intro formed
    generalize shape : a :: l = s at formed
    cases formed with
    | nil => cases shape
    | append first rest =>
        cases first with
        | one ascii =>
            cases shape
            exact .inl ⟨ascii, rest⟩
        | two low high cont =>
            cases shape
            exact .inr (.inl ⟨low, high, cont, second_of_ne high, rest⟩)
        | three low high cont second cont₂ =>
            cases shape
            exact .inr (.inr (.inl ⟨low, high, cont, second, cont₂, rest⟩))
        | four low high cont second cont₂ cont₃ =>
            cases shape
            exact .inr (.inr (.inr ⟨low, high, cont, second, cont₂, cont₃, rest⟩))
  · rintro (⟨ascii, rest⟩ | ⟨low, high, after⟩ | ⟨low, high, after⟩ | ⟨low, high, after⟩)
    · exact .append (.one ascii) rest
    · match l, after with
      | b :: _, ⟨cont, _, rest⟩ => exact .append (c := [a, b]) (.two low high cont) rest
    · match l, after with
      | b :: c :: _, ⟨cont, second, cont₂, rest⟩ =>
          exact .append (c := [a, b, c]) (.three low high cont second cont₂) rest
    · match l, after with
      | b :: c :: d :: _, ⟨cont, second, cont₂, cont₃, rest⟩ =>
          exact .append (c := [a, b, c, d]) (.four low high cont second cont₂ cont₃) rest

/-! ## The scan -/

/-- The last three bytes read, the latest first. -/
structure Window where
  w1 : UInt8
  w2 : UInt8
  w3 : UInt8
  deriving DecidableEq, Repr

namespace Window

/-- Before the first byte. -/
def start : Window := ⟨0, 0, 0⟩

def push (w : Window) (b : UInt8) : Window := ⟨b, w.w1, w.w2⟩

/-- The next byte is owed to one of the last three. -/
def Owes (w : Window) : Prop := 0xC0 ≤ w.w1 ∨ 0xE0 ≤ w.w2 ∨ 0xF0 ≤ w.w3

instance (w : Window) : Decidable w.Owes := inferInstanceAs (Decidable (_ ∨ _ ∨ _))

/-- The window after a string. -/
def pushAll (w : Window) (l : List UInt8) : Window := l.foldl push w

@[simp] theorem pushAll_nil (w : Window) : w.pushAll [] = w := rfl

@[simp] theorem pushAll_cons (w : Window) (b : UInt8) (l : List UInt8) :
    w.pushAll (b :: l) = (w.push b).pushAll l := rfl

theorem start_owes : ¬ start.Owes := by decide

end Window

/-- Byte `b` may be read after the window `w`. -/
def StepOk (w : Window) (b : UInt8) : Prop :=
  Allowed b ∧ (Cont b ↔ w.Owes) ∧ Second w.w1 b

instance (w : Window) (b : UInt8) : Decidable (StepOk w b) :=
  inferInstanceAs (Decidable (_ ∧ _ ∧ _))

/-- Every byte of a string may be read, starting from the window `w`. -/
def Steps : Window → List UInt8 → Prop
  | _, [] => True
  | w, b :: l => StepOk w b ∧ Steps (w.push b) l

/-- Every byte may be read and nothing is owed at the end. -/
def Scan (w : Window) (l : List UInt8) : Prop := Steps w l ∧ ¬ (w.pushAll l).Owes

@[simp] theorem scan_nil (w : Window) : Scan w [] ↔ ¬ w.Owes := by simp [Scan, Steps]

@[simp] theorem scan_cons (w : Window) (b : UInt8) (l : List UInt8) :
    Scan w (b :: l) ↔ StepOk w b ∧ Scan (w.push b) l := by
  simp [Scan, Steps, and_assoc]

theorem steps_append (w : Window) (l r : List UInt8) :
    Steps w (l ++ r) ↔ Steps w l ∧ Steps (w.pushAll l) r := by
  induction l generalizing w with
  | nil => simp [Steps]
  | cons b l ih => simp [Steps, ih, and_assoc]

theorem pushAll_append (w : Window) (l r : List UInt8) :
    w.pushAll (l ++ r) = (w.pushAll l).pushAll r := by simp [Window.pushAll]

theorem scan_append (w : Window) (l r : List UInt8) :
    Scan w (l ++ r) ↔ Steps w l ∧ Scan (w.pushAll l) r := by
  simp only [Scan, steps_append, pushAll_append, and_assoc]

/-- An owed byte is any continuation byte that suits the lead before it. -/
theorem stepOk_of_owes {w : Window} (owes : w.Owes) (b : UInt8) :
    StepOk w b ↔ Cont b ∧ Second w.w1 b := by
  unfold StepOk
  constructor
  · rintro ⟨-, cont, second⟩
    exact ⟨cont.2 owes, second⟩
  · rintro ⟨cont, second⟩
    exact ⟨cont.allowed, ⟨fun _ => owes, fun _ => cont⟩, second⟩

/-- Where nothing is owed, the next byte starts a sequence. -/
theorem stepOk_of_not_owes {w : Window} (free : ¬ w.Owes) (b : UInt8) :
    StepOk w b ↔ Allowed b ∧ ¬ Cont b := by
  have plain : w.w1 < 0xE0 := by
    unfold Window.Owes at free
    grind
  unfold StepOk
  have second : Second w.w1 b := second_of_ne plain
  tauto

/-! ## How much a window owes -/

namespace Window

/-- The byte after the next is owed as well. -/
def Owes2 (w : Window) : Prop := 0xE0 ≤ w.w1 ∨ 0xF0 ≤ w.w2

/-- All of the next three bytes are owed. -/
def Owes3 (w : Window) : Prop := 0xF0 ≤ w.w1

/-- The window owes exactly `n` bytes. -/
def Count (w : Window) (n : Nat) : Prop :=
  (w.Owes ↔ 1 ≤ n) ∧ (w.Owes2 ↔ 2 ≤ n) ∧ (w.Owes3 ↔ 3 ≤ n)

theorem count_zero {w : Window} : w.Count 0 ↔ ¬ w.Owes := by
  unfold Count Owes Owes2 Owes3
  grind

theorem push_owes (w : Window) {b : UInt8} (low : b < 0xC0) :
    ((w.push b).Owes ↔ w.Owes2) ∧ ((w.push b).Owes2 ↔ w.Owes3) ∧ ¬ (w.push b).Owes3 := by
  unfold Owes Owes2 Owes3 push
  grind

/-- A continuation byte pays for one. -/
theorem Count.cont {w : Window} {n : Nat} (count : w.Count (n + 1)) (bound : n ≤ 2) {b : UInt8}
    (cont : Cont b) : (w.push b).Count n := by
  obtain ⟨one, two, three⟩ := w.push_owes cont.2
  obtain ⟨-, owes2, owes3⟩ := count
  refine ⟨one.trans (owes2.trans ?_), two.trans (owes3.trans ?_), ?_⟩
  · omega
  · omega
  · exact iff_of_false three (by omega)

/-- An ASCII byte where nothing is owed leaves nothing owed. -/
theorem Count.ascii {w : Window} (count : w.Count 0) {b : UInt8} (ascii : b < 0x80) :
    (w.push b).Count 0 := by
  unfold Count Owes Owes2 Owes3 push at *
  grind

/-- A lead byte where nothing is owed announces its tail. -/
theorem Count.lead {w : Window} (count : w.Count 0) (a : UInt8) :
    (0xC0 ≤ a → a < 0xE0 → (w.push a).Count 1) ∧ (0xE0 ≤ a → a < 0xF0 → (w.push a).Count 2) ∧
      (0xF0 ≤ a → (w.push a).Count 3) := by
  unfold Count Owes Owes2 Owes3 push at *
  grind

end Window

/-! ## The scan reads the grammar -/

theorem scan_nil_of_count {w : Window} {n : Nat} (count : w.Count (n + 1)) : ¬ Scan w [] := by
  simpa using count.1.2 (by omega)

theorem scan_cons_of_count {w : Window} {n : Nat} (count : w.Count (n + 1)) (b : UInt8)
    (l : List UInt8) : Scan w (b :: l) ↔ Cont b ∧ Second w.w1 b ∧ Scan (w.push b) l := by
  rw [scan_cons, stepOk_of_owes (count.1.2 (by omega)), and_assoc]

/-- Past the second byte of a sequence the scan reads the owed tails.  `step` is
the induction hypothesis of `scan_iff_wellFormed`. -/
theorem scan_tails (n : Nat) (w : Window) (l : List UInt8) (bound : n ≤ 2) (count : w.Count n)
    (plain : w.w1 < 0xC0)
    (step : ∀ w l', l'.length ≤ l.length → w.Count 0 → (Scan w l' ↔ WellFormed l')) :
    Scan w l ↔ Tails n l := by
  induction n generalizing w l with
  | zero => exact step w l (Nat.le_refl _) count
  | succ n ih =>
      cases l with
      | nil => simpa [Tails] using scan_nil_of_count count
      | cons b l =>
          have second : Second w.w1 b := second_of_ne (by grind)
          rw [scan_cons_of_count count]
          simp only [Tails, second, true_and]
          refine and_congr_right fun cont => ?_
          exact ih (w.push b) l (by omega) (count.cont (by omega) cont) cont.2
            fun w l' short => step w l' (by simp; omega)

/-- The scan after the lead byte of an `n + 2` byte sequence. -/
theorem scan_after (n : Nat) (w : Window) (l : List UInt8) (bound : n ≤ 2)
    (count : w.Count (n + 1))
    (step : ∀ w l', l'.length ≤ l.length → w.Count 0 → (Scan w l' ↔ WellFormed l')) :
    Scan w l ↔ After w.w1 n l := by
  cases l with
  | nil => simpa [After] using scan_nil_of_count count
  | cons b l =>
      rw [scan_cons_of_count count, After]
      refine and_congr_right fun cont => and_congr_right fun _ => ?_
      exact scan_tails n (w.push b) l bound (count.cont bound cont) cont.2
        fun w l' short => step w l' (by simp; omega)

/-- **The scan accepts exactly well-formed UTF-8**, from every window that owes
nothing. -/
theorem scan_iff_wellFormed (w : Window) (l : List UInt8) (count : w.Count 0) :
    Scan w l ↔ WellFormed l := by
  induction h : l.length using Nat.strongRecOn generalizing w l with
  | ind m ih =>
      cases l with
      | nil => simpa [WellFormed.nil] using Window.count_zero.1 count
      | cons a l =>
          have step : ∀ w l', l'.length ≤ l.length → w.Count 0 → (Scan w l' ↔ WellFormed l') :=
            fun w l' short count => ih l'.length (by simp at h; omega) w l' count rfl
          rw [wellFormed_cons_iff, scan_cons, stepOk_of_not_owes (Window.count_zero.1 count)]
          obtain ⟨two, three, four⟩ := count.lead a
          -- The four lead ranges exclude each other; every other byte is refused by both.
          by_cases ascii : a < 0x80
          · have := step (w.push a) l (Nat.le_refl _) (count.ascii ascii)
            unfold Allowed Cont
            grind
          by_cases below : a < 0xC2
          · unfold Allowed Cont
            grind
          by_cases isTwo : a < 0xE0
          · have := scan_after 0 (w.push a) l (by omega) (two (by grind) isTwo) step
            simp only [Window.push] at this
            unfold Allowed Cont Window.push
            grind
          by_cases isThree : a < 0xF0
          · have := scan_after 1 (w.push a) l (by omega) (three (by grind) isThree) step
            simp only [Window.push] at this
            unfold Allowed Cont Window.push
            grind
          · have := scan_after 2 (w.push a) l (by omega) (four (by grind)) step
            simp only [Window.push] at this
            unfold Allowed Cont Window.push
            grind

/-! ## The scan by position -/

/-- The byte `k` places before position `j`; zero before the first byte. -/
def before (l : List UInt8) (j k : Nat) : UInt8 := if k ≤ j then l.getD (j - k) 0 else 0

/-- The window in front of position `j`. -/
def windowAt (l : List UInt8) (j : Nat) : Window := ⟨before l j 1, before l j 2, before l j 3⟩

@[simp] theorem windowAt_zero (l : List UInt8) : windowAt l 0 = Window.start := rfl

theorem windowAt_succ (l : List UInt8) (j : Nat) :
    windowAt l (j + 1) = (windowAt l j).push (l.getD j 0) := by
  simp [windowAt, Window.push, before]

theorem pushAll_take (l : List UInt8) (j : Nat) (within : j ≤ l.length) :
    Window.start.pushAll (l.take j) = windowAt l j := by
  induction j with
  | zero => rfl
  | succ j ih =>
      have inside : j < l.length := within
      rw [List.take_succ_eq_append_getElem inside, pushAll_append, ih (Nat.le_of_lt inside),
        windowAt_succ]
      simp [inside]

/-- Reading a prefix is a condition on each of its positions, in any order. -/
theorem steps_take_iff (l : List UInt8) (i : Nat) (within : i ≤ l.length) :
    Steps Window.start (l.take i) ↔ ∀ j < i, StepOk (windowAt l j) (l.getD j 0) := by
  induction i with
  | zero => simp [Steps]
  | succ i ih =>
      have inside : i < l.length := within
      rw [List.take_succ_eq_append_getElem inside, steps_append, ih (Nat.le_of_lt inside),
        pushAll_take l i (Nat.le_of_lt inside), Nat.forall_lt_succ_right]
      simp [Steps, inside]

/-- When every position before `k` may be read and nothing is owed at `k`, the
rest decides. -/
theorem wellFormed_iff_drop (l : List UInt8) (k : Nat) (within : k ≤ l.length)
    (steps : ∀ j < k, StepOk (windowAt l j) (l.getD j 0)) (free : ¬ (windowAt l k).Owes) :
    WellFormed l ↔ WellFormed (l.drop k) := by
  rw [← scan_iff_wellFormed Window.start l (Window.count_zero.2 Window.start_owes),
    ← scan_iff_wellFormed (windowAt l k) (l.drop k) (Window.count_zero.2 free)]
  conv_lhs => rw [← List.take_append_drop k l]
  rw [scan_append, steps_take_iff l k within, pushAll_take l k within]
  exact and_iff_right steps

/-- A well-formed string may be read at every position. -/
theorem WellFormed.stepOk {l : List UInt8} (formed : WellFormed l) (j : Nat)
    (inside : j < l.length) : StepOk (windowAt l j) (l.getD j 0) := by
  have scan := (scan_iff_wellFormed Window.start l
    (Window.count_zero.2 Window.start_owes)).2 formed
  exact (steps_take_iff l l.length (Nat.le_refl _)).1 (by simpa using scan.1) j inside

/-! ## The grammar is the encoding of scalar values -/

/-- The byte with the given value. -/
theorem toNat_ofNat {v : Nat} (small : v < 256) : (UInt8.ofNat v).toNat = v := by
  simp [UInt8.toNat_ofNat', Nat.mod_eq_of_lt small]

theorem sequence_encode (ch : Char) : Sequence (String.utf8EncodeChar ch) := by
  have valid := ch.valid
  simp only [UInt32.isValidChar, Nat.isValidChar] at valid
  have value : ch.val.toNat = ch.toNat := rfl
  unfold String.utf8EncodeChar
  simp only [value] at valid ⊢
  generalize ch.toNat = v at valid
  split
  · refine .one ?_
    simp only [UInt8.lt_iff_toNat_lt, UInt8.reduceToNat]
    rw [toNat_ofNat (by omega)]
    omega
  split
  · apply Sequence.two <;>
      simp only [Cont, UInt8.lt_iff_toNat_lt, UInt8.le_iff_toNat_le, UInt8.reduceToNat] <;>
      repeat rw [toNat_ofNat (by omega)]
    all_goals omega
  split
  · apply Sequence.three <;>
      simp only [Cont, Second, UInt8.lt_iff_toNat_lt, UInt8.le_iff_toNat_le, ← UInt8.toNat_inj,
        UInt8.reduceToNat] <;>
      repeat rw [toNat_ofNat (by omega)]
    all_goals omega
  · apply Sequence.four <;>
      simp only [Cont, Second, UInt8.lt_iff_toNat_lt, UInt8.le_iff_toNat_le, ← UInt8.toNat_inj,
        UInt8.reduceToNat] <;>
      repeat rw [toNat_ofNat (by omega)]
    all_goals omega

/-- The scalar value that a sequence encodes. -/
def scalar : List UInt8 → Nat
  | [a] => a.toNat
  | [a, b] => (a.toNat - 0xC0) * 64 + (b.toNat - 0x80)
  | [a, b, c] => (a.toNat - 0xE0) * 4096 + (b.toNat - 0x80) * 64 + (c.toNat - 0x80)
  | [a, b, c, d] =>
      (a.toNat - 0xF0) * 262144 + (b.toNat - 0x80) * 4096 + (c.toNat - 0x80) * 64 +
        (d.toNat - 0x80)
  | _ => 0

theorem scalar_one (a : UInt8) : scalar [a] = a.toNat := rfl

theorem scalar_two (a b : UInt8) :
    scalar [a, b] = (a.toNat - 0xC0) * 64 + (b.toNat - 0x80) := rfl

theorem scalar_three (a b c : UInt8) : scalar [a, b, c] =
    (a.toNat - 0xE0) * 4096 + (b.toNat - 0x80) * 64 + (c.toNat - 0x80) := rfl

theorem scalar_four (a b c d : UInt8) : scalar [a, b, c, d] =
    (a.toNat - 0xF0) * 262144 + (b.toNat - 0x80) * 4096 + (c.toNat - 0x80) * 64 +
      (d.toNat - 0x80) := rfl

/-- The character with the scalar value of a sequence is encoded by it. -/
theorem Sequence.encode_scalar {c : List UInt8} (sequence : Sequence c) :
    (scalar c).isValidChar ∧
      ∀ ch : Char, ch.val.toNat = scalar c → String.utf8EncodeChar ch = c := by
  cases sequence with
  | @one a ascii =>
      simp only [UInt8.lt_iff_toNat_lt, UInt8.reduceToNat] at ascii
      rw [scalar_one]
      refine ⟨.inl (by omega), fun ch value => ?_⟩
      simp only [String.utf8EncodeChar, value]
      rw [if_pos (by omega), UInt8.ofNat_toNat]
  | @two a b low high cont =>
      simp only [Cont, UInt8.lt_iff_toNat_lt, UInt8.le_iff_toNat_le, UInt8.reduceToNat]
        at low high cont
      rw [scalar_two]
      refine ⟨.inl (by omega), fun ch value => ?_⟩
      simp only [String.utf8EncodeChar, value]
      rw [if_neg (by omega), if_pos (by omega)]
      simp only [List.cons.injEq, ← UInt8.toNat_inj, and_true]
      repeat rw [toNat_ofNat (by omega)]
      omega
  | @three a b c low high cont second cont₂ =>
      simp only [Cont, Second, UInt8.lt_iff_toNat_lt, UInt8.le_iff_toNat_le, ← UInt8.toNat_inj,
        UInt8.reduceToNat] at low high cont second cont₂
      rw [scalar_three]
      refine ⟨by simp only [Nat.isValidChar]; omega, fun ch value => ?_⟩
      simp only [String.utf8EncodeChar, value]
      rw [if_neg (by omega), if_neg (by omega), if_pos (by omega)]
      simp only [List.cons.injEq, ← UInt8.toNat_inj, and_true]
      repeat rw [toNat_ofNat (by omega)]
      omega
  | @four a b c d low high cont second cont₂ cont₃ =>
      simp only [Cont, Second, UInt8.lt_iff_toNat_lt, UInt8.le_iff_toNat_le, ← UInt8.toNat_inj,
        UInt8.reduceToNat] at low high cont second cont₂ cont₃
      rw [scalar_four]
      refine ⟨by simp only [Nat.isValidChar]; omega, fun ch value => ?_⟩
      simp only [String.utf8EncodeChar, value]
      rw [if_neg (by omega), if_neg (by omega), if_neg (by omega)]
      simp only [List.cons.injEq, ← UInt8.toNat_inj, and_true]
      repeat rw [toNat_ofNat (by omega)]
      omega

/-- Every well-formed sequence encodes its scalar value. -/
theorem Sequence.encode_ofNat {c : List UInt8} (sequence : Sequence c) :
    String.utf8EncodeChar (Char.ofNat (scalar c)) = c := by
  obtain ⟨valid, encodes⟩ := sequence.encode_scalar
  rw [Char.ofNat, dif_pos valid]
  exact encodes _ rfl

/-- **Well-formed UTF-8 is the encoding of a list of scalar values.** -/
theorem wellFormed_iff_encodes (l : List UInt8) :
    WellFormed l ↔ ∃ chars : List Char, chars.flatMap String.utf8EncodeChar = l := by
  constructor
  · intro formed
    induction formed with
    | nil => exact ⟨[], rfl⟩
    | append first _ ih =>
        obtain ⟨chars, rfl⟩ := ih
        exact ⟨_ :: chars, by rw [List.flatMap_cons, first.encode_ofNat]⟩
  · rintro ⟨chars, rfl⟩
    induction chars with
    | nil => exact .nil
    | cons ch chars ih => exact .append (sequence_encode ch) ih

end Utf8
