/-
# Mysql.Pacing -- in which frames `start_frame` looks for an answer

The managers do not take something out of `m_frames` in every frame of the server, but in every
`frame_rate`-th.  `calc_frame_delay` measures how long the frames take, once in an interval, and
moves `frame_rate` half the way to what that asks for.

The arithmetic is a parameter.  In every arithmetic `frame_rate` is at least 1, so that the
remainder is defined (`rate_of_reaches`); in an exact one it is bounded where the duration of a
frame is (`startFrame_steady`), and a bounded rate lets no answer wait (`turn_within`): it changes
at multiples of the interval only.
-/
import Mathlib
import Refsapi.Lib.Transition
import Refsapi.Misc.Clock
import Refsapi.Nicks.Score

namespace Refsapi.Pacing

set_option autoImplicit false

/-! ## `calc_frame_delay` -/

/-- `double`, its comparisons, and `(size_t)std::round(x)`, which is undefined for what a
`size_t` does not hold. -/
structure Doubles (F : Type) extends Nicks.Ops F where
  lt : F → F → Bool
  le : F → F → Bool
  roundSize : F → Option Nat

/-- `timespec_diff` -/
def Doubles.timespecDiff {F : Type} (D : Doubles F) (start finish : Timespec) : Option F :=
  let seconds : Int := finish.sec - start.sec
  let nanoseconds : Int := finish.nsec - start.nsec
  let (seconds, nanoseconds) :=
    if nanoseconds < 0 then (seconds - 1, nanoseconds + 1000000000) else (seconds, nanoseconds)
  (D.div (D.ofInt nanoseconds) (D.ofInt 1000000000)).map (D.add (D.ofInt seconds))

/-- What a manager knows of its frames. -/
structure Pacer (F : Type) where
  framesCount : Nat
  framePrev : Timespec
  frameDelay : F
  frameRate : Nat
  frameRateMax : Nat

/-- A frame: what the clock shows, and what the two cvars are. -/
structure Frame (F : Type) where
  now : Timespec
  k1Max : F
  k2Max : F

section

variable {F : Type} (D : Doubles F)

/-- `k1`: the frames have become slower. -/
def Frame.k1 (frame : Frame F) (frameDelay delay : F) : Option F :=
  if D.lt frameDelay delay then
    D.div (D.mul frame.k1Max (D.sub delay frameDelay)) (D.add frameDelay delay)
  else some (D.ofInt 1)

/-- `k2`: how far one frame is from a millisecond. -/
def Frame.k2 (frame : Frame F) (frameDelayMs : F) : Option F :=
  if D.le (D.ofInt 1) frameDelayMs then some (D.mul frame.k2Max frameDelayMs)
  else D.div frame.k2Max frameDelayMs

/-- The rate that `calc_frame_delay` finds. -/
def Pacer.nextRate (s : Pacer F) (interval : Nat) (frame : Frame F) (delay : F) : Option Nat :=
  if D.lt (D.ofInt 0) s.frameDelay then do
    let k1 ← frame.k1 D s.frameDelay delay
    let frameDelayMs ← D.div (D.mul (D.ofInt 1000) s.frameDelay) (D.ofInt interval)
    let k2 ← frame.k2 D frameDelayMs
    let wanted ← D.roundSize (D.add k1 k2)
    return max 1 ((s.frameRate + wanted) % 2 ^ 32 / 2)
  else some s.frameRate

/-- `calc_frame_delay` in a frame that is measured; `tv_sec` is never negative. -/
def Pacer.measure (s : Pacer F) (interval : Nat) (frame : Frame F) : Option (Pacer F) :=
  if 0 < s.framePrev.nsec.val then do
    let delay ← D.timespecDiff s.framePrev frame.now
    let frameRate ← s.nextRate D interval frame delay
    let frameRateMax := if s.frameRateMax < frameRate then frameRate else s.frameRateMax
    let frameDelay ← D.div (D.add s.frameDelay delay) (D.ofInt 2)
    return { s with framePrev := frame.now, frameDelay, frameRate, frameRateMax }
  else some { s with framePrev := frame.now }

def Pacer.calcFrameDelay (s : Pacer F) (interval : Nat) (frame : Frame F) : Option (Pacer F) :=
  if interval = 0 then none
  else if s.framesCount % interval = 0 then s.measure D interval frame
  else some s

/-- `start_frame`: whether it is the turn of `frame_forward`, and the state it leaves. -/
def Pacer.startFrame (s : Pacer F) (interval : Nat) (frame : Frame F) :
    Option (Bool × Pacer F) := do
  let s ← s.calcFrameDelay D interval frame
  if s.frameRate = 0 then none
  else return (s.framesCount % s.frameRate == 0, { s with framesCount := s.framesCount + 1 })

theorem sec_pos : 0 < 2 ^ 31 := by decide

theorem nsec_pos : 0 < 1000000000 := by decide

/-- A `timespec` of zeros, which stands for no reading. -/
def noTime : Timespec := ⟨⟨0, sec_pos⟩, ⟨0, nsec_pos⟩⟩

/-- The constructor of a manager. -/
def Pacer.start : Pacer F where
  framesCount := 0
  framePrev := noTime
  frameDelay := D.ofInt 1
  frameRate := 1
  frameRateMax := 1

/-- What `stop` does to it. -/
def Pacer.stop (s : Pacer F) : Pacer F :=
  { s with framesCount := 0, framePrev := noTime, frameDelay := D.ofInt 1 }

inductive PacerAction (F : Type) where
  | frame (frame : Frame F)
  | stop

def pacing (interval : Nat) : Machine (Pacer F) (PacerAction F) where
  init s := s = .start D
  step s
    | .frame frame => (s.startFrame D interval frame).map Prod.snd
    | .stop => some (s.stop D)

/-- Frames one after another: which of them are turns. -/
def Pacer.turns (interval : Nat) : List (Frame F) → Pacer F → Option (List Bool)
  | [], _ => some []
  | frame :: rest, s => do
      let (turn, s) ← s.startFrame D interval frame
      let turns ← Pacer.turns interval rest s
      return turn :: turns

end

/-! ## Every arithmetic -/

section

variable {F : Type} {D : Doubles F} {interval : Nat} {frame : Frame F} {s s' : Pacer F}

/-- The remainder by it is defined, and the largest one is kept. -/
structure Pacer.Rated (s : Pacer F) : Prop where
  pos : 0 < s.frameRate
  le : s.frameRate ≤ s.frameRateMax

theorem nextRate_pos {delay : F} {rate : Nat} (pos : 0 < s.frameRate)
    (found : s.nextRate D interval frame delay = some rate) : 0 < rate := by
  unfold Pacer.nextRate at found
  split at found
  · simp only [Option.bind_eq_bind, Option.bind_eq_some_iff] at found
    obtain ⟨k1, -, ms, -, k2, -, wanted, -, isRate⟩ := found
    obtain rfl := Option.some.inj isRate
    exact Nat.lt_of_lt_of_le Nat.one_pos (Nat.le_max_left _ _)
  · exact Option.some.inj found ▸ pos

/-- What a frame does: it counts, and only a measured one sets the rate. -/
theorem startFrame_cases {turn : Bool} (moved : s.startFrame D interval frame = some (turn, s')) :
    s'.framesCount = s.framesCount + 1 ∧ turn = (s.framesCount % s'.frameRate == 0) ∧
      (s.framesCount % interval ≠ 0 → s' = { s with framesCount := s.framesCount + 1 }) ∧
      (s.Rated → s'.Rated) := by
  simp only [Pacer.startFrame, Option.bind_eq_bind, Option.bind_eq_some_iff] at moved
  obtain ⟨t, calculated, moved⟩ := moved
  split at moved
  · cases moved
  · cases moved
    unfold Pacer.calcFrameDelay at calculated
    split at calculated
    · cases calculated
    · split at calculated
      · next measured =>
          have kept : t.framesCount = s.framesCount ∧ (s.Rated → t.Rated) := by
            unfold Pacer.measure at calculated
            split at calculated
            · simp only [Option.bind_eq_bind, Option.bind_eq_some_iff] at calculated
              obtain ⟨delay, -, rate, isRate, average, -, isNext⟩ := calculated
              obtain rfl := Option.some.inj isNext
              refine ⟨rfl, fun rated => ⟨?_, ?_⟩⟩
              · exact nextRate_pos rated.pos isRate
              · simp only
                split <;> omega
            · obtain rfl := Option.some.inj calculated
              exact ⟨rfl, fun rated => ⟨rated.pos, rated.le⟩⟩
          refine ⟨by rw [kept.1], by rw [kept.1], fun other => absurd measured other, ?_⟩
          exact fun rated => ⟨(kept.2 rated).pos, (kept.2 rated).le⟩
      · obtain rfl := Option.some.inj calculated
        exact ⟨rfl, rfl, fun _ => rfl, fun rated => ⟨rated.pos, rated.le⟩⟩

theorem rate_of_reaches {allowed : Pacer F → PacerAction F → Prop}
    (run : (pacing D interval).Reaches allowed s) : s.Rated := by
  refine Machine.Reaches.invariant (I := Pacer.Rated) ?_ ?_ run
  · rintro _ rfl
    exact ⟨Nat.one_pos, Nat.le_refl 1⟩
  · intro s a s' _ rated _ moved
    cases a with
    | frame frame =>
        obtain ⟨⟨turn, _⟩, starts, rfl⟩ := Option.map_eq_some_iff.1 moved
        exact (startFrame_cases starts).2.2.2 rated
    | stop =>
        obtain rfl := Option.some.inj moved
        exact ⟨rated.pos, rated.le⟩

/-! ## Turns -/

/-- The way to the next multiple. -/
theorem exists_multiple (c : Nat) {r : Nat} (pos : 0 < r) :
    ∃ k < r, (c + k) % r = 0 ∧ ∀ j < k, (c + j) % r ≠ 0 := by
  have below := Nat.mod_lt c pos
  by_cases now : c % r = 0
  · exact ⟨0, pos, now, fun j before => absurd before (Nat.not_lt_zero j)⟩
  · have parts := Nat.div_add_mod c r
    refine ⟨r - c % r, by omega, ?_, fun j before => ?_⟩
    · have whole : c + (r - c % r) = r * (c / r + 1) := by
        rw [Nat.mul_add, Nat.mul_one]
        omega
      rw [whole, Nat.mul_mod_right]
    · have rest : c + j = r * (c / r) + (c % r + j) := by omega
      rw [rest, Nat.mul_add_mod, Nat.mod_eq_of_lt (by omega)]
      omega

/-- No other multiple is near one. -/
theorem not_multiple {c r j : Nat} (now : c % r = 0) (later : 0 < j) (near : j < r) :
    (c + j) % r ≠ 0 := by
  rw [Nat.add_mod, now, Nat.zero_add, Nat.mod_mod, Nat.mod_eq_of_lt near]
  omega

/-- The frames can be taken one after another, with rates up to a bound. -/
def Paced (D : Doubles F) (interval bound : Nat) : Pacer F → List (Frame F) → Prop
  | _, [] => True
  | s, frame :: rest => ∃ turn s', s.startFrame D interval frame = some (turn, s') ∧
      0 < s'.frameRate ∧ s'.frameRate ≤ bound ∧ Paced D interval bound s' rest

/-- One of the frames is a turn. -/
def HasTurn (D : Doubles F) (interval : Nat) (s : Pacer F) (frames : List (Frame F)) : Prop :=
  ∃ turns, Pacer.turns D interval frames s = some turns ∧ true ∈ turns

variable {bound : Nat} {frames rest : List (Frame F)}

theorem exists_turns (paced : Paced D interval bound s frames) :
    ∃ turns, Pacer.turns D interval frames s = some turns := by
  induction frames generalizing s with
  | nil => exact ⟨[], rfl⟩
  | cons frame rest ih =>
      obtain ⟨turn, s', starts, -, -, later⟩ := paced
      obtain ⟨turns, found⟩ := ih later
      exact ⟨turn :: turns, by simp [Pacer.turns, starts, found]⟩

theorem hasTurn_now (starts : s.startFrame D interval frame = some (true, s'))
    (paced : Paced D interval bound s' rest) : HasTurn D interval s (frame :: rest) := by
  obtain ⟨turns, found⟩ := exists_turns paced
  exact ⟨true :: turns, by simp [Pacer.turns, starts, found], List.mem_cons_self⟩

theorem hasTurn_later {turn : Bool} (starts : s.startFrame D interval frame = some (turn, s'))
    (later : HasTurn D interval s' rest) : HasTurn D interval s (frame :: rest) := by
  obtain ⟨turns, found, member⟩ := later
  exact ⟨turn :: turns, by simp [Pacer.turns, starts, found], List.mem_cons_of_mem _ member⟩

/-- Between two measurements the rate stays, and the next multiple of it is a turn. -/
theorem hasTurn_unmeasured {k : Nat} (paced : Paced D interval bound s frames)
    (enough : k < frames.length) (unmeasured : ∀ j ≤ k, (s.framesCount + j) % interval ≠ 0)
    (multiple : (s.framesCount + k) % s.frameRate = 0) : HasTurn D interval s frames := by
  induction k generalizing s frames with
  | zero =>
      cases frames with
      | nil => exact absurd enough (Nat.not_lt_zero 0)
      | cons frame rest =>
          obtain ⟨turn, s', starts, -, -, later⟩ := paced
          obtain ⟨-, isTurn, same, -⟩ := startFrame_cases starts
          have isTrue : turn = true := by
            rw [isTurn, same (unmeasured 0 (Nat.le_refl 0))]
            exact beq_iff_eq.2 multiple
          exact hasTurn_now (isTrue ▸ starts) later
  | succ k ih =>
      cases frames with
      | nil => exact absurd enough (Nat.not_lt_zero _)
      | cons frame rest =>
          obtain ⟨turn, s', starts, -, -, later⟩ := paced
          have same := (startFrame_cases starts).2.2.1 (unmeasured 0 (Nat.zero_le _))
          subst same
          refine hasTurn_later starts (ih later (Nat.lt_of_succ_lt_succ enough) ?_ ?_)
          · intro j inside
            show (s.framesCount + 1 + j) % interval ≠ 0
            rw [Nat.add_assoc, Nat.add_comm 1 j]
            exact unmeasured (j + 1) (Nat.succ_le_succ inside)
          · show (s.framesCount + 1 + k) % s.frameRate = 0
            rw [Nat.add_assoc, Nat.add_comm 1 k]
            exact multiple

/-- A measurement, and then a turn, before the next one. -/
theorem hasTurn_measured (paced : Paced D interval bound s frames) (some : 0 < bound)
    (enough : bound ≤ frames.length) (fits : bound ≤ interval)
    (measured : s.framesCount % interval = 0) : HasTurn D interval s frames := by
  cases frames with
  | nil => exact absurd enough (Nat.not_le.2 some)
  | cons frame rest =>
      obtain ⟨turn, s', starts, pos, le, later⟩ := paced
      obtain ⟨count, isTurn, -, -⟩ := startFrame_cases starts
      obtain ⟨k, below, multiple, -⟩ := exists_multiple s.framesCount pos
      cases k with
      | zero =>
          have isTrue : turn = true := isTurn.trans (beq_iff_eq.2 multiple)
          exact hasTurn_now (isTrue ▸ starts) later
      | succ k =>
          rw [List.length_cons] at enough
          refine hasTurn_later starts (hasTurn_unmeasured later (k := k) (by omega) ?_ ?_)
          · intro j inside
            rw [count, Nat.add_assoc]
            exact not_multiple measured (by omega) (by omega)
          · rw [count, Nat.add_assoc, Nat.add_comm 1 k]
            exact multiple

theorem hasTurn_of_distance {d : Nat} (paced : Paced D interval bound s frames) (some : 0 < bound)
    (fits : bound ≤ interval) (enough : d + bound ≤ frames.length)
    (measured : (s.framesCount + d) % interval = 0)
    (unmeasured : ∀ j < d, (s.framesCount + j) % interval ≠ 0) : HasTurn D interval s frames := by
  induction d generalizing s frames with
  | zero => exact hasTurn_measured paced some (by omega) fits measured
  | succ d ih =>
      cases frames with
      | nil => simp at enough
      | cons frame rest =>
          obtain ⟨turn, s', starts, -, -, later⟩ := paced
          have same := (startFrame_cases starts).2.2.1 (unmeasured 0 (Nat.zero_lt_succ d))
          subst same
          rw [List.length_cons] at enough
          refine hasTurn_later starts (ih later (by omega) ?_ fun j inside => ?_)
          · show (s.framesCount + 1 + d) % interval = 0
            rw [Nat.add_assoc, Nat.add_comm 1 d]
            exact measured
          · show (s.framesCount + 1 + j) % interval ≠ 0
            rw [Nat.add_assoc, Nat.add_comm 1 j]
            exact unmeasured (j + 1) (Nat.succ_lt_succ inside)

/-- **A turn comes.**  While the rates are not above a bound that is not above the interval, one
of the frames of every stretch of twice the bound is a turn. -/
theorem turn_within (paced : Paced D interval bound s frames) (pos : 0 < s.frameRate)
    (le : s.frameRate ≤ bound) (fits : bound ≤ interval) (enough : 2 * bound ≤ frames.length) :
    HasTurn D interval s frames := by
  have some : 0 < bound := Nat.lt_of_lt_of_le pos le
  obtain ⟨d, -, measured, unmeasured⟩ :=
    exists_multiple s.framesCount (Nat.lt_of_lt_of_le some fits)
  by_cases near : d < bound
  · exact hasTurn_of_distance paced some fits (by omega) measured unmeasured
  · obtain ⟨k, below, multiple, -⟩ := exists_multiple s.framesCount pos
    exact hasTurn_unmeasured paced (by omega) (fun j inside => unmeasured j (by omega)) multiple

end

/-! ## Exact arithmetic -/

section

variable {K : Type} [Field K] [LinearOrder K] [FloorSemiring K]

variable (K) in
def Doubles.exact : Doubles K where
  toOps := Nicks.Ops.exact K
  lt x y := x < y
  le x y := x ≤ y
  roundSize x :=
    if 0 ≤ x ∧ ⌊x + 1 / 2⌋₊ < 2 ^ 32 then some ⌊x + 1 / 2⌋₊ else none

/-- How long a frame takes, in milliseconds: not less than `1 / ms` and not more than `ms`; and
the largest values of the two cvars. -/
structure Limits (K : Type) [Field K] [LinearOrder K] where
  ms : K
  k1 : K
  k2 : K
  ms_ge : 1 ≤ ms
  k1_ge : 1 ≤ k1
  k2_nonneg : 0 ≤ k2

/-- No rate is above it. -/
def Limits.rate (limits : Limits K) : Nat := ⌊limits.k1 + limits.k2 * limits.ms + 1 / 2⌋₊

/-- Seconds that an interval of such frames takes. -/
def Limits.Within (limits : Limits K) (interval : Nat) (delay : K) : Prop :=
  (interval : K) ≤ 1000 * delay * limits.ms ∧ 1000 * delay ≤ interval * limits.ms

/-- The seconds between two readings of the clock. -/
def secondsBetween (start finish : Timespec) : K := ((finish.ns - start.ns : Int) : K) / 1000000000

/-- The frame keeps to the limits. -/
structure InTime (limits : Limits K) (interval : Nat) (s : Pacer K) (frame : Frame K) : Prop where
  k1 : 0 ≤ frame.k1Max ∧ frame.k1Max ≤ limits.k1
  k2 : 0 ≤ frame.k2Max ∧ frame.k2Max ≤ limits.k2
  delay : s.framesCount % interval = 0 → 0 < s.framePrev.nsec.val →
    limits.Within interval (secondsBetween s.framePrev frame.now)

/-- The limits allow the second that `frame_delay` begins with, and the interval is a cell that
is not shorter than the rates. -/
structure Limits.Fit (limits : Limits K) (interval : Nat) : Prop where
  first : limits.Within interval 1
  rate : limits.rate ≤ interval
  cell : interval < 2 ^ 31

/-- The delay is in the limits, and so is the rate. -/
structure Pacer.Steady (limits : Limits K) (interval : Nat) (s : Pacer K) : Prop where
  delay : limits.Within interval s.frameDelay
  pos : 0 < s.frameRate
  le : s.frameRate ≤ limits.rate

end

section

variable {K : Type} [Field K] [LinearOrder K] [IsStrictOrderedRing K] [FloorSemiring K]
variable {limits : Limits K} {interval : Nat} {s s' : Pacer K} {frame : Frame K}

omit [IsStrictOrderedRing K] in
theorem exact_timespecDiff (start finish : Timespec) :
    (Doubles.exact K).timespecDiff start finish = some (secondsBetween start finish) := by
  have billion : ((1000000000 : Int) : K) ≠ 0 := by norm_num
  have whole (seconds nanoseconds : Int)
      (total : finish.ns - start.ns = seconds * 1000000000 + nanoseconds) :
      (seconds : K) + (nanoseconds : K) / (1000000000 : Int) = secondsBetween start finish := by
    rw [secondsBetween, total]
    push_cast
    field_simp
  simp only [Doubles.timespecDiff, Doubles.exact, Nicks.Ops.exact, if_neg billion,
    Option.map_some, Option.some.injEq]
  apply whole
  unfold Timespec.ns
  split <;> simp only <;> omega

theorem Limits.Within.pos {delay : K} (within : limits.Within interval delay)
    (some : 0 < interval) :
    0 < delay := by
  have ms : 0 < limits.ms := lt_of_lt_of_le one_pos limits.ms_ge
  have length : (0 : K) < interval := Nat.cast_pos.2 some
  by_contra nonpos
  have product : 1000 * delay * limits.ms ≤ 0 :=
    mul_nonpos_of_nonpos_of_nonneg (by linarith) ms.le
  linarith [within.1]

/-- The mean of two delays. -/
theorem Limits.Within.mean {x y : K} (first : limits.Within interval x)
    (second : limits.Within interval y) : limits.Within interval ((x + y) / 2) := by
  constructor
  · linarith [first.1, second.1]
  · linarith [first.2, second.2]

theorem Limits.rate_pos (limits : Limits K) : 0 < limits.rate := by
  refine Nat.floor_pos.2 ?_
  have product := mul_nonneg limits.k2_nonneg (zero_le_one.trans limits.ms_ge)
  linarith [limits.k1_ge]

/-! ### The two terms -/

theorem exact_k1 {x y : K} (first : 0 < x) (second : 0 < y)
    (inTime : InTime limits interval s frame) :
    ∃ k1, frame.k1 (Doubles.exact K) x y = some k1 ∧ 0 ≤ k1 ∧ k1 ≤ limits.k1 := by
  have sum : x + y ≠ 0 := (add_pos first second).ne'
  by_cases slower : x < y
  · refine ⟨frame.k1Max * (y - x) / (x + y), ?_, ?_, ?_⟩
    · simp [Frame.k1, Doubles.exact, Nicks.Ops.exact, slower, sum]
    · exact div_nonneg (mul_nonneg inTime.k1.1 (by linarith)) (by linarith)
    · refine le_trans ?_ inTime.k1.2
      rw [div_le_iff₀ (add_pos first second)]
      exact mul_le_mul_of_nonneg_left (by linarith) inTime.k1.1
  · refine ⟨1, ?_, zero_le_one, limits.k1_ge⟩
    simp [Frame.k1, Doubles.exact, Nicks.Ops.exact, slower]

theorem exact_k2 {x : K} (some : 0 < interval) (within : limits.Within interval x)
    (inTime : InTime limits interval s frame) :
    ∃ ms k2, (Doubles.exact K).div ((Doubles.exact K).mul ((Doubles.exact K).ofInt 1000) x)
        ((Doubles.exact K).ofInt interval) = .some ms ∧
      frame.k2 (Doubles.exact K) ms = .some k2 ∧ 0 ≤ k2 ∧ k2 ≤ limits.k2 * limits.ms := by
  have length : (0 : K) < interval := Nat.cast_pos.2 some
  have pos := within.pos some
  have ms_pos : 0 < 1000 * x / interval := div_pos (by linarith) length
  have ms_le : 1000 * x / interval ≤ limits.ms := by
    rw [div_le_iff₀ length, mul_comm limits.ms]
    exact within.2
  have ms_ge : 1 / (1000 * x / interval) ≤ limits.ms := by
    rw [one_div_div, div_le_iff₀ (by linarith), mul_comm limits.ms]
    exact within.1
  refine ⟨1000 * x / interval, ?_⟩
  by_cases slow : 1 ≤ 1000 * x / (interval : K)
  · refine ⟨frame.k2Max * (1000 * x / interval), ?_, ?_, ?_, ?_⟩
    · simp [Doubles.exact, Nicks.Ops.exact, length.ne']
    · simp only [Frame.k2, Doubles.exact, Nicks.Ops.exact, Int.cast_one, slow, decide_true, if_true]
    · exact mul_nonneg inTime.k2.1 ms_pos.le
    · exact mul_le_mul inTime.k2.2 ms_le ms_pos.le limits.k2_nonneg
  · refine ⟨frame.k2Max / (1000 * x / interval), ?_, ?_, ?_, ?_⟩
    · simp [Doubles.exact, Nicks.Ops.exact, length.ne']
    · simp only [Frame.k2, Doubles.exact, Nicks.Ops.exact, Int.cast_one, slow, decide_false,
        Bool.false_eq_true, if_false, if_neg ms_pos.ne']
    · exact div_nonneg inTime.k2.1 ms_pos.le
    · rw [div_eq_mul_one_div]
      exact mul_le_mul inTime.k2.2 ms_ge (one_div_pos.2 ms_pos).le limits.k2_nonneg

/-! ### Bounded rates -/

theorem nextRate_steady {delay : K} (fit : limits.Fit interval) (steady : s.Steady limits interval)
    (inTime : InTime limits interval s frame) (within : limits.Within interval delay) :
    ∃ rate, s.nextRate (Doubles.exact K) interval frame delay = some rate ∧ 0 < rate ∧
      rate ≤ limits.rate := by
  have some : 0 < interval := Nat.lt_of_lt_of_le limits.rate_pos fit.rate
  have pos := steady.delay.pos some
  obtain ⟨k1, isK1, k1_nonneg, k1_le⟩ := exact_k1 pos (within.pos some) inTime
  obtain ⟨ms, k2, isMs, isK2, k2_nonneg, k2_le⟩ := exact_k2 some steady.delay inTime
  have wanted : ⌊k1 + k2 + 1 / 2⌋₊ ≤ limits.rate := Nat.floor_mono (by linarith)
  have cell := fit.cell
  have le := fit.rate
  have isWanted : (Doubles.exact K).roundSize ((Doubles.exact K).add k1 k2) =
      .some ⌊k1 + k2 + 1 / 2⌋₊ := by
    have inside : 0 ≤ k1 + k2 ∧ ⌊k1 + k2 + 1 / 2⌋₊ < 2 ^ 32 :=
      ⟨add_nonneg k1_nonneg k2_nonneg, by omega⟩
    simp only [Doubles.exact, Nicks.Ops.exact]
    exact if_pos inside
  have positive : (Doubles.exact K).lt ((Doubles.exact K).ofInt 0) s.frameDelay = true := by
    simpa [Doubles.exact, Nicks.Ops.exact] using pos
  refine ⟨max 1 ((s.frameRate + ⌊k1 + k2 + 1 / 2⌋₊) % 2 ^ 32 / 2), ?_, ?_, ?_⟩
  · rw [Pacer.nextRate, if_pos positive, isK1, isMs]
    simp only [Option.bind_eq_bind, Option.bind_some, isK2, isWanted]
    rfl
  · exact Nat.lt_of_lt_of_le Nat.one_pos (Nat.le_max_left _ _)
  · have rate := steady.le
    have rate_pos := limits.rate_pos
    refine Nat.max_le.2 ⟨rate_pos, ?_⟩
    rw [Nat.mod_eq_of_lt (by omega)]
    omega

/-- A frame that keeps to the limits is taken, and leaves the rate in them. -/
theorem startFrame_steady (fit : limits.Fit interval) (steady : s.Steady limits interval)
    (inTime : InTime limits interval s frame) :
    ∃ turn s', s.startFrame (Doubles.exact K) interval frame = some (turn, s') ∧
      s'.Steady limits interval := by
  have some : 0 < interval := Nat.lt_of_lt_of_le limits.rate_pos fit.rate
  have calculated : ∃ t, s.calcFrameDelay (Doubles.exact K) interval frame = .some t ∧
      t.Steady limits interval := by
    unfold Pacer.calcFrameDelay
    rw [if_neg some.ne']
    split
    · next measured =>
        unfold Pacer.measure
        split
        · next earlier =>
            have within := inTime.delay measured earlier
            obtain ⟨rate, isRate, pos, le⟩ := nextRate_steady fit steady inTime within
            refine ⟨{ s with
              framePrev := frame.now
              frameDelay := (s.frameDelay + secondsBetween s.framePrev frame.now) / 2
              frameRate := rate
              frameRateMax := if s.frameRateMax < rate then rate else s.frameRateMax },
              ?_, steady.delay.mean within, pos, le⟩
            rw [exact_timespecDiff]
            simp only [Option.bind_eq_bind, Option.bind_some, isRate]
            simp [Doubles.exact, Nicks.Ops.exact]
        · exact ⟨_, rfl, steady.delay, steady.pos, steady.le⟩
    · exact ⟨s, rfl, steady⟩
  obtain ⟨t, isT, rated⟩ := calculated
  refine ⟨t.framesCount % t.frameRate == 0, { t with framesCount := t.framesCount + 1 }, ?_,
    rated.delay, rated.pos, rated.le⟩
  rw [Pacer.startFrame, isT]
  simp only [Option.bind_eq_bind, Option.bind_some, if_neg rated.pos.ne']
  rfl

/-- The steps keep to the limits. -/
def KeepsTime (limits : Limits K) (interval : Nat) (s : Pacer K) : PacerAction K → Prop
  | .frame frame => InTime limits interval s frame
  | .stop => True

/-- Frames one after another that keep to them. -/
def Timely (limits : Limits K) (interval : Nat) : Pacer K → List (Frame K) → Prop
  | _, [] => True
  | s, frame :: rest => InTime limits interval s frame ∧
      ∀ turn s', s.startFrame (Doubles.exact K) interval frame = some (turn, s') →
        Timely limits interval s' rest

theorem steady_of_reaches (fit : limits.Fit interval)
    (run : (pacing (Doubles.exact K) interval).Reaches (KeepsTime limits interval) s) :
    s.Steady limits interval := by
  have first : limits.Within interval ((Doubles.exact K).ofInt 1) := by
    simpa [Doubles.exact, Nicks.Ops.exact] using fit.first
  refine Machine.Reaches.invariant (I := Pacer.Steady limits interval) ?_ ?_ run
  · rintro _ rfl
    exact ⟨first, Nat.one_pos, limits.rate_pos⟩
  · intro s a s' _ steady keeps moved
    cases a with
    | frame frame =>
        obtain ⟨⟨turn, _⟩, starts, rfl⟩ := Option.map_eq_some_iff.1 moved
        obtain ⟨turn', t, found, next⟩ := startFrame_steady fit steady keeps
        rw [starts] at found
        obtain ⟨-, rfl⟩ := Prod.mk.inj (Option.some.inj found)
        exact next
    | stop =>
        obtain rfl := Option.some.inj moved
        exact ⟨first, steady.pos, steady.le⟩

theorem paced_of_timely {frames : List (Frame K)} (fit : limits.Fit interval)
    (steady : s.Steady limits interval) (timely : Timely limits interval s frames) :
    Paced (Doubles.exact K) interval limits.rate s frames := by
  induction frames generalizing s with
  | nil => trivial
  | cons frame rest ih =>
      obtain ⟨inTime, later⟩ := timely
      obtain ⟨turn, s', starts, next⟩ := startFrame_steady fit steady inTime
      exact ⟨turn, s', starts, next.pos, next.le, ih next (later turn s' starts)⟩

/-- **Answers are looked for all the time.**  Let every interval of frames take, on the average,
between `1 / ms` and `ms` milliseconds a frame.  Then in exact arithmetic, in every run with any
cvars up to `k1` and `k2` and with any map ends, no division is by zero and no conversion out of
range, `frame_rate` is between 1 and the rate of the limits, and where that is not above the
interval one of any frames that are twice as many takes an answer out of `m_frames`. -/
theorem polled_regularly (fit : limits.Fit interval)
    (run : (pacing (Doubles.exact K) interval).Reaches (KeepsTime limits interval) s) :
    s.Rated ∧ s.frameRate ≤ limits.rate ∧
      ∀ frames, Timely limits interval s frames →
        ∃ turns, Pacer.turns (Doubles.exact K) interval frames s = some turns ∧
          (2 * limits.rate ≤ frames.length → true ∈ turns) := by
  have steady := steady_of_reaches fit run
  refine ⟨rate_of_reaches run, steady.le, fun frames timely => ?_⟩
  have paced := paced_of_timely fit steady timely
  obtain ⟨turns, found⟩ := exists_turns paced
  refine ⟨turns, found, fun enough => ?_⟩
  obtain ⟨turns', found', member⟩ := turn_within paced steady.pos steady.le fit.rate enough
  rw [found] at found'
  exact Option.some.inj found' ▸ member

end

/-- The defaults of the cvars, and frames of a tenth of a millisecond up to ten. -/
def defaultLimits : Limits ℚ := ⟨10, 53, 7, by norm_num, by norm_num, by norm_num⟩

theorem defaultLimits_rate : defaultLimits.rate = 123 := by
  rw [Limits.rate, Nat.floor_eq_iff (by norm_num [defaultLimits])]
  norm_num [defaultLimits]

/-- After two frames. -/
theorem polled_regularly_twoFrames : ∃ s : Pacer ℚ, s.framesCount = 2 ∧ s.frameRate ≤ 123 ∧
    ∀ frames, Timely defaultLimits 1000 s frames → frames.length = 246 →
      ∃ turns, Pacer.turns (Doubles.exact ℚ) 1000 frames s = some turns ∧ true ∈ turns := by
  have fit : defaultLimits.Fit 1000 := by
    refine ⟨?_, ?_, by norm_num⟩
    · constructor <;> norm_num [defaultLimits]
    · rw [defaultLimits_rate]
      norm_num
  let frame : Frame ℚ := ⟨⟨1, 5⟩, 53, 7⟩
  have inTime (s : Pacer ℚ) (unmeasured : s.framesCount % 1000 = 0 → s.framePrev.nsec.val = 0) :
      InTime defaultLimits 1000 s frame := by
    refine ⟨by norm_num [defaultLimits, frame], by norm_num [defaultLimits, frame], ?_⟩
    intro measured earlier
    rw [unmeasured measured] at earlier
    exact absurd earlier (Nat.lt_irrefl 0)
  let one : Pacer ℚ := { Pacer.start (Doubles.exact ℚ) with framesCount := 1, framePrev := ⟨1, 5⟩ }
  have first : (pacing (Doubles.exact ℚ) 1000).Reaches (KeepsTime defaultLimits 1000) one :=
    .step (a := .frame frame) (.init rfl) (inTime (.start _) fun _ => rfl) rfl
  have second : (pacing (Doubles.exact ℚ) 1000).Reaches (KeepsTime defaultLimits 1000)
      { one with framesCount := 2 } :=
    .step (a := .frame frame) first (inTime one fun measured => by simp [one] at measured) rfl
  obtain ⟨-, rate, regularly⟩ := polled_regularly fit second
  rw [defaultLimits_rate] at rate regularly
  refine ⟨_, rfl, rate, fun frames timely length => ?_⟩
  obtain ⟨turns, found, member⟩ := regularly frames timely
  exact ⟨turns, found, member (by omega)⟩

end Refsapi.Pacing
