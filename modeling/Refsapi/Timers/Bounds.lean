/-
# Timers.Bounds -- the delays of timers

`add_timer` brings a delay between `0.01f` and `9999.999f`, but for a NaN, which
`std::clamp` lets through; `change_timer_by_id` writes what it is given.  Where neither
brings another delay (`Sane`) every delay in `m_timers`, and in every copy, stays between
them, and to arm a timer again moves its deadline on (`delayMs_of_bounded`).
-/
import Refsapi.Timers.Writes

namespace Refsapi.Timers

set_option autoImplicit false

variable {s s' : State} {a : Action}

/-! ## Delays -/

/-- Not a NaN. -/
def IsNumber : Fp → Prop
  | .nan _ => False
  | .inf _ => True
  | .fin _ magnitude => 0 ≤ magnitude

/-- Neither below nor above what `add_timer` accepts. -/
def Bounded (delay : Fp) : Prop :=
  (∃ magnitude, delay = .fin false magnitude) ∧ delay.lt minDelay = false ∧
    maxDelay.lt delay = false

theorem minDelay_eq : minDelay = .fin false (5368709 / 536870912) := by decide +kernel

theorem maxDelay_eq : maxDelay = .fin false (10239999 / 1024) := by decide +kernel

theorem bounded_minDelay : Bounded minDelay := by
  refine ⟨⟨_, minDelay_eq⟩, ?_, ?_⟩ <;> decide +kernel

theorem bounded_maxDelay : Bounded maxDelay := by
  refine ⟨⟨_, maxDelay_eq⟩, ?_, ?_⟩ <;> decide +kernel

/-- `std::clamp` brings every number between the bounds. -/
theorem bounded_clamp {delay : Fp} (number : IsNumber delay) :
    Bounded (delay.clamp minDelay maxDelay) := by
  unfold Fp.clamp
  split
  · exact bounded_minDelay
  next low =>
  split
  · exact bounded_maxDelay
  next high =>
  rw [Bool.not_eq_true] at low high
  cases delay with
  | nan negative => exact number.elim
  | inf negative =>
      rw [minDelay_eq] at low
      rw [maxDelay_eq] at high
      cases negative
      · cases high
      · cases low
  | fin negative magnitude =>
      refine ⟨⟨magnitude, ?_⟩, low, high⟩
      cases negative with
      | false => rfl
      | true =>
          rw [minDelay_eq] at low
          simp only [Fp.lt, Fp.value, if_true, Bool.false_eq_true, if_false,
            decide_eq_false_iff_not, not_lt] at low
          have : 0 ≤ magnitude := number
          linarith

/-- A delay between the bounds is a positive number of milliseconds, and one that fits. -/
theorem delayMs_of_bounded {delay : Fp} (bounded : Bounded delay) :
    0 < delayMs delay ∧ delayMs delay < 2 ^ 63 := by
  obtain ⟨⟨magnitude, rfl⟩, low, high⟩ := bounded
  rw [minDelay_eq] at low
  rw [maxDelay_eq] at high
  simp only [Fp.lt, Fp.value, Bool.false_eq_true, if_false, decide_eq_false_iff_not,
    not_lt] at low high
  have least : twoPow binary32.least ≤ 1000 * magnitude := by
    have : twoPow binary32.least ≤ 1 := by decide +kernel
    linarith
  have most : 3 / 2 * (1000 * magnitude) < twoPow binary32.top := by
    have : (2 : ℚ) ^ 24 ≤ twoPow binary32.top := by decide +kernel
    linarith
  obtain ⟨nearest, rounded, above, below⟩ :=
    round_near false (by decide) least most
  have between : 1 ≤ (Fp.fin false nearest).roundInt64 ∧
      (Fp.fin false nearest).roundInt64 ≤ 2 ^ 24 :=
    roundInt64_between (by norm_num) (by norm_num) (by push_cast; linarith) (by push_cast; linarith)
  have same : delayMs (.fin false magnitude) = (Fp.fin false nearest).roundInt64 :=
    congrArg Fp.roundInt64 rounded
  rw [same]
  omega

/-! ## Every delay -/

/-- The call brings no NaN, and `change_timer_by_id` nothing beyond the bounds. -/
def Sane (s : State) : Action → Prop
  | .addTimer _ _ fwdId delaySec _ _ _ _ => fwdId ≠ -1 → IsNumber delaySec
  | .changeTimerById amx id delaySec _ _ =>
      (∃ t ∈ s.timers, t.amx = amx ∧ t.id = id) → Bounded delaySec
  | _ => True

/-- The delays of timers, of their copies, and of a change to come. -/
structure AllBounded (s : State) : Prop where
  timers : ∀ t ∈ s.timers, Bounded t.delaySec
  copies : ∀ q ∈ s.held, Bounded q.delaySec
  change : ∀ id delaySec flags repeats, s.game = .change id delaySec flags repeats →
    Bounded delaySec

theorem AllBounded.step (bounded : AllBounded s) (sane : Sane s a) (move : Move s a s') :
    AllBounded s' := by
  refine ⟨fun t listed => ?_, fun q copy => ?_, fun id delaySec flags repeats game => ?_⟩
  · cases written_of_move move listed with
    | kept old => exact bounded.timers t old
    | marked old pc | rearmed old same decides isAgain =>
        have same : Bounded _ := bounded.timers _ old
        exact same
    | changed old pc action => exact bounded.change _ _ _ _ pc
    | added call accepted =>
        subst call
        exact bounded_clamp (sane accepted)
  · rcases held_of_move move copy with old | listed
    · exact bounded.copies q old
    · exact bounded.timers q listed
  · rcases change_of_move move game with pending | ⟨amx, rfl, found⟩
    · exact bounded.change id delaySec flags repeats pending
    · exact sane found

/-- **Delays.**  In every state of a run whose calls bring no NaN and no change beyond the
bounds, the delays of all timers are between them, and to arm a timer again that is not
`RELATIVE` moves its deadline on by a positive number of milliseconds that fits. -/
theorem bounded_of_sane (s : State) (run : machine.Reaches Sane s) :
    (∀ t ∈ s.timers, Bounded t.delaySec) ∧
      ∀ q, s.Deciding q → q.flags &&& timerFlagRelative = 0 → ∀ now t, ∃ ms : Int,
        0 < ms ∧ ms < 2 ^ 63 ∧ (State.rearmed q now t).time = t.time + ms * 1000000 := by
  have bounded : AllBounded s := by
    refine Machine.Reaches.invariant (I := AllBounded) ?_
      (fun s a s' _ bounded sane moved => bounded.step sane (move_of_step moved)) run
    rintro _ ⟨maxClients, rfl⟩
    constructor <;> simp [State.zero, State.held, WorkerPc.entry, GamePc.taken]
  refine ⟨bounded.timers, fun q decides absolute now t => ?_⟩
  have copy : q ∈ s.held := by
    rcases decides with pc | ⟨-, rest, running⟩
    · exact mem_held.2 (.inr (.inr (.inr (.inl (by simp [pc, GamePc.taken])))))
    · exact mem_held.2 (.inr (.inr (.inr (.inr (by simp [running])))))
  obtain ⟨positive, fits⟩ := delayMs_of_bounded (bounded.copies q copy)
  exact ⟨delayMs q.delaySec, positive, fits, by simp [State.rearmed, absolute, later]⟩

/-- `Sane`, to be tested where the delays are constants. -/
def sane (_ : State) : Action → Bool
  | .addTimer _ _ _ delaySec _ _ _ _ => delaySec == .fin false 1
  | .changeTimerById _ _ delaySec _ _ => delaySec == maxDelay
  | _ => true

theorem sane_sound (s : State) (a : Action) (ok : sane s a = true) : Sane s a := by
  cases a with
  | addTimer memory amx fwdId delaySec groupId flags repeats now =>
      obtain rfl := beq_iff_eq.1 ok
      exact fun _ => zero_le_one
  | changeTimerById amx id delaySec flags repeats =>
      obtain rfl := beq_iff_eq.1 ok
      exact fun _ => bounded_maxDelay
  | _ => trivial

/-- A timer is added and changed to the greatest delay. -/
theorem bounded_of_sane_changed : ∃ s : State, s.timers.map Tm.delaySec = [maxDelay] ∧
    (∀ t ∈ s.timers, Bounded t.delaySec) ∧
      ∀ q, s.Deciding q → q.flags &&& timerFlagRelative = 0 → ∀ now t, ∃ ms : Int,
        0 < ms ∧ ms < 2 ^ 63 ∧ (State.rearmed q now t).time = t.time + ms * 1000000 := by
  have ends : (machine.execIf sane (.zero 32)
      [.addTimer .zero 1 7 (.fin false 1) 0 1 0 0, .go true 0, .changeTimerById 1 1 maxDelay 0 0,
        .go true 0]).map (fun s => s.timers.map Tm.delaySec == [maxDelay]) = some true := by
    decide +kernel
  obtain ⟨s, run, holds⟩ := Machine.exists_reaches (M := machine) sane_sound ⟨32, rfl⟩ ends
  exact ⟨s, beq_iff_eq.1 holds, bounded_of_sane s run⟩

/-- A timer is changed to a delay of zero. -/
theorem not_always_bounded : ¬ ∀ s, machine.Reachable s → ∀ t ∈ s.timers, Bounded t.delaySec := by
  intro always
  have ends : (machine.exec (.zero 32)
      [.addTimer .zero 1 7 (.fin false 1) 0 1 0 0, .go true 0,
        .changeTimerById 1 1 (.fin false 0) 0 0,
        .go true 0]).map (fun s => s.timers.map Tm.delaySec == [.fin false 0]) = some true := by
    decide +kernel
  obtain ⟨s, run, holds⟩ := Machine.exists_reachable (M := machine) ⟨32, rfl⟩ ends
  obtain ⟨t, timers, delay⟩ := List.map_eq_singleton_iff.1 (beq_iff_eq.1 holds)
  have low := (always s run t (by simp [timers])).2.1
  rw [delay, minDelay_eq] at low
  norm_num [Fp.lt, Fp.value] at low

end Refsapi.Timers
