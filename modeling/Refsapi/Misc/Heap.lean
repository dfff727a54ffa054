/-
# Misc.Heap -- the heap of a plugin around a callback

Both dispatchers put what they pass to a handler on the heap of its plugin, with
`amx_Allot`, and set `hea` back when the handler has returned: to the address of
their first block, if `hea` is as far above it as they have asked for in all.  The
comparison is one of 32 bits.

The functions of `g_amxxapi` are a parameter; `Api.Documented` is what their
documentation says of `hea`, and `Api.Balanced` that handlers leave it where it was.
The main result is `heap_restored`.
-/
import Refsapi.Misc.Number

namespace Refsapi

set_option autoImplicit false

/-! ## The plugin -/

/-- What the dispatchers use of `g_amxxapi`, for a plugin whose state is a `σ`. -/
structure Api (σ : Type) where
  hea : σ → Cell
  setHea : σ → Cell → σ
  /-- `amx_Allot`: the address, if there is room -/
  allot : σ → Cell → Option Cell × σ
  /-- cells are written at an address -/
  store : σ → Cell → List Cell → σ
  /-- `ExecuteForward`: what the handler does, and what it returns -/
  execute : σ → Int → List Cell → Int × σ
  logError : σ → String → σ

/-- What is documented of `hea`. -/
structure Api.Documented {σ : Type} (api : Api σ) : Prop where
  set : ∀ s value, api.hea (api.setHea s value) = value
  allotted : ∀ s cells address, (api.allot s cells).1 = some address →
    address = api.hea s ∧ api.hea (api.allot s cells).2 = api.hea s + 4 * cells
  refused : ∀ s cells, (api.allot s cells).1 = none → api.hea (api.allot s cells).2 = api.hea s
  stored : ∀ s address cells, api.hea (api.store s address cells) = api.hea s
  logged : ∀ s text, api.hea (api.logError s text) = api.hea s

/-- Every handler leaves `hea` where it was. -/
def Api.Balanced {σ : Type} (api : Api σ) : Prop :=
  ∀ s fwd args, api.hea (api.execute s fwd args).2 = api.hea s

section

variable {σ : Type} (api : Api σ)

/-- `amx_allot`. -/
def amxAllot (s : σ) (cells : Cell) : Option Cell × σ :=
  match api.allot s cells with
  | (some address, s) => (some address, s)
  | (none, s) => (none, api.logError s "amx_allot(): heap low!")

/-- What both dispatchers do at "Fix heap". -/
def fixHeap (s : σ) (first totalSize : Cell) : σ :=
  if api.hea s - first = totalSize then api.setHea s first
  else api.logError s "frame_forward(): can't fix amx->hea, possible memory leak!"

/-- `size_t`, as the code computes with it. -/
def sizeT (n : Nat) : Cell := .ofNat 32 n

/-! ## The dispatchers -/

/-- What `mysql_mngr::frame_forward` reads of a query; `handle` is the query's pointer. -/
structure Mysql.Framed where
  handle : Cell
  aborted : Bool
  fwdId : Int
  failstate : Int
  error : Text
  err : Int
  data : List Cell
  queuetime : Fp

/-- `mysql_mngr::frame_forward`, with the query that `get_frame_query` has taken. -/
def Mysql.frameForward (stopThreads : Bool) (query : Option Mysql.Framed) (s : σ) : σ :=
  match query with
  | none => s
  | some q =>
      if stopThreads || q.aborted then s
      else
        let errorSize := sizeT q.error.length + 1
        match amxAllot api s errorSize with
        | (none, s) => s
        | (some errorParam, s) =>
            let totalSize := errorSize <<< 2
            let s := api.store s errorParam (amxString q.error (q.error.length + 1))
            let dataSize := sizeT q.data.length
            match amxAllot api s dataSize with
            | (none, s) => fixHeap api s errorParam totalSize
            | (some dataParam, s) =>
                let s := api.store s dataParam q.data
                let totalSize := totalSize + dataSize <<< 2
                let s := (api.execute s q.fwdId [.ofInt 32 q.failstate, q.handle, errorParam,
                  .ofInt 32 q.err, dataParam, dataSize, (q.queuetime.scale binary32 1).bits]).2
                fixHeap api s errorParam totalSize

/-- What `timer_mngr::frame_forward` reads of its copy of a timer; a null `amx` is 0. -/
structure Timers.Framed where
  id : Nat
  amx : Nat
  fwdId : Int
  groupId : Nat
  data : List Cell
  rounds : Nat

/-- `timer_mngr::frame_forward` up to the test for a repeat, with the timer that `get_timer`
has taken; `found` is whether `get_timer_by_id` finds it. -/
def Timers.frameForward (stopTimer found : Bool) (timer : Option Timers.Framed) (s : σ) : Int × σ :=
  match timer with
  | none => (0, s)
  | some t =>
      if stopTimer || t.amx == 0 || t.fwdId == -1 || !found then (0, s)
      else
        let dataSize := sizeT t.data.length
        match amxAllot api s dataSize with
        | (none, s) => (0, s)
        | (some dataParam, s) =>
            let s := api.store s dataParam t.data
            let totalSize := dataSize <<< 2
            let (ret, s) := api.execute s t.fwdId
              [sizeT t.groupId, dataParam, dataSize, sizeT t.rounds, sizeT t.id]
            (ret, fixHeap api s dataParam totalSize)

/-! ## What they do to `hea` -/

variable {api}

theorem shift_two (size : Cell) : size <<< 2 = 4 * size := by
  rw [BitVec.shiftLeft_eq_mul_twoPow, BitVec.mul_comm]
  rfl

theorem amxAllot_some (known : api.Documented) {s s' : σ} {cells address : Cell}
    (allotted : amxAllot api s cells = (some address, s')) :
    address = api.hea s ∧ api.hea s' = api.hea s + 4 * cells := by
  have documented := known.allotted s cells address
  unfold amxAllot at allotted
  rcases result : api.allot s cells with ⟨_ | found, after⟩
  · rw [result] at allotted
    cases allotted
  · rw [result] at allotted documented
    cases allotted
    exact documented rfl

theorem amxAllot_none (known : api.Documented) {s s' : σ} {cells : Cell}
    (refused : amxAllot api s cells = (none, s')) : api.hea s' = api.hea s := by
  have documented := known.refused s cells
  unfold amxAllot at refused
  rcases result : api.allot s cells with ⟨_ | found, after⟩
  · rw [result] at refused documented
    cases refused
    rw [known.logged]
    exact documented rfl
  · rw [result] at refused
    cases refused

/-- The heap is fixed where `hea` is above the first block by what was asked for. -/
theorem hea_fixHeap (known : api.Documented) {s : σ} {first total : Cell}
    (above : api.hea s = first + total) : api.hea (fixHeap api s first total) = first := by
  unfold fixHeap
  rw [if_pos (by rw [above, BitVec.add_comm, BitVec.add_sub_cancel]), known.set]

theorem Mysql.hea_frameForward (known : api.Documented) (balanced : api.Balanced)
    (stopThreads : Bool) (query : Option Mysql.Framed) (s : σ) :
    api.hea (Mysql.frameForward api stopThreads query s) = api.hea s := by
  unfold Mysql.frameForward
  cases query with
  | none => rfl
  | some q =>
      simp only
      split
      · rfl
      split
      · next refused => exact amxAllot_none known refused
      next errorParam s₁ allotted =>
      obtain ⟨isFirst, raised⟩ := amxAllot_some known allotted
      split
      · next s₂ refused =>
          have same := amxAllot_none known refused
          rw [hea_fixHeap known, isFirst]
          rw [same, known.stored, raised, isFirst, shift_two]
      · next dataParam s₂ allottedData =>
          obtain ⟨-, raisedData⟩ := amxAllot_some known allottedData
          rw [hea_fixHeap known, isFirst]
          rw [balanced, known.stored, raisedData, known.stored, raised, isFirst, shift_two,
            shift_two, BitVec.add_assoc]

theorem Timers.hea_frameForward (known : api.Documented) (balanced : api.Balanced)
    (stopTimer found : Bool) (timer : Option Timers.Framed) (s : σ) :
    api.hea (Timers.frameForward api stopTimer found timer s).2 = api.hea s := by
  unfold Timers.frameForward
  cases timer with
  | none => rfl
  | some t =>
      simp only
      split
      · rfl
      split
      · next refused => exact amxAllot_none known refused
      · next dataParam s₁ allotted =>
          obtain ⟨isFirst, raised⟩ := amxAllot_some known allotted
          rw [hea_fixHeap known, isFirst]
          rw [balanced, known.stored, raised, isFirst, shift_two]

/-- **Both dispatchers restore the heap of the plugin**, whatever `hea` is, whichever of
their allotments succeed and whatever the handler does that leaves `hea` alone. -/
theorem heap_restored (known : api.Documented) (balanced : api.Balanced) (s : σ) :
    (∀ stopThreads query, api.hea (Mysql.frameForward api stopThreads query s) = api.hea s) ∧
      ∀ stopTimer found timer,
        api.hea (Timers.frameForward api stopTimer found timer s).2 = api.hea s :=
  ⟨fun stopThreads query => Mysql.hea_frameForward known balanced stopThreads query s,
    fun stopTimer found timer => Timers.hea_frameForward known balanced stopTimer found timer s⟩

end

/-! ## A plugin with room for so much -/

/-- The heap of a plugin grows up to its stack. -/
structure Amx where
  hea : Cell
  stk : Cell
  memory : Cell → Cell

/-- `amx_Allot` refuses what leaves less than `STKMARGIN` bytes; the handler returns 1. -/
def Amx.api : Api Amx where
  hea := Amx.hea
  setHea s value := { s with hea := value }
  allot s cells :=
    if (s.stk - s.hea - 4 * cells).slt 64 then (none, s)
    else (some s.hea, { s with hea := s.hea + 4 * cells })
  store s address cells :=
    { s with
      memory := fun i =>
        if address ≤ i then cells[((i - address) >>> 2).toNat]?.getD (s.memory i)
        else s.memory i }
  execute s _ _ := (1, s)
  logError s _ := s

theorem Amx.documented : Amx.api.Documented where
  set _ _ := rfl
  allotted s cells address found := by
    simp only [Amx.api] at found ⊢
    split at found
    · cases found
    · next room =>
        cases found
        rw [if_neg room]
        exact ⟨rfl, rfl⟩
  refused s cells gone := by
    simp only [Amx.api] at gone ⊢
    split at gone
    · next full => rw [if_pos full]
    · cases gone
  stored _ _ _ := rfl
  logged _ _ := rfl

theorem Amx.balanced : Amx.api.Balanced := fun _ _ _ => rfl

/-- There is room for the error text and not for the data. -/
theorem heap_restored_partly :
    (Amx.api.allot ⟨0x100, 0x160, fun _ => 0⟩ 4).1 = some 0x100 ∧
      (Amx.api.allot ⟨0x110, 0x160, fun _ => 0⟩ 8).1 = none ∧
      (∀ stopThreads query, (Mysql.frameForward Amx.api stopThreads query
        ⟨0x100, 0x160, fun _ => 0⟩).hea = 0x100) ∧
      ∀ stopTimer found timer, (Timers.frameForward Amx.api stopTimer found timer
        ⟨0x100, 0x160, fun _ => 0⟩).2.hea = 0x100 :=
  ⟨by decide, by decide,
    heap_restored Amx.documented Amx.balanced ⟨0x100, 0x160, fun _ => 0⟩⟩

end Refsapi
