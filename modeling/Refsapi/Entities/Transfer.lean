/-
# Entities.Transfer -- the replace phase of `rf_transfer_items`

With a skip mask the phase walks over `player_entities` of the receiver and passes each item
that is not in the mask to `RemovePlayerItem`.  When that succeeds the hook of the module erases
the item from the vector that is being walked over.  The loop has its end from the beginning,
and the elements behind the erased one move up: the next one is skipped, and what stood last is
found a second time.

So the phase does what it should if and only if there is at most one element, or copies of one
that stays, behind the first item that is removed (`replaceItems_iff`).

The game library is a list of answers; it is assumed to leave the edicts, the item numbers and
the vector alone but for the hook.
-/
import Mathlib.Data.List.Count
import Refsapi.Entities.Model

namespace Refsapi.Entities

set_option autoImplicit false

/-! ## The loop -/

/-- What the phase is asked for, and what it finds. -/
structure Replace where
  /-- `params[arg_to]` -/
  receiver : Nat
  skipItems : BitVec 32
  /-- `m_iId` of the private data -/
  iId : Nat → BitVec 32
  /-- what `RemovePlayerItem` answers, call by call -/
  answers : Nat → Bool

/-- The loop between two turns. -/
structure Loop where
  state : State
  /-- what stands in the memory behind the vector, up to its old end -/
  stale : List Nat
  visited : List Nat
  /-- the calls of `RemovePlayerItem`, with their answers -/
  passed : List (Nat × Bool)
  killed : List Nat

namespace Replace

/-- `(1 << item->m_iId) & params[arg_skip_items]`; a shift takes the low five bits of its count. -/
def skips (r : Replace) (index : Nat) : Bool :=
  (1#32 <<< ((r.iId index).toNat % 32)) &&& r.skipItems != 0

/-- The tests of a turn. -/
def passes (r : Replace) (s : State) (index : Nat) : Bool :=
  !((s.edicts index).free || !(s.edicts index).privateData) &&
    (s.edicts index).owner == r.receiver && r.iId index != 0 && !r.skips index

/-- The hook of a successful `RemovePlayerItem`.  The last element stays in the memory. -/
def erase (r : Replace) (l : Loop) (index : Nat) : Loop :=
  let v := l.state.playerEntities r.receiver
  { l with
    state := l.state.removePlayerItem index
    stale := if index ∈ v then v.getLast?.toList ++ l.stale else l.stale }

/-- One turn. -/
def turn (r : Replace) (l : Loop) (index : Nat) : Loop :=
  let l := { l with visited := l.visited ++ [index] }
  if r.passes l.state index then
    let removed := r.answers l.passed.length
    let l := { l with passed := l.passed ++ [(index, removed)] }
    if removed then { r.erase l index with killed := l.killed ++ [index] } else l
  else l

/-- The memory of the vector, up to its old end. -/
def cells (r : Replace) (l : Loop) : List Nat := l.state.playerEntities r.receiver ++ l.stale

/-- The loop, from a position on. -/
def loop (r : Replace) : Nat → Nat → Loop → Loop
  | 0, _, l => l
  | n + 1, i, l =>
      match (r.cells l)[i]? with
      | none => l
      | some index => r.loop n (i + 1) (r.turn l index)

/-- The phase. -/
def replaceItems (r : Replace) (s : State) : Loop :=
  r.loop (s.playerEntities r.receiver).length 0 ⟨s, [], [], [], []⟩

end Replace

/-! ## What it is for -/

/-- Each element is visited once, each item that is not kept is passed once and killed if it is
removed, and what is in the mask is left alone. -/
structure Emptied (r : Replace) (s : State) (l : Loop) : Prop where
  visited : l.visited = s.playerEntities r.receiver
  passed : ∀ x ∈ s.playerEntities r.receiver, r.passes s x = true →
    (l.passed.map Prod.fst).count x = 1
  killed : l.killed = (l.passed.filter Prod.snd).map Prod.fst
  untouched : ∀ x, r.skips x = true → x ∉ l.passed.map Prod.fst ∧
    (l.state.playerEntities r.receiver).count x = (s.playerEntities r.receiver).count x

/-- None of the items is removed, when `calls` calls have been made before. -/
def Spared (r : Replace) (s : State) : Nat → List Nat → Prop
  | _, [] => True
  | calls, x :: rest =>
      if r.passes s x then r.answers calls = false ∧ Spared r s (calls + 1) rest
      else Spared r s calls rest

/-- Each item to be passed is once in the list, and behind the first one that is removed all
elements are the same. -/
structure Orderly (r : Replace) (s : State) : Prop where
  once : ∀ x ∈ s.playerEntities r.receiver, r.passes s x = true →
    (s.playerEntities r.receiver).count x = 1
  last : ∀ before x after, s.playerEntities r.receiver = before ++ x :: after →
    Spared r s 0 before → r.passes s x = true → r.answers (before.countP (r.passes s)) = true →
      ∀ y ∈ after, ∀ z ∈ after, y = z

variable {r : Replace} {s : State} {l : Loop}

/-! ## What a turn does -/

/-- The books of the loop are right. -/
structure Ledger (r : Replace) (s : State) (l : Loop) : Prop where
  edicts : l.state.edicts = s.edicts
  clients : l.state.maxClients = s.maxClients
  passed : l.passed.map Prod.fst = l.visited.filter (r.passes s)
  killed : l.killed = (l.passed.filter Prod.snd).map Prod.fst
  kept : ∀ x, r.passes s x = false →
    (l.state.playerEntities r.receiver).count x = (s.playerEntities r.receiver).count x

theorem Ledger.passes (ledger : Ledger r s l) : r.passes l.state = r.passes s := by
  unfold Replace.passes
  rw [ledger.edicts]

theorem Ledger.length (ledger : Ledger r s l) :
    l.passed.length = l.visited.countP (r.passes s) := by
  rw [List.countP_eq_length_filter, ← ledger.passed, List.length_map]

/-- The item of a turn belongs to the receiver, so the hook erases it there. -/
theorem removePlayerItem_of_passes (valid : isValidIndex s.maxClients r.receiver = true) {x : Nat}
    (passes : r.passes s x = true) :
    s.removePlayerItem x =
      s.setPlayerEntities r.receiver ((s.playerEntities r.receiver).erase x) := by
  have owner : (s.edicts x).owner = r.receiver := by
    simp only [Replace.passes, Bool.and_eq_true, beq_iff_eq] at passes
    exact passes.1.1.2
  unfold State.removePlayerItem
  simp only [owner, valid, if_true]
  rfl

theorem Ledger.turn (ledger : Ledger r s l) (valid : isValidIndex s.maxClients r.receiver = true)
    (x : Nat) : Ledger r s (r.turn l x) := by
  have valid' : isValidIndex l.state.maxClients r.receiver = true := ledger.clients ▸ valid
  unfold Replace.turn
  simp only [ledger.passes]
  split
  · next passes =>
      have book : (l.passed ++ [(x, r.answers l.passed.length)]).map Prod.fst =
          (l.visited ++ [x]).filter (r.passes s) := by
        rw [List.map_append, ledger.passed, List.filter_append]
        simp [passes]
      split
      · next removed =>
          have hook := removePlayerItem_of_passes valid' (ledger.passes ▸ passes)
          refine ⟨?_, ?_, book, ?_, fun y stays => ?_⟩
          · exact (congrArg State.edicts hook).trans ledger.edicts
          · exact (congrArg State.maxClients hook).trans ledger.clients
          · simp [Replace.erase, ledger.killed, removed]
          · have other : y ≠ x := fun same => by simp [same, passes] at stays
            have vector : (l.state.removePlayerItem x).playerEntities r.receiver =
                (l.state.playerEntities r.receiver).erase x := by
              rw [hook]
              simp [State.setPlayerEntities]
            rw [← ledger.kept y stays]
            exact (congrArg (List.count y) vector).trans (List.count_erase_of_ne other)
      · next stays =>
          exact ⟨ledger.edicts, ledger.clients, book, by simp [ledger.killed, stays], ledger.kept⟩
  · next passes =>
      exact ⟨ledger.edicts, ledger.clients, by simp [ledger.passed, passes], ledger.killed,
        ledger.kept⟩

theorem turn_visited (r : Replace) (l : Loop) (x : Nat) :
    (r.turn l x).visited = l.visited ++ [x] := by
  unfold Replace.turn
  simp only
  split
  · split <;> rfl
  · rfl

/-- A turn that removes nothing. -/
theorem turn_spared {x : Nat}
    (spared : r.passes l.state x = true → r.answers l.passed.length = false) :
    (r.turn l x).state = l.state ∧ (r.turn l x).stale = l.stale := by
  unfold Replace.turn
  simp only
  split
  · next passes =>
      rw [if_neg (by simp [spared passes])]
      exact ⟨rfl, rfl⟩
  · exact ⟨rfl, rfl⟩

/-! ## What the loop does -/

theorem Ledger.loop (ledger : Ledger r s l) (valid : isValidIndex s.maxClients r.receiver = true)
    (n i : Nat) : Ledger r s (r.loop n i l) := by
  induction n generalizing i l with
  | zero => exact ledger
  | succ n ih =>
      unfold Replace.loop
      split
      · exact ledger
      · exact ih (ledger.turn valid _) (i + 1)

/-- What has been visited stays in the list. -/
theorem loop_visited (r : Replace) (n i : Nat) (l : Loop) :
    ∃ more, (r.loop n i l).visited = l.visited ++ more := by
  induction n generalizing i l with
  | zero => exact ⟨[], (List.append_nil _).symm⟩
  | succ n ih =>
      unfold Replace.loop
      split
      · exact ⟨[], (List.append_nil _).symm⟩
      · next x _ =>
          obtain ⟨more, visits⟩ := ih (i + 1) (r.turn l x)
          exact ⟨x :: more, by rw [visits, turn_visited, List.append_assoc, List.singleton_append]⟩

/-- The turn at a position. -/
theorem loop_succ (rest : List Nat) {i x : Nat} (here : (r.cells l).drop i = x :: rest) (n : Nat) :
    r.loop (n + 1) i l = r.loop n (i + 1) (r.turn l x) := by
  have cell : (r.cells l)[i]? = some x := by
    rw [← List.head?_drop, here]
    rfl
  simp only [Replace.loop, cell]

theorem drop_succ {cells rest : List Nat} {i x : Nat} (here : cells.drop i = x :: rest) :
    cells.drop (i + 1) = rest := by
  rw [← List.drop_drop, here]
  rfl

/-- Items that are not removed are visited one by one. -/
theorem loop_spared (ledger : Ledger r s l) (valid : isValidIndex s.maxClients r.receiver = true)
    {front back : List Nat} {i : Nat} (here : (r.cells l).drop i = front ++ back)
    (spared : Spared r s l.passed.length front) (n : Nat) :
    ∃ l', r.loop (front.length + n) i l = r.loop n (i + front.length) l' ∧ Ledger r s l' ∧
      l'.state = l.state ∧ l'.stale = l.stale ∧ l'.visited = l.visited ++ front := by
  induction front generalizing i l with
  | nil => exact ⟨l, by simp, ledger, rfl, rfl, by simp⟩
  | cons x front ih =>
      have passes : r.passes l.state x = r.passes s x := congrFun ledger.passes x
      have quiet : r.passes l.state x = true → r.answers l.passed.length = false := by
        intro isPassed
        rw [Spared, if_pos (passes ▸ isPassed)] at spared
        exact spared.1
      obtain ⟨state, stale⟩ := turn_spared quiet
      have next := ledger.turn valid x
      have calls : Spared r s (r.turn l x).passed.length front := by
        rw [next.length, turn_visited, List.countP_append, ← ledger.length]
        rw [Spared] at spared
        split at spared
        · next isPassed => simpa [isPassed] using spared.2
        · next stays => simpa [stays] using spared
      have behind : (r.cells (r.turn l x)).drop (i + 1) = front ++ back := by
        unfold Replace.cells
        rw [state, stale]
        exact drop_succ here
      obtain ⟨l', runs, ledger', state', stale', visited'⟩ := ih next behind calls
      refine ⟨l', ?_, ledger', state'.trans state, stale'.trans stale, ?_⟩
      · rw [List.length_cons, show front.length + 1 + n = front.length + n + 1 by omega,
          loop_succ _ here, runs]
        congr 1
        omega
      · rw [visited', turn_visited, List.append_assoc, List.singleton_append]

/-! ## The first item that is removed -/

theorem exists_first (calls : Nat) (v : List Nat) : Spared r s calls v ∨
    ∃ before x after, v = before ++ x :: after ∧ Spared r s calls before ∧ r.passes s x = true ∧
      r.answers (calls + before.countP (r.passes s)) = true := by
  induction v generalizing calls with
  | nil => exact .inl trivial
  | cons x rest ih =>
      by_cases passes : r.passes s x = true
      · cases answer : r.answers calls with
        | true => exact .inr ⟨[], x, rest, rfl, trivial, passes, by simpa using answer⟩
        | false =>
            refine (ih (calls + 1)).imp (fun spared => ?_) ?_
            · rw [Spared, if_pos passes]
              exact ⟨answer, spared⟩
            · rintro ⟨before, y, after, rfl, spared, isPassed, removed⟩
              refine ⟨x :: before, y, after, rfl, ?_, isPassed, ?_⟩
              · rw [Spared, if_pos passes]
                exact ⟨answer, spared⟩
              · rw [List.countP_cons_of_pos passes, Nat.add_comm (List.countP _ _), ← Nat.add_assoc]
                exact removed
      · refine (ih calls).imp (fun spared => ?_) ?_
        · rw [Spared, if_neg passes]
          exact spared
        · rintro ⟨before, y, after, rfl, spared, isPassed, removed⟩
          refine ⟨x :: before, y, after, rfl, ?_, isPassed, ?_⟩
          · rw [Spared, if_neg passes]
            exact spared
          · rw [List.countP_cons_of_neg passes]
            exact removed

/-- The loop before it begins. -/
def Replace.start (s : State) : Loop := ⟨s, [], [], [], []⟩

theorem ledger_start (r : Replace) (s : State) : Ledger r s (Replace.start s) :=
  ⟨rfl, rfl, rfl, rfl, fun _ _ => rfl⟩

/-- Up to the first item that is removed the vector stays; behind it the elements have moved up,
and the last one is found again. -/
theorem loop_first (valid : isValidIndex s.maxClients r.receiver = true) {before after : List Nat}
    {x : Nat} (whole : s.playerEntities r.receiver = before ++ x :: after)
    (spared : Spared r s 0 before) (passes : r.passes s x = true) (fresh : x ∉ before)
    (removed : r.answers (before.countP (r.passes s)) = true) :
    ∃ l, r.replaceItems s = r.loop after.length (before.length + 1) l ∧ Ledger r s l ∧
      l.visited = before ++ [x] ∧
      (r.cells l).drop (before.length + 1) = (after ++ [(x :: after).getLast (by simp)]).tail := by
  have cells : (r.cells (Replace.start s)).drop 0 = before ++ x :: after := by
    simpa [Replace.cells, Replace.start] using whole
  obtain ⟨l, runs, ledger, state, stale, visited⟩ :=
    loop_spared (ledger_start r s) valid cells spared (after.length + 1)
  have vector : l.state.playerEntities r.receiver = before ++ x :: after := by
    rw [state]
    exact whole
  have visited : l.visited = before := visited
  have none : l.stale = [] := stale
  have here : (r.cells l).drop before.length = x :: after := by
    simp [Replace.cells, vector, none]
  have valid' : isValidIndex l.state.maxClients r.receiver = true := ledger.clients ▸ valid
  have isPassed : r.passes l.state x = true := ledger.passes ▸ passes
  have isRemoved : r.answers l.passed.length = true := by
    rw [ledger.length, visited]
    exact removed
  refine ⟨r.turn l x, ?_, ledger.turn valid x, by rw [turn_visited, visited], ?_⟩
  · have length : (s.playerEntities r.receiver).length = before.length + (after.length + 1) := by
      rw [whole, List.length_append, List.length_cons]
    rw [Replace.replaceItems, length]
    refine runs.trans ?_
    rw [Nat.zero_add, loop_succ _ here]
  · have hook := removePlayerItem_of_passes valid' isPassed
    have erased : (r.turn l x).state.playerEntities r.receiver = before ++ after := by
      have shifted : (l.state.removePlayerItem x).playerEntities r.receiver =
          (l.state.playerEntities r.receiver).erase x := by
        rw [hook]
        simp [State.setPlayerEntities]
      rw [vector, List.erase_append_right _ fresh, List.erase_cons_head] at shifted
      simp only [Replace.turn, isPassed, isRemoved, if_true]
      exact shifted
    have left : (r.turn l x).stale = [(x :: after).getLast (by simp)] := by
      have member : x ∈ l.state.playerEntities r.receiver := by simp [vector]
      simp only [Replace.turn, isPassed, isRemoved, if_true, Replace.erase, if_pos member]
      rw [vector, List.getLast?_append_of_ne_nil _ (by simp), none,
        List.getLast?_eq_some_getLast (by simp)]
      rfl
    rw [Replace.cells, erased, left, ← List.drop_drop, List.append_assoc, List.drop_left,
      List.drop_one]

/-! ## When the receiver is emptied -/

/-- If the elements that have moved up are the ones that were there, they are all the same. -/
theorem same_of_visited {t : List Nat} {a z i : Nat} (ledger : Ledger r s l)
    (valid : isValidIndex s.maxClients r.receiver = true)
    (here : (r.cells l).drop i = t ++ [z]) (stays : a ∈ t → r.passes s a = false)
    (visits : (r.loop (t.length + 1) i l).visited = l.visited ++ a :: t) : ∀ y ∈ t, y = a := by
  induction t generalizing i l with
  | nil => exact fun y member => by cases member
  | cons b t ih =>
      rw [loop_succ _ here] at visits
      obtain ⟨more, isMore⟩ := loop_visited r (t.length + 1) (i + 1) (r.turn l b)
      have same : b :: more = a :: b :: t := by
        rw [List.length_cons, isMore, turn_visited, List.append_assoc, List.singleton_append]
          at visits
        exact List.append_cancel_left visits
      obtain ⟨rfl, rest⟩ := List.cons.inj same
      have isKept : r.passes s b = false := stays List.mem_cons_self
      obtain ⟨state, stale⟩ := turn_spared (r := r) (l := l) (x := b) fun isPassed => by
        rw [ledger.passes, isKept] at isPassed
        cases isPassed
      have behind : (r.cells (r.turn l b)).drop (i + 1) = t ++ [z] := by
        unfold Replace.cells
        rw [state, stale]
        exact drop_succ here
      have later := ih (ledger.turn valid b) behind (fun _ => isKept) (by
        rw [turn_visited, List.append_assoc, List.singleton_append]
        exact visits)
      intro y member
      rcases List.mem_cons.1 member with rfl | inT
      · rfl
      · exact later y inT

/-- The rest of what the phase should do follows from the books. -/
theorem Ledger.emptied (ledger : Ledger r s l)
    (visited : l.visited = s.playerEntities r.receiver)
    (once : ∀ x ∈ s.playerEntities r.receiver, r.passes s x = true →
      (s.playerEntities r.receiver).count x = 1) : Emptied r s l := by
  refine ⟨visited, fun x member passes => ?_, ledger.killed, fun x skipped => ?_⟩
  · rw [ledger.passed, visited, List.count_filter passes]
    exact once x member passes
  · have stays : r.passes s x = false := by simp [Replace.passes, skipped]
    refine ⟨fun member => ?_, ledger.kept x stays⟩
    rw [ledger.passed] at member
    rw [(List.mem_filter.1 member).2] at stays
    cases stays

/-- An item of which there is one is nowhere else. -/
theorem not_mem_of_count (before after : List Nat) {x : Nat}
    (once : (before ++ x :: after).count x = 1) : x ∉ before ∧ x ∉ after := by
  rw [List.count_append, List.count_cons_self] at once
  exact ⟨List.count_eq_zero.1 (by omega), List.count_eq_zero.1 (by omega)⟩

theorem Emptied.orderly (valid : isValidIndex s.maxClients r.receiver = true)
    (emptied : Emptied r s (r.replaceItems s)) : Orderly r s := by
  have ledger : Ledger r s (r.replaceItems s) := (ledger_start r s).loop valid _ 0
  have once : ∀ x ∈ s.playerEntities r.receiver, r.passes s x = true →
      (s.playerEntities r.receiver).count x = 1 := by
    intro x member passes
    have count := emptied.passed x member passes
    rwa [ledger.passed, emptied.visited, List.count_filter passes] at count
  refine ⟨once, fun before x after whole spared passes removed => ?_⟩
  have fresh : x ∉ before := (not_mem_of_count before after
    (whole ▸ once x (by simp [whole]) passes)).1
  obtain ⟨l, runs, books, visited, behind⟩ := loop_first valid whole spared passes fresh removed
  cases after with
  | nil => exact fun y member => by cases member
  | cons a t =>
      have visits :
          (r.loop (t.length + 1) (before.length + 1) l).visited = l.visited ++ a :: t := by
        rw [← List.length_cons (a := a), ← runs, emptied.visited, whole, visited,
          List.append_assoc, List.singleton_append]
      have stays (member : a ∈ t) : r.passes s a = false := by
        by_contra isPassed
        have alone := once a (by simp [whole]) (Bool.of_not_eq_false isPassed)
        rw [whole, show before ++ x :: a :: t = (before ++ [x]) ++ a :: t by simp] at alone
        exact (not_mem_of_count _ _ alone).2 member
      have same := same_of_visited books valid behind stays visits
      have all : ∀ y ∈ a :: t, y = a := List.forall_mem_cons.2 ⟨rfl, same⟩
      intro y isY z isZ
      rw [all y isY, all z isZ]

/-- Copies of one element that is not passed are spared. -/
theorem spared_replicate {a : Nat} (stays : r.passes s a = false) (calls n : Nat) :
    Spared r s calls (List.replicate n a) := by
  induction n with
  | zero => trivial
  | succ n ih =>
      rw [List.replicate_succ, Spared, if_neg (by simp [stays])]
      exact ih

theorem Orderly.emptied (valid : isValidIndex s.maxClients r.receiver = true)
    (orderly : Orderly r s) : Emptied r s (r.replaceItems s) := by
  have ledger : Ledger r s (r.replaceItems s) := (ledger_start r s).loop valid _ 0
  refine ledger.emptied ?_ orderly.once
  rcases exists_first (r := r) (s := s) 0 (s.playerEntities r.receiver) with
    spared | ⟨before, x, after, whole, spared, passes, removed⟩
  · have cells : (r.cells (Replace.start s)).drop 0 = s.playerEntities r.receiver ++ [] := rfl
    obtain ⟨l, runs, -, -, -, visited⟩ := loop_spared (ledger_start r s) valid cells spared 0
    exact (congrArg Loop.visited runs).trans visited
  rw [Nat.zero_add] at removed
  have fresh : x ∉ before := (not_mem_of_count before after
    (whole ▸ orderly.once x (by simp [whole]) passes)).1
  have same := orderly.last before x after whole spared passes removed
  obtain ⟨l, runs, books, visited, behind⟩ := loop_first valid whole spared passes fresh removed
  rw [runs, whole]
  match after, same, whole, behind with
  | [], _, _, _ => exact visited
  | [c], _, _, behind =>
      rw [List.length_singleton, loop_succ [] behind]
      exact (turn_visited r l c).trans (by rw [visited, List.append_assoc]; rfl)
  | a :: b :: t, same, whole, behind =>
      -- More than one: they are all `a`, which is not passed, for it is there twice.
      have all : ∀ y ∈ a :: b :: t, y = a := fun y member => same y member a List.mem_cons_self
      have stays : r.passes s a = false := by
        by_contra isPassed
        have alone := orderly.once a (by simp [whole]) (Bool.of_not_eq_false isPassed)
        rw [whole, show before ++ x :: a :: b :: t = (before ++ [x]) ++ a :: b :: t by simp]
          at alone
        have isB : b = a := all b (by simp)
        exact (not_mem_of_count _ _ alone).2 (by simp [isB])
      have copies : a :: b :: t = List.replicate (t.length + 2) a := List.eq_replicate_of_mem all
      have last : (x :: a :: b :: t).getLast (by simp) = a := by
        rw [List.getLast_cons (by simp)]
        exact all _ (List.getLast_mem _)
      have moved : (a :: b :: t ++ [(x :: a :: b :: t).getLast (by simp)]).tail =
          List.replicate (t.length + 2) a := by
        rw [last, copies, ← List.replicate_succ']
        rfl
      rw [moved, ← List.append_nil (List.replicate _ _)] at behind
      obtain ⟨l', more, -, -, -, visited'⟩ :=
        loop_spared books valid behind (spared_replicate stays _ _) 0
      rw [List.length_replicate] at more
      refine (congrArg Loop.visited more).trans ?_
      rw [Replace.loop, visited', visited, ← copies, List.append_assoc, List.singleton_append]

/-- **When the receiver is emptied.**  The replace phase visits every element once, passes every
item that is to go to `RemovePlayerItem` once, kills it if it is removed and leaves the items of
the mask alone, if and only if each item to be passed is once in the list and, behind the first
one that is removed, all elements are the same. -/
theorem replaceItems_iff (r : Replace) (s : State)
    (valid : isValidIndex s.maxClients r.receiver = true) :
    Emptied r s (r.replaceItems s) ↔ Orderly r s :=
  ⟨Emptied.orderly valid, Orderly.emptied valid⟩

/-- A receiver with weapons, none of which is in the mask. -/
def armed (weapons : List Nat) : State :=
  { State.zero 1 (fun _ => { Edict.zero with privateData := true, owner := 1 }) with
    playerEntities := fun _ => weapons }

/-- Every weapon can be removed. -/
def replaceAll : Replace :=
  { receiver := 1, skipItems := 0x80000000#32, iId := fun _ => 1, answers := fun _ => true }

/-- Two weapons are removed. -/
theorem replaceItems_iff_two :
    Emptied replaceAll (armed [40, 41]) (replaceAll.replaceItems (armed [40, 41])) :=
  (replaceItems_iff replaceAll (armed [40, 41]) (by decide)).2
    { once := by decide
      last := by
        intro before x after whole spared passes removed y isY z isZ
        match before, whole with
        | [], whole =>
            obtain ⟨-, rfl⟩ := List.cons.inj whole
            rw [List.mem_singleton.1 isY, List.mem_singleton.1 isZ]
        | [_], whole =>
            obtain ⟨-, rest⟩ := List.cons.inj whole
            obtain ⟨-, rfl⟩ := List.cons.inj rest
            cases isY
        | [_, _], whole => cases (List.cons.inj (List.cons.inj whole).2).2
        | _ :: _ :: _ :: _, whole => cases (List.cons.inj (List.cons.inj whole).2).2 }

/-- Of three weapons the second stays, and the third is passed twice. -/
theorem not_always_emptied : ¬ ∀ (r : Replace) (s : State),
    isValidIndex s.maxClients r.receiver = true → Emptied r s (r.replaceItems s) := by
  intro always
  have emptied := always replaceAll (armed [40, 41, 42]) (by decide)
  have visited := emptied.visited
  revert visited
  decide

end Refsapi.Entities
