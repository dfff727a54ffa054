/-
# Entities.Model -- `g_Tries`, the index of entities by class name

An entity is filed under the class name it has when its private data is
allocated.  Plugins rename entities freely and nothing tells the module, so a
query files the entities it meets again (`trie_transfer`) while it walks over
the vector it was asked about.  Two secondary indexes list the weapons and what
each player carries.

A vector must not change while a range-for walks over it: what the loop does
after that is undefined, and such a query has no result here.
-/
import Mathlib.Logic.Function.Basic
import Refsapi.Lib.Transition
import Refsapi.Misc.Edict

namespace Refsapi.Entities

set_option autoImplicit false

/-! ## Data -/

/-- `WP_CLASS_PREFIX`. -/
def wpClassPrefix : List Char := ['w', 'e', 'a', 'p', 'o', 'n', '_']

/-- `key.find(WP_CLASS_PREFIX) == 0 && key.length() > WP_CLASS_PREFIX_LEN`. -/
def isWeapon (key : List Char) : Bool :=
  wpClassPrefix.isPrefixOf key && key.length > wpClassPrefix.length

/-- A `std::map<std::string, std::vector<cell>>`. -/
abbrev Trie := List Char → Option (List Nat)

/-- `g_Tries`, with the edicts it is about. -/
structure State where
  maxClients : Nat
  edicts : Nat → Edict
  entities : Trie
  wpEntities : List Nat
  classnames : Nat → Option (List Char)
  playerEntities : Nat → List Nat

/-! ## The maps and vectors -/

def vectorAdd (v : List Nat) (value : Nat) : List Nat := v ++ [value]

def vectorRemove (v : List Nat) (value : Nat) : List Nat := v.erase value

def trieAdd (trie : Trie) (key : List Char) (value : Nat) : Trie :=
  Function.update trie key (some (vectorAdd ((trie key).getD []) value))

/-- The key goes with its last value. -/
def trieRemove (trie : Trie) (key : List Char) (value : Nat) : Trie :=
  match trie key with
  | none => trie
  | some v =>
      let v := vectorRemove v value
      Function.update trie key (if v.length == 0 then none else some v)

namespace State

def zero (maxClients : Nat) (edicts : Nat → Edict) : State where
  maxClients := maxClients
  edicts := edicts
  entities := fun _ => none
  wpEntities := []
  classnames := fun _ => none
  playerEntities := fun _ => []

def setEdict (s : State) (index : Nat) (p : Edict) : State :=
  { s with edicts := Function.update s.edicts index p }

def setClassname (s : State) (index : Nat) (name : Option (List Char)) : State :=
  { s with classnames := Function.update s.classnames index name }

def setPlayerEntities (s : State) (player : Nat) (v : List Nat) : State :=
  { s with playerEntities := Function.update s.playerEntities player v }

/-- `STRING(INDEXENT(index)->v.classname)`. -/
def name (s : State) (index : Nat) : List Char := (s.edicts index).string

def trieTransfer (s : State) (keyFrom keyTo : List Char) (value : Nat) : State :=
  let s := { s with entities := trieRemove s.entities keyFrom value }
  let s := s.setClassname value (some keyTo)
  { s with entities := trieAdd s.entities keyTo value }

/-! ## The hooks -/

/-- `Alloc_EntPrivateData`. -/
def alloc (s : State) (index : Nat) : State :=
  match (s.edicts index).classname with
  | none => s
  | some key =>
      let s := { s with entities := trieAdd s.entities key index }
      let s := s.setClassname index (some key)
      if isWeapon key then { s with wpEntities := vectorAdd s.wpEntities index } else s

/-- `key_old` of `Free_EntPrivateData`. -/
def keyOld (s : State) (index : Nat) : List Char := (s.classnames index).getD []

/-- `key` of `Free_EntPrivateData`. -/
def freeKey (s : State) (index : Nat) : List Char :=
  (s.edicts index).classname.getD (s.keyOld index)

/-- The part of `Free_EntPrivateData` that takes the entity out of the class index.
Looking the old name up with `[]` leaves an entry. -/
def unfile (s : State) (index : Nat) : State :=
  let keyOld := s.keyOld index
  let key := s.freeKey index
  let s := s.setClassname index (some keyOld)
  let s := if keyOld != key then s.trieTransfer keyOld key index else s
  { s with entities := trieRemove s.entities key index }

/-- The part that takes it out of the secondary indexes. -/
def unlist (s : State) (index : Nat) (key : List Char) : State :=
  let owner := (s.edicts index).owner
  let s := if isWeapon key then { s with wpEntities := vectorRemove s.wpEntities index } else s
  if isValidIndex s.maxClients owner then
    s.setPlayerEntities owner (vectorRemove (s.playerEntities owner) index)
  else s

/-- `Free_EntPrivateData`. -/
def free (s : State) (index : Nat) : State :=
  ((s.unfile index).unlist index (s.freeKey index)).setClassname index none

/-- `CBasePlayer_AddPlayerItem_RG` when the item was added. -/
def addPlayerItem (s : State) (player item : Nat) : State :=
  let s := s.setPlayerEntities player (vectorAdd (s.playerEntities player) item)
  s.setEdict item { s.edicts item with owner := player }

/-- `CBasePlayer_RemovePlayerItem_RG` when the item was removed. -/
def removePlayerItem (s : State) (item : Nat) : State :=
  let owner := (s.edicts item).owner
  if isValidIndex s.maxClients owner then
    s.setPlayerEntities owner (vectorRemove (s.playerEntities owner) item)
  else s

end State

/-! ## Queries -/

/-- The vector that a query walks over. -/
inductive Path where
  | player (owner : Nat)
  | weapons
  | global (key : List Char)
  deriving DecidableEq, Repr

/-- The vector; `[]` makes an empty one where there is none. -/
def State.vector (s : State) : Path → List Nat
  | .player owner => s.playerEntities owner
  | .weapons => s.wpEntities
  | .global key => (s.entities key).getD []

def State.setVector (s : State) (path : Path) (v : List Nat) : State :=
  match path with
  | .player owner => s.setPlayerEntities owner v
  | .weapons => { s with wpEntities := v }
  | .global key => { s with entities := Function.update s.entities key (some v) }

/-- What the `remove_if` of `copy_entities` leaves. -/
def State.keeps (s : State) (entity : Nat) : Bool :=
  isValidEntity (s.edicts entity) && (s.classnames entity).isSome

def State.prune (s : State) (path : Path) : State :=
  s.setVector path ((s.vector path).filter s.keeps)

/-- A transfer between these two keys erases from the vector or appends to it. -/
def Path.touched (path : Path) (keyFrom keyTo : List Char) : Bool :=
  path == .global keyFrom || path == .global keyTo

/-- The entity is filed again if it has been renamed since. -/
def State.refile (s : State) (recorded : List Char) (entity : Nat) : State :=
  if recorded != s.name entity then s.trieTransfer recorded (s.name entity) entity else s

/-- The loop of `copy_entities` over what is left of the vector. -/
def State.copyLoop (path : Path) (key : List Char) (maxSize : Nat) :
    List Nat → List Nat → State → Option (List Nat × State)
  | [], dest, s => some (dest, s)
  | entity :: rest, dest, s =>
      match s.classnames entity with
      | none => none
      | some recorded =>
          if recorded != s.name entity && path.touched recorded (s.name entity) then none
          else if key != s.name entity then
            copyLoop path key maxSize rest dest (s.refile recorded entity)
          else if (dest ++ [entity]).length ≥ maxSize then
            some (dest ++ [entity], s.refile recorded entity)
          else copyLoop path key maxSize rest (dest ++ [entity]) (s.refile recorded entity)

def State.copyEntities (s : State) (path : Path) (key : List Char) (maxSize : Nat) :
    Option (List Nat × State) :=
  State.copyLoop path key maxSize ((s.prune path).vector path) [] (s.prune path)

/-- The path of `rf_get_ent_by_class`.  Its length test is against
`sizeof(WP_CLASS_PREFIX)`, which counts the terminating zero. -/
def State.path (s : State) (key : List Char) (owner : Int) : Path :=
  if isValidIndex s.maxClients owner.toNat then .player owner.toNat
  else if wpClassPrefix.isPrefixOf key && key.length > wpClassPrefix.length + 1 then .weapons
  else .global key

/-- `rf_get_ent_by_class`: the entities it writes, and the state it leaves. -/
def State.rfGetEntByClass (s : State) (key : List Char) (owner : Int) (maxSize : Nat) :
    Option (List Nat × State) :=
  if key.isEmpty || maxSize == 0 then some ([], s)
  else s.copyEntities (s.path key owner) key maxSize

/-! ## Runs -/

inductive Action where
  /-- the engine or a plugin changes an edict -/
  | engine (index : Nat) (p : Edict)
  | alloc (index : Nat)
  | free (index : Nat)
  | addPlayerItem (player item : Nat)
  | removePlayerItem (item : Nat)
  | getEntByClass (key : List Char) (owner : Int) (maxSize : Nat)
  /-- the two steps of `copy_entities` by themselves -/
  | prune (path : Path)
  | transfer (entity : Nat)
  /-- `get_user_buyzone` looks a key up with `[]` -/
  | lookup (key : List Char)

/-- The class index names the entity. -/
def State.tracked (s : State) (index : Nat) : Bool := (s.classnames index).isSome

/-- One action.  The engine frees private data before it allocates it again, and
gives items to players. -/
def step (s : State) : Action → Option State
  | .engine index p => some (s.setEdict index p)
  | .alloc index => if s.tracked index then none else some (s.alloc index)
  | .free index => some (s.free index)
  | .addPlayerItem player item =>
      if isValidIndex s.maxClients player then some (s.addPlayerItem player item) else none
  | .removePlayerItem item => some (s.removePlayerItem item)
  | .getEntByClass key owner maxSize => (s.rfGetEntByClass key owner maxSize).map Prod.snd
  | .prune path => some (s.prune path)
  | .transfer entity =>
      match s.classnames entity with
      | none => none
      | some recorded => some (s.trieTransfer recorded (s.name entity) entity)
  | .lookup key =>
      some { s with entities := Function.update s.entities key (some ((s.entities key).getD [])) }

def machine : Machine State Action where
  init s := ∃ maxClients edicts, s = .zero maxClients edicts
  step := step

end Refsapi.Entities
