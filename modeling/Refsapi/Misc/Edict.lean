/-
# Misc.Edict -- what the module reads of an `edict_t`

The engine and the plugins change edicts at will; the module only looks at them
through the tests of `refsapi_misc.h`.
-/
import Mathlib.Data.List.Basic

namespace Refsapi

set_option autoImplicit false

/-- The fields of an `edict_t` that the module reads or writes.  A `std::string`
is the list of its chars. -/
structure Edict where
  /-- `pvPrivateData` is not null -/
  privateData : Bool
  free : Bool
  /-- `v.flags & FL_KILLME` -/
  killme : Bool
  /-- `v.classname`, where `none` is the null `string_t` -/
  classname : Option (List Char)
  /-- `ENTINDEX(v.owner)`, 0 for no owner -/
  owner : Nat
  team : Int
  deadflag : Int
  deriving DecidableEq, Repr

/-- A zeroed edict. -/
def Edict.zero : Edict := ⟨false, false, false, none, 0, 0, 0⟩

/-- `STRING(p->v.classname)`. -/
def Edict.string (p : Edict) : List Char := p.classname.getD []

def isValidEntity (p : Edict) : Bool := !(!p.privateData || p.free || p.killme)

/-- `is_valid_index`, where `max_clients` is `gpGlobals->maxClients`. -/
def isValidIndex (maxClients index : Nat) : Bool := 0 < index && index ≤ maxClients

@[simp] theorem isValidIndex_iff (maxClients index : Nat) :
    isValidIndex maxClients index = true ↔ 0 < index ∧ index ≤ maxClients := by
  simp [isValidIndex]

end Refsapi
