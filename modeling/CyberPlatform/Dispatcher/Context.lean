/-
**`dispatcher/main.h`: the context of the dispatcher.**

A string that is not null is a `String` without the null character, a ring is its address, and the
pointer of a bypass interface is an index into the table of tx interfaces.
-/

import CyberPlatform.Foundation.FixedArray

namespace CyberPlatform.Dispatcher

open Foundation

/-- `MAX_INTERFACES` -/
def maxInterfaces : Nat := 8

/-- The address of a `struct rte_ring`. -/
abbrev Ring := Nat

/-- `struct if_t`; the defaults are what `memset` leaves. -/
structure IfT where
  name : Option String := none
  bypassName : Option String := none
  bypassIf : Option Nat := none
  isEth : Int := 0
  pRing : Option Ring := none
  portId : Int := 0
  qId : Int := 0
  deriving DecidableEq, Repr

/-- `interface_t` -/
structure InterfaceT where
  ifs : Vector IfT maxInterfaces
  count : Int
  deriving DecidableEq, Repr

/-- `dispatcher_ctx_t` -/
structure DispatcherCtx where
  appName : Option String
  coreId : UInt64
  rxInterfaces : InterfaceT
  txInterfaces : InterfaceT
  appInterfaces : InterfaceT
  deriving DecidableEq, Repr

namespace InterfaceT

/-- **The table that holds the given interfaces**, every other cell of it zero. -/
def ofList (interfaces : List IfT) : InterfaceT where
  ifs := writeFront (Vector.replicate maxInterfaces {}) interfaces
  count := interfaces.length

@[simp] theorem ofList_count_toNat (interfaces : List IfT) :
    (ofList interfaces).count.toNat = interfaces.length := rfl

/-- The interfaces that a table holds, in the order of their indices. -/
def entries (table : InterfaceT) : List IfT := table.ifs.toList.take table.count.toNat

theorem entries_ofList {interfaces : List IfT} (room : interfaces.length ≤ maxInterfaces) :
    (ofList interfaces).entries = interfaces :=
  take_writeFront _ _ room

/-- A table whose count is in the range of its cells has as many entries. -/
theorem entries_length {table : InterfaceT} (fits : table.count ≤ maxInterfaces) :
    table.entries.length = table.count.toNat := by
  rw [entries, List.length_take, Vector.length_toList]
  omega

/-- An entry is what its cell holds. -/
theorem fetch_entries {table : InterfaceT} {i : Nat} {x : IfT}
    (entry : table.entries[i]? = some x) : fetch table.ifs i = .ok x := by
  obtain ⟨inside, rfl⟩ := List.getElem?_eq_some_iff.mp entry
  have short : i < min table.count.toNat maxInterfaces := by
    rwa [entries, List.length_take, Vector.length_toList] at inside
  rw [fetch_inside _ (by omega)]
  simp [entries]

/-- An empty table has no entry. -/
theorem entries_of_empty {table : InterfaceT} (empty : table.count ≤ 0) : table.entries = [] := by
  rw [entries, Int.toNat_of_nonpos empty, List.take_zero]

end InterfaceT

end CyberPlatform.Dispatcher
